import Netlist.Diagnostic.Code
import Netlist.Diagnostic.Severity
import Netlist.Source.FileSet

/-!
# Diagnostics

A diagnostic says what is wrong, how bad it is and where.  Its notes point at
related places.  Its wording is a text unless it was read back from storage.
`Logged` is a result together with the diagnostics that were reported while it
was computed, in order.
-/

namespace Netlist

/-- A wording: a text, or bytes that are no text, which a stored wording may be. -/
inductive Message where
  | text (s : String)
  | broken (bytes : Bytes) (noText : bytes.isText = false)
  deriving DecidableEq, Repr

namespace Message

instance : Coe String Message := ⟨text⟩

/-- The wording that bytes spell. -/
def ofBytes (bytes : Bytes) : Message :=
  if h : bytes.isText = false then broken bytes h else text bytes.toText

def toText : Message → String
  | text s => s
  | broken bytes _ => bytes.toText

def bytes : Message → Bytes
  | text s => Bytes.ofString s
  | broken bytes _ => bytes

end Message

/-- A remark on a diagnostic, with the place it speaks of. -/
structure Note where
  span : Span
  message : Message
  deriving DecidableEq, Repr

/-- A problem found in a design. -/
structure Diagnostic where
  /-- How bad it is. -/
  severity : Severity
  /-- What kind of problem it is. -/
  code : Code
  span : Span
  message : Message
  notes : List Note := []
  deriving DecidableEq, Repr

namespace Diagnostic

def error (code : Code) (span : Span) (message : String) (notes : List Note := []) : Diagnostic :=
  ⟨.error, code, span, message, notes⟩

def warning (code : Code) (span : Span) (message : String) (notes : List Note := []) : Diagnostic :=
  ⟨.warning, code, span, message, notes⟩

/-- Whether the diagnostic is an error or worse. -/
def isError (d : Diagnostic) : Bool := d.severity.isError

end Diagnostic

/-- A result with the diagnostics reported on the way, in order. -/
structure Logged (α : Type) where
  value : α
  log : List Diagnostic := []

namespace Logged

/-- Goes on with a result, appending what is reported then. -/
def andThen {α β : Type} (x : Logged α) (f : α → Logged β) : Logged β :=
  let y := f x.value
  ⟨y.value, x.log ++ y.log⟩

instance : Monad Logged where
  pure a := ⟨a, []⟩
  bind := andThen

def report (d : Diagnostic) : Logged Unit := ⟨(), [d]⟩

/-- Reports diagnostics in order. -/
def reportAll (ds : List Diagnostic) : Logged Unit := ⟨(), ds⟩

/-- How many errors were reported. -/
def errors {α : Type} (x : Logged α) : Nat := (x.log.filter (·.isError)).length

def hasErrors {α : Type} (x : Logged α) : Bool := x.log.any (·.isError)

def codes {α : Type} (x : Logged α) : List Code := x.log.map (·.code)

@[simp] theorem value_pure {α : Type} (a : α) : (pure a : Logged α).value = a := rfl

@[simp] theorem log_pure {α : Type} (a : α) : (pure a : Logged α).log = [] := rfl

@[simp] theorem value_bind {α β : Type} (x : Logged α) (f : α → Logged β) :
    (x >>= f).value = (f x.value).value := rfl

@[simp] theorem log_bind {α β : Type} (x : Logged α) (f : α → Logged β) :
    (x >>= f).log = x.log ++ (f x.value).log := rfl

@[simp] theorem log_report (d : Diagnostic) : (report d).log = [d] := rfl

end Logged

end Netlist
