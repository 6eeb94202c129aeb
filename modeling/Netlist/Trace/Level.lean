import Netlist.Text.Blank
import Netlist.Text.LowerCase
import Netlist.Text.Quoted

/-!
# What a trace shows, and where it goes

A trace is a record of the steps of a run.  Each step has a scope, from the whole
run down to one module, and a level says which scopes are recorded.  The format
and the storage say how and where the record is written.  All of these are ranks
with names; a `Naming` reads and writes the names.
-/

namespace Netlist

/-- Names for some values of a type. -/
structure Naming (α : Type) where
  /-- What the values are, for messages. -/
  what : String
  /-- The names in order.  The first name of a value is the one that is written. -/
  entries : List (String × α)

namespace Naming

variable {α : Type} [DecidableEq α]

def name (n : Naming α) (v : α) : String :=
  ((n.entries.find? fun e => e.2 == v).map (·.1)).getD "unknown"

/-- The names that are written, the empty one left out. -/
def canonical (n : Naming α) : List String :=
  (n.entries.filter fun e => !e.1.isEmpty && n.name e.2 == e.1).map (·.1)

/-- The value that a word names.  Case and surrounding white space do not count. -/
def parse (n : Naming α) (word : String) : Except String α :=
  let word := Text.lower (Text.trim word)
  match n.entries.find? fun e => e.1 == word with
  | some e => .ok e.2
  | none =>
    .error ("invalid " ++ n.what ++ ": " ++ Text.quoted word ++ " (expected: " ++
      "|".intercalate n.canonical ++ ")")

end Naming

namespace Trace

/-- What a step belongs to; a higher rank is a smaller part of the run. -/
structure Scope where
  rank : UInt8
  deriving DecidableEq, Repr

namespace Scope

/-- The whole run. -/
def run : Scope := ⟨1⟩

def stage : Scope := ⟨2⟩

def file : Scope := ⟨3⟩

def module : Scope := ⟨4⟩

def naming : Naming Scope :=
  ⟨"scope", [("driver", run), ("stage", stage), ("file", file), ("module", module)]⟩

def name (s : Scope) : String := naming.name s

end Scope

/-- How much of a run is recorded. -/
structure Level where
  rank : UInt8
  deriving DecidableEq, Repr

namespace Level

/-- Nothing is recorded. -/
def off : Level := ⟨0⟩

/-- Everything is kept, and nothing is written as it happens. -/
def error : Level := ⟨1⟩

/-- The run and its stages. -/
def stage : Level := ⟨2⟩

/-- The run, its stages and its files. -/
def detail : Level := ⟨3⟩

/-- Everything. -/
def debug : Level := ⟨4⟩

def naming : Naming Level :=
  ⟨"trace level", [("off", off), ("error", error), ("stage", stage), ("phase", stage),
    ("detail", detail), ("debug", debug)]⟩

def name (l : Level) : String := naming.name l

/-- Whether a step of a scope is written as it happens. -/
def emits (l : Level) (s : Scope) : Bool :=
  if l == stage then s.rank ≤ Scope.stage.rank
  else if l == detail then s.rank ≤ Scope.file.rank
  else l == debug

/-- Whether a step of a scope is recorded. -/
def records (l : Level) (s : Scope) : Bool := l == error || l.emits s

end Level

/-- What an event says about its step. -/
structure Kind where
  rank : UInt8
  deriving DecidableEq, Repr

namespace Kind

/-- A step began. -/
def start : Kind := ⟨1⟩

/-- A step ended. -/
def finish : Kind := ⟨2⟩

/-- Something happened at one instant. -/
def point : Kind := ⟨3⟩

def naming : Naming Kind := ⟨"event kind", [("begin", start), ("end", finish), ("point", point)]⟩

def name (k : Kind) : String := naming.name k

/-- The mark of the kind in a line of text. -/
def glyph (k : Kind) : String :=
  if k == start then "→ " else if k == finish then "← " else if k == point then "• " else ""

end Kind

/-- How events are written. -/
structure Format where
  rank : UInt8
  deriving DecidableEq, Repr

namespace Format

/-- As the name of the output file says. -/
def auto : Format := ⟨0⟩

/-- Indented lines. -/
def text : Format := ⟨1⟩

/-- One JSON object a line. -/
def ndjson : Format := ⟨2⟩

def naming : Naming Format :=
  ⟨"trace format", [("auto", auto), ("", auto), ("text", text), ("ndjson", ndjson),
    ("json", ndjson)]⟩

def name (f : Format) : String := naming.name f

/-- The format for an output file: its name decides when the format is left open. -/
def resolve (f : Format) (path : String) : Format :=
  if f == auto then
    if path.endsWith ".ndjson" || path.endsWith ".jsonl" then ndjson else text
  else f

end Format

/-- Where events go. -/
structure Storage where
  rank : UInt8
  deriving DecidableEq, Repr

namespace Storage

/-- They are written as they happen. -/
def stream : Storage := ⟨1⟩

/-- The newest are kept. -/
def ring : Storage := ⟨2⟩

def both : Storage := ⟨3⟩

def naming : Naming Storage :=
  ⟨"storage mode", [("stream", stream), ("ring", ring), ("both", both)]⟩

def name (s : Storage) : String := naming.name s

end Storage

end Trace

end Netlist
