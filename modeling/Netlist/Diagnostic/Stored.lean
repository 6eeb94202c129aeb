import Netlist.Diagnostic.Basic
import Netlist.MessagePack.Reader
import Netlist.MessagePack.Writer

/-!
# Stored diagnostics

The layout of diagnostics in MessagePack.  A stored diagnostic keeps the notes that
earlier values of the same field left behind the end of its list, because a later
value is read over them.
-/

namespace Netlist

open MessagePack

/-! ## Writing -/

def Span.toMessagePack (s : Span) : Value :=
  .map [("File", .uint32 s.file), ("Start", .uint32 s.start), ("End", .uint32 s.stop)]

def Note.toMessagePack (n : Note) : Value :=
  .map [("Span", n.span.toMessagePack), ("Msg", .text n.message.bytes)]

/-- A list in MessagePack, with nothing for an empty one. -/
def listOrNil {α : Type} (f : α → Value) (items : List α) : Value :=
  if items.isEmpty then .nil else .list (items.map f)

def Diagnostic.toMessagePack (d : Diagnostic) : Value :=
  .map [("Severity", .uint8 d.severity.rank), ("Code", .uint16 d.code.number),
    ("Message", .text d.message.bytes), ("Primary", d.span.toMessagePack),
    ("Notes", listOrNil Note.toMessagePack d.notes)]

/-! ## Reading -/

/-- A span at the start of the first file, which an unread span is. -/
def Span.zero : Span := ⟨0, 0, 0⟩

def Span.readOver : Span → Reader Span :=
  Reader.recordOver .zero
    [("File", Reader.field (Reader.uint 32) fun s n => { s with file := UInt32.ofNat n }),
     ("Start", Reader.field (Reader.uint 32) fun s n => { s with start := UInt32.ofNat n }),
     ("End", Reader.field (Reader.uint 32) fun s n => { s with stop := UInt32.ofNat n })]

def readMessage : Reader Message := return .ofBytes (← Reader.binary)

def Note.readOver : Note → Reader Note :=
  Reader.recordOver ⟨.zero, ""⟩
    [("Span", Reader.fieldOver Note.span Span.readOver fun n s => { n with span := s }),
     ("Msg", Reader.field readMessage fun n s => { n with message := s })]

/-- A stored diagnostic. -/
structure Stored.Diagnostic where
  /-- How bad it is. -/
  severity : Severity := ⟨0⟩
  /-- What kind of problem it is. -/
  code : Code := ⟨0⟩
  message : Message := .text ""
  span : Span := .zero
  notes : Slots Note := {}

def Stored.Diagnostic.toDiagnostic (d : Stored.Diagnostic) : Netlist.Diagnostic :=
  ⟨d.severity, d.code, d.span, d.message, d.notes.toList⟩

def Stored.Diagnostic.readOver : Stored.Diagnostic → Reader Stored.Diagnostic :=
  Reader.recordOver {}
    [("Severity", Reader.field (Reader.uint 8) fun d n => { d with severity := ⟨UInt8.ofNat n⟩ }),
     ("Code", Reader.field (Reader.uint 16) fun d n => { d with code := ⟨UInt16.ofNat n⟩ }),
     ("Message", Reader.field readMessage fun d s => { d with message := s }),
     ("Primary", Reader.fieldOver Diagnostic.span Span.readOver fun d s => { d with span := s }),
     ("Notes", Reader.fieldOver Diagnostic.notes (Reader.slotsOver ⟨.zero, ""⟩ Note.readOver)
       fun d ns => { d with notes := ns })]

end Netlist
