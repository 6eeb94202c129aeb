import Netlist.Program.Stored.Reader
import Netlist.Program.Stored.Writer

/-!
# Snapshots

A snapshot is a program in MessagePack under a version number.  The things of a
program are written in the order of their identifiers, so equal programs have
equal snapshots.
-/

namespace Netlist

def snapshotVersion : UInt16 := 2

/-! ## Writing -/

/-- A program under the version number, in MessagePack. -/
def Stored.Program.toSnapshot (p : Stored.Program) : MessagePack.Value :=
  .map [("Schema", .uint16 snapshotVersion), ("Program", p.toMessagePack)]

def Stored.Program.snapshot (p : Stored.Program) : Bytes := p.toSnapshot.bytes

def Program.snapshot (p : Program) : Bytes := (Stored.Program.ofProgram p).snapshot

/-! ## Reading -/

/-- A version number and a program. -/
structure Snapshot where
  version : Nat := 0
  program : Option Stored.Program := none

open MessagePack in
/-- Reads a version number and a program. -/
def Snapshot.reader : Reader Snapshot :=
  Reader.record {}
    [("Schema", Reader.field (Reader.uint 16) fun s n => { s with version := n }),
     ("Program", Reader.fieldOver Snapshot.program (Reader.wholeOver {} Stored.Program.reader)
       fun s p => { s with program := p })]

/-- Why bytes are not a snapshot. -/
inductive SnapshotError where
  | unreadable (e : MessagePack.ReadError)
  /-- They have another layout. -/
  | version (found : Nat)
  /-- They hold no program. -/
  | empty

def SnapshotError.message : SnapshotError → String
  | unreadable e => "decode snapshot: " ++ e.message
  | version found =>
    "snapshot schema mismatch: got " ++ Decimal.ofNat found ++ ", want " ++
      Decimal.ofNat snapshotVersion.toNat
  | empty => "decode snapshot: empty program"

/-- Reads the stored program of a snapshot.  Bytes after it are ignored. -/
def Stored.Program.ofSnapshot (bytes : Bytes) : Except SnapshotError Stored.Program :=
  match Snapshot.reader.run bytes with
  | .error e => .error (.unreadable e)
  | .ok (s, _) =>
    if s.version != snapshotVersion.toNat then .error (.version s.version)
    else
      match s.program with
      | none => .error .empty
      | some p => .ok p

def Program.ofSnapshot (bytes : Bytes) : Except SnapshotError Program :=
  (Stored.Program.ofSnapshot bytes).map Stored.Program.toProgram

end Netlist
