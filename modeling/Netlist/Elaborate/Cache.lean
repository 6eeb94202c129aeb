import Netlist.Diagnostic.Stored
import Netlist.FileTree
import Netlist.Program.Snapshot

/-!
# Stored results

A result of elaboration can be stored under a key in a directory: the snapshot of
the program and the diagnostics that came with it.  The file for a key lies in a
directory named for the first two digits of the key.  What cannot be read back, or
has another layout, counts as not stored.
-/

namespace Netlist

/-- A stored result. -/
structure CacheEntry where
  version : Nat := 0
  snapshot : Bytes := []
  diagnostics : MessagePack.Slots Stored.Diagnostic := {}

/-! ## Layout -/

def CacheEntry.toMessagePack (p : Program) (ds : List Diagnostic) (version : UInt16) :
    MessagePack.Value :=
  .map [("Schema", .uint16 version), ("Snapshot", .binary p.snapshot),
    ("Diagnostics", listOrNil Diagnostic.toMessagePack ds)]

def CacheEntry.encode (p : Program) (ds : List Diagnostic) (version : UInt16) : Bytes :=
  (CacheEntry.toMessagePack p ds version).bytes

open MessagePack in
/-- Reads a stored result. -/
def CacheEntry.reader : Reader CacheEntry :=
  Reader.record {}
    [("Schema", Reader.field (Reader.uint 16) fun e n => { e with version := n }),
     ("Snapshot", Reader.field Reader.binary fun e b => { e with snapshot := b }),
     ("Diagnostics", Reader.fieldOver CacheEntry.diagnostics
       (Reader.slotsOver {} Stored.Diagnostic.readOver) fun e ds => { e with diagnostics := ds })]

/-! ## The directory -/

namespace Cache

def version : UInt16 := 2

/-- The ending of the name of a stored result. -/
def ending : String := ".mp"

def pathFor (dir : String) (key : Digest) : String :=
  Path.join (Path.join dir (Bytes.toHex (key.take 1))) (Bytes.toHex (key.drop 1) ++ ending)

/-- The result stored under a key. -/
def load (t : FileTree) (dir : String) (key : Digest) :
    Option (Stored.Program × List Diagnostic) :=
  match t.read (pathFor dir key) with
  | .error _ => none
  | .ok content =>
    match CacheEntry.reader.run content with
    | .error _ => none
    | .ok (entry, _) =>
      if entry.version != version.toNat then none
      else
        match Stored.Program.ofSnapshot entry.snapshot with
        | .error _ => none
        | .ok p => some (p, entry.diagnostics.toList.map (·.toDiagnostic))

/-- Stores a result under a key.  If that is not possible the files stay as they
are. -/
def store (t : FileTree) (dir : String) (key : Digest) (p : Program) (ds : List Diagnostic) :
    FileTree :=
  let path := pathFor dir key
  match t.makeDirectory (Path.dir path) with
  | .error _ => t
  | .ok made =>
    match made.replace path (CacheEntry.encode p ds version) with
    | .ok written => written
    | .error _ => made

/-- Whether a file is a stored result. -/
def isEntry (cs : List String) : Bool := (cs.getLast?.getD "").endsWith ending

/-- Whether a file was left by an interrupted run. -/
def isStray (cs : List String) : Bool := (cs.getLast?.getD "").startsWith "tmp-"

/-- Removes all stored results and gives their number.  Files left by interrupted runs
are removed too. -/
def clear (t : FileTree) (dir : String) : Nat × FileTree :=
  let files := t.regularBelow (Path.components (Path.absolute t.workDir dir))
  let removed := files.filter fun cs => isEntry cs || isStray cs
  ((files.filter isEntry).length, removed.foldl FileTree.erase t)

end Cache

end Netlist
