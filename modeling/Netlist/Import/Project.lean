import Netlist.FileTree

/-!
# The directory of a project

A project is the directory with the manifest file that is nearest above a design
file.  Without a manifest it is the directory of the design file.
-/

namespace Netlist.Import

def manifestName : String := "netc.toml"

/-- A place that could not be inspected. -/
structure InspectFault where
  path : String
  error : FileError
  deriving DecidableEq, Repr

def InspectFault.message (f : InspectFault) : String :=
  "failed to stat " ++ Text.quoted f.path ++ ": " ++ f.error.message

/-- The directory where a search begins: the start itself, or the directory of a
start that is a file. -/
def searchStart (t : FileTree) (start : String) : String :=
  let path := Path.absolute t.workDir (if start.isEmpty then "." else start)
  match t.stat path with
  | .ok e => if e.isRegular then Path.dir path else path
  | .error _ => path

/-- A directory and those above it, innermost first. -/
def selfAndAncestors (dir : String) : List String :=
  let cs := Path.components dir
  (List.range (cs.length + 1)).reverse.map fun n => Path.ofComponents true (cs.take n)

/-- The first of some directories that has a manifest. -/
def findManifestIn (t : FileTree) : List String → Except InspectFault (Option String)
  | [] => .ok none
  | dir :: rest =>
    let candidate := Path.join dir manifestName
    match t.stat candidate with
    | .ok e => if e.isRegular then .ok (some candidate) else findManifestIn t rest
    | .error e => if e.fault == .notFound then findManifestIn t rest else .error ⟨candidate, e⟩

/-- The manifest nearest above a start. -/
def findManifest (t : FileTree) (start : String) : Except InspectFault (Option String) :=
  findManifestIn t (selfAndAncestors (searchStart t start))

/-- The directory that shown paths are relative to. -/
def projectRoot (t : FileTree) (entry : String) : String :=
  match findManifest t entry with
  | .ok (some path) => Path.dir path
  | _ => searchStart t entry

end Netlist.Import
