import Netlist.FileTree
import Netlist.Text.Blank

/-!
# Where an import path leads

An absolute path leads where it says, and a path that starts with a dot is
relative to the directory of the importing file.  Any other path is looked for
below every library root, and more than one file found there is ambiguous.  Roots
that lead to the same place count once.
-/

namespace Netlist.Import

/-- The outcome of looking an import path up. -/
inductive Lookup where
  | found (path : String)
  | missing (path : String)
  | missingBelow (roots : List String)
  | ambiguous (candidates : List String)
  | failed (path : String) (error : FileError)
  deriving DecidableEq, Repr

/-- Whether a path names a regular file.  That nothing is there is no error. -/
def isFile (t : FileTree) (path : String) : Except FileError Bool :=
  match t.stat path with
  | .ok e => .ok e.isRegular
  | .error e => if e.fault == .notFound then .ok false else .error e

/-- Whether a path is relative to the importing file. -/
def isExplicitRelative (p : String) : Bool :=
  p == "." || p == ".." || p.startsWith "./" || p.startsWith "../"

/-- Looks at one place. -/
def probe (t : FileTree) (path : String) : Lookup :=
  match isFile t path with
  | .ok true => .found path
  | .ok false => .missing path
  | .error e => .failed path e

/-- Every place once, in the order of the first of its mentions. -/
def distinct (seen : List String) : List String → List String
  | [] => []
  | p :: rest => if seen.contains p then distinct seen rest else p :: distinct (p :: seen) rest

/-- The places among some that are files, or the first one that cannot be
inspected. -/
def filesAmong (t : FileTree) : List String → Except (String × FileError) (List String)
  | [] => .ok []
  | p :: rest =>
    match isFile t p with
    | .error e => .error (p, e)
    | .ok found => (filesAmong t rest).map fun files => if found then p :: files else files

def placesBelow (t : FileTree) (roots : List String) (p : String) : List String :=
  distinct [] (roots.map fun root => Path.absolute t.workDir (Path.join root p))

/-- Looks up a path that is written in a file of the directory `dir`. -/
def lookup (t : FileTree) (dir : String) (roots : List String) (p : String) : Lookup :=
  if Path.isAbsolute p then probe t (Path.clean p)
  else if isExplicitRelative p then probe t (Path.absolute t.workDir (Path.join dir p))
  else
    match filesAmong t (placesBelow t roots p) with
    | .error (place, e) => .failed place e
    | .ok [] => .missingBelow roots
    | .ok [file] => .found file
    | .ok files => .ambiguous files

/-! ## Library roots -/

/-- The library roots in the value of the search path variable. -/
def searchPathRoots (value : String) : List String :=
  ((value.splitOn ":").map Text.trim).filter fun root => !root.isEmpty

end Netlist.Import
