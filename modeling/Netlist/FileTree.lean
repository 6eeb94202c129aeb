import Netlist.Path
import Netlist.Text.Quoted

/-!
# A tree of files

The files a run works on, as a value.  An absolute path names a file with its
content, a file that may not be opened, or a directory.  Looking a path up walks
it component by component, so that a path through a file, a missing directory, a
component that is too long and a forbidden character each fail in their own way.
-/

namespace Netlist

/-- What a path names. -/
inductive FileEntry where
  | file (content : Bytes)
  /-- A regular file that may not be opened. -/
  | sealed
  | directory
  deriving Repr

def FileEntry.isRegular : FileEntry → Bool
  | .directory => false
  | _ => true

/-- Why an operation on a path fails. -/
inductive FileFault where
  | notFound
  | notDirectory
  | isDirectory
  | denied
  | nameTooLong
  | invalid
  | exists_
  | notEmpty
  deriving DecidableEq, Repr

/-- The words of the operating system for a fault. -/
def FileFault.text : FileFault → String
  | .notFound => "no such file or directory"
  | .notDirectory => "not a directory"
  | .isDirectory => "is a directory"
  | .denied => "permission denied"
  | .nameTooLong => "file name too long"
  | .invalid => "invalid argument"
  | .exists_ => "file exists"
  | .notEmpty => "directory not empty"

/-- A failed operation: what was tried, on which path, and why it failed. -/
structure FileError where
  action : String
  path : String
  fault : FileFault
  deriving DecidableEq, Repr

def FileError.message (e : FileError) : String := e.action ++ " " ++ e.path ++ ": " ++ e.fault.text

/-- Files and directories by the components of their absolute paths, with a
working directory.  The root always exists. -/
structure FileTree where
  workDir : String
  /-- The entries; the first one with a path counts. -/
  entries : List (List String × FileEntry) := []
  rooted : Path.isAbsolute workDir = true

namespace FileTree

/-- What the components of an absolute path name. -/
def entry? (t : FileTree) (cs : List String) : Option FileEntry :=
  if cs.isEmpty then some .directory else (t.entries.find? fun e => e.1 == cs).map (·.2)

/-- How many bytes a path may have. -/
def maxPath : Nat := 4095

/-- How many bytes a component may have. -/
def maxComponent : Nat := 255

/-- Walks from a place along pieces of a path.  `here` holds the components of
the place, last one first. -/
def walk (t : FileTree) : (here : List String) → List String → Except FileFault (List String)
  | here, [] => .ok here
  | here, c :: rest =>
    match t.entry? here.reverse with
    | none => .error .notFound
    | some .directory =>
      if c == "" || c == "." then walk t here rest
      else if c == ".." then walk t here.tail rest
      else if maxComponent < c.utf8ByteSize then .error .nameTooLong
      else walk t (c :: here) rest
    | some _ => .error .notDirectory

/-- Where a path leads: the components of the place, which need not exist. -/
def locate (t : FileTree) (p : String) : Except FileFault (List String) :=
  if p.toList.contains (Char.ofNat 0) then .error .invalid
  else if p.isEmpty then .error .notFound
  else if maxPath < p.utf8ByteSize then .error .nameTooLong
  else
    let start := if Path.isAbsolute p then [] else (Path.components t.workDir).reverse
    (t.walk start (Path.pieces p)).map List.reverse

/-- What a path names, or why it names nothing. -/
def stat (t : FileTree) (p : String) : Except FileError FileEntry :=
  match t.locate p with
  | .error f => .error ⟨"stat", p, f⟩
  | .ok cs =>
    match t.entry? cs with
    | some e => .ok e
    | none => .error ⟨"stat", p, .notFound⟩

def read (t : FileTree) (p : String) : Except FileError Bytes :=
  match t.locate p with
  | .error f => .error ⟨"open", p, f⟩
  | .ok cs =>
    match t.entry? cs with
    | some (.file content) => .ok content
    | some .sealed => .error ⟨"open", p, .denied⟩
    | some .directory => .error ⟨"read", p, .isDirectory⟩
    | none => .error ⟨"open", p, .notFound⟩

def put (t : FileTree) (cs : List String) (e : FileEntry) : FileTree :=
  { t with entries := (cs, e) :: t.entries.filter fun x => x.1 != cs }

/-- The directories above a place, outermost first, the root left out. -/
def ancestors (cs : List String) : List (List String) :=
  (List.range (cs.length - 1)).map fun n => cs.take (n + 1)

/-- Makes a directory and those above it, where nothing is there yet. -/
def makeDirectories (t : FileTree) (cs : List String) : FileTree :=
  (ancestors cs ++ [cs]).foldl (fun t d => if (t.entry? d).isSome then t else t.put d .directory) t

/-- Makes a directory for a path, with those above it. -/
def makeDirectory (t : FileTree) (p : String) : Except FileError FileTree :=
  let cs := Path.components (Path.absolute t.workDir p)
  match (ancestors cs ++ [cs]).find? fun d => (t.entry? d).any (·.isRegular) with
  | some d => .error ⟨"mkdir", Path.ofComponents true d, .notDirectory⟩
  | none => .ok (t.makeDirectories cs)

/-- Puts an entry at a path below the working directory, with its directories. -/
def addEntry (t : FileTree) (p : String) (e : FileEntry) : FileTree :=
  let cs := Path.components (Path.absolute t.workDir p)
  (t.makeDirectories cs.dropLast).put cs e

/-- Puts a file at a path below the working directory, with its directories. -/
def addFile (t : FileTree) (p : String) (content : Bytes) : FileTree := t.addEntry p (.file content)

/-- Puts an empty directory at a path below the working directory. -/
def addDirectory (t : FileTree) (p : String) : FileTree :=
  t.makeDirectories (Path.components (Path.absolute t.workDir p))

/-- Puts a new file at a path, in place of a file that is there. -/
def replace (t : FileTree) (p : String) (content : Bytes) : Except FileError FileTree :=
  match t.locate p with
  | .error f => .error ⟨"open", p, f⟩
  | .ok cs =>
    match t.entry? cs, t.entry? cs.dropLast with
    | some .directory, _ => .error ⟨"open", p, .isDirectory⟩
    | some _, _ => .ok (t.put cs (.file content))
    | none, some .directory =>
      if p.toList.getLast? == some '/' then .error ⟨"open", p, .isDirectory⟩
      else .ok (t.put cs (.file content))
    | none, some _ => .error ⟨"open", p, .notDirectory⟩
    | none, none => .error ⟨"open", p, .notFound⟩

/-- Makes or empties the file at a path and gives it a content. -/
def write (t : FileTree) (p : String) (content : Bytes) : Except FileError FileTree :=
  match t.stat p with
  | .ok .sealed => .error ⟨"open", p, .denied⟩
  | _ => t.replace p content

/-- Removes what is at a place. -/
def erase (t : FileTree) (cs : List String) : FileTree :=
  { t with entries := t.entries.filter fun x => x.1 != cs }

/-- Whether a place is below a directory. -/
def isBelow (dir cs : List String) : Bool := dir.isPrefixOf cs && dir.length < cs.length

/-- The places of the regular files below a directory. -/
def regularBelow (t : FileTree) (dir : List String) : List (List String) :=
  (t.entries.filter fun (cs, e) => e.isRegular && isBelow dir cs).map (·.1)

/-- The files below a directory that can be read, by path. -/
def filesBelow (t : FileTree) (dir : List String) : List (List String × Bytes) :=
  t.entries.filterMap fun (cs, e) =>
    match e with
    | .file content => if isBelow dir cs then some (cs, content) else none
    | _ => none

/-- The tree with a working directory and nothing else.  A working directory that is not
absolute is one below the root. -/
def empty (workDir : String) : FileTree :=
  let t : FileTree :=
    { workDir := Path.absolute "/" workDir, rooted := Path.isAbsolute_absolute workDir rfl }
  t.makeDirectories (Path.components t.workDir)

end FileTree

end Netlist
