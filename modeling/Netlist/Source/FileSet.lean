import Netlist.Digest
import Netlist.Path
import Netlist.Source.Lines
import Netlist.Source.Span

/-!
# Sets of files

The files that one session has read, numbered in the order they were added.  A
content is normalized before it is added: a byte order mark at the front is
dropped and a carriage return before a line feed goes away.
-/

namespace Netlist

/-- What is known about a file besides its content, as bits. -/
structure FileFlags where
  bits : UInt8
  deriving DecidableEq, Repr

namespace FileFlags

/-- Nothing is known. -/
def none : FileFlags := ⟨0⟩

/-- The file was made from memory. -/
def inMemory : FileFlags := ⟨1⟩

/-- A byte order mark was dropped. -/
def hadMark : FileFlags := ⟨2⟩

/-- Carriage returns were dropped. -/
def hadReturns : FileFlags := ⟨4⟩

/-- The bits of both. -/
def union (a b : FileFlags) : FileFlags := ⟨a.bits ||| b.bits⟩

def isInMemory (f : FileFlags) : Bool := f.bits &&& 1 != 0

end FileFlags

/-- A file of a set. -/
structure SourceFile where
  id : FileId
  path : String
  content : Bytes
  /-- What is known about it. -/
  flags : FileFlags
  /-- The offsets of its line feeds. -/
  lines : List UInt32 := Lines.index content
  lines_eq : lines = Lines.index content := by rfl

namespace SourceFile

/-- The file with a content; its path is cleaned. -/
def of (id : FileId) (path : String) (content : Bytes) (flags : FileFlags) : SourceFile :=
  { id := id, path := Path.clean path, content := content, flags := flags }

def digest (f : SourceFile) : Digest := Sha256.digest f.content

def position (f : SourceFile) (offset : UInt32) : Position := Lines.position f.lines offset

/-- The offset of a position, kept inside the content. -/
def offset (f : SourceFile) (pos : Position) : UInt32 := Lines.offset f.lines f.content.length pos

/-- The content from a line on; nothing past the last one. -/
def fromLine (f : SourceFile) (n : UInt32) : Bytes :=
  match if n == 0 then Option.none else Lines.start? f.lines n with
  | Option.none => []
  | some s => f.content.drop s.toNat

/-- A line without its line feed. -/
def line (f : SourceFile) (n : UInt32) : Bytes := Lines.line f.content f.lines n

end SourceFile

def byteOrderMark : Bytes := [0xEF, 0xBB, 0xBF]

/-- A content with every carriage return before a line feed dropped. -/
def dropReturns : Bytes → Bytes
  | 0x0D :: 0x0A :: rest => 0x0A :: dropReturns rest
  | b :: rest => b :: dropReturns rest
  | [] => []

/-- Whether a carriage return stands before a line feed. -/
def hasReturns : Bytes → Bool
  | 0x0D :: 0x0A :: _ => true
  | _ :: rest => hasReturns rest
  | [] => false

/-- A content without byte order mark and carriage returns, and what was dropped. -/
def normalize (content : Bytes) : Bytes × FileFlags :=
  let (content, mark) :=
    if byteOrderMark.isPrefixOf content then (content.drop 3, FileFlags.hadMark)
    else (content, FileFlags.none)
  if hasReturns content then (dropReturns content, mark.union FileFlags.hadReturns)
  else (content, mark)

/-- The files of a session. -/
structure FileSet where
  workDir : String
  /-- The directory that shown paths are relative to, empty for the working
  directory. -/
  base : String := ""
  files : Array SourceFile := #[]

namespace FileSet

/-- The directory that shown paths are relative to. -/
def baseDir (fs : FileSet) : String := if fs.base.isEmpty then fs.workDir else fs.base

def size (fs : FileSet) : Nat := fs.files.size

/-- Adds a normalized content; the new file gets the next number. -/
def add (fs : FileSet) (path : String) (content : Bytes) (flags : FileFlags) : FileId × FileSet :=
  let id := UInt32.ofNat fs.files.size
  (id, { fs with files := fs.files.push (.of id path content flags) })

def get? (fs : FileSet) (id : FileId) : Option SourceFile := fs.files[id.toNat]?

def resolve (fs : FileSet) (s : Span) : Position × Position :=
  match fs.get? s.file with
  | some f => (f.position s.start, f.position s.stop)
  | none => (Position.none, Position.none)

/-- A path relative to a directory, or the path itself when it has no relative
form. -/
def relativePath (fs : FileSet) (path base : String) : String :=
  Path.relativeTo fs.workDir path base

/-- The path that messages show for a file that was read from a path: an absolute one is
shown relative to the base directory. -/
def shownPath (fs : FileSet) (path : String) : String :=
  if Path.isAbsolute path then fs.relativePath path fs.baseDir else path

def displayPath (fs : FileSet) (id : FileId) : String :=
  match fs.get? id with
  | none => "<unknown>"
  | some f => if f.flags.isInMemory then f.path else fs.shownPath f.path

end FileSet

end Netlist
