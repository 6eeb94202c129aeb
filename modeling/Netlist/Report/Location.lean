import Netlist.Diagnostic.Basic

/-!
# Locations in reports

A report shows where a problem is as a path, a line and a column.  There are four
ways to write the path.
-/

namespace Netlist

/-- How a report writes paths. -/
inductive PathMode where
  /-- Relative to the project, and only the last part of a long absolute path. -/
  | automatic
  /-- From the root of the file system. -/
  | absolute
  | relative
  /-- Only the last part. -/
  | basename
  deriving DecidableEq, Repr

def PathMode.words : List (String × PathMode) :=
  [("", automatic), ("auto", automatic), ("absolute", absolute), ("abs", absolute),
   ("relative", relative), ("rel", relative), ("basename", basename), ("base", basename)]

/-- The way to write paths that a word stands for. -/
def PathMode.parse? (word : String) : Option PathMode := words.lookup word

namespace Report

/-- What stands for the location of a problem outside all files. -/
def noLocation : String := "<netc>"

/-- An absolute path with more bytes than this is long. -/
def longPath : Nat := 48

/-- The path of a file as a report writes it. -/
def filePath (fs : FileSet) (mode : PathMode) (f : SourceFile) : String :=
  match mode with
  | .absolute => if f.flags.isInMemory then f.path else Path.absolute fs.workDir f.path
  | .relative => fs.relativePath f.path fs.baseDir
  | .basename => Path.base f.path
  | .automatic =>
    if !Path.isAbsolute f.path then f.path
    else if longPath < f.path.utf8ByteSize then Path.base f.path
    else
      let shown := fs.displayPath f.id
      if f.flags.isInMemory || shown.startsWith "../" then f.path else shown

/-- The file of a span and the positions of its ends, if the span is in a file. -/
def place? (fs : FileSet) (s : Span) : Option (SourceFile × Position × Position) :=
  if s.isKnown then (fs.get? s.file).map fun f => (f, f.position s.start, f.position s.stop)
  else none

def location (fs : FileSet) (mode : PathMode) (s : Span) : String :=
  match place? fs s with
  | none => noLocation
  | some (f, start, _) =>
    filePath fs mode f ++ ":" ++ Decimal.ofNat start.line.toNat ++ ":" ++
      Decimal.ofNat start.column.toNat

end Report

end Netlist
