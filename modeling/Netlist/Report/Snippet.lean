import Netlist.Source.FileSet

/-!
# Snippets

A snippet shows the line where a span starts, with lines around it, and marks the
part of that line that the span covers.
-/

namespace Netlist.Report

/-- The part of a line that a span covers. -/
structure Mark where
  /-- The line before that part. -/
  before : Bytes
  marked : Bytes
  deriving DecidableEq, Repr

/-- A line of a snippet. -/
structure Row where
  number : Nat
  text : Bytes
  /-- The mark, for the line where the span starts. -/
  mark : Option Mark
  deriving DecidableEq, Repr

/-- The bytes of a text between two offsets, if these are offsets of the text in order. -/
def slice? (text : Bytes) (lo hi : Int) : Option Bytes :=
  if 0 ≤ lo && lo ≤ hi && hi ≤ text.length then some ((text.take hi.toNat).drop lo.toNat) else none

/-- The mark on a line.  A span over several lines is marked to the end of its
first line.  Columns past the end of the line mark its end; there is no mark for a
column before the first one. -/
def Mark.of? (text : Bytes) (start stop : Position) : Option Mark :=
  let width : Int := text.length
  let last :=
    if stop.line == start.line then min (stop.column.toNat : Int) (width + 1) else width + 1
  (slice? text 0 (min ((start.column.toNat : Int) - 1) width)).bind fun before =>
    (if before.length < last - 1 then slice? text before.length (last - 1) else some []).map
      (⟨before, ·⟩)

def lineCount (f : SourceFile) : Nat := f.lines.length + 1

/-- The numbers of the lines around a line, as far as they exist. -/
def lineNumbers (total line : Nat) (context : Int) : List Nat :=
  let first := max ((line : Int) - context) 1
  let last := min ((line : Int) + context) total
  List.range' first.toNat (last + 1 - first).toNat

def snippet (f : SourceFile) (s : Span) (context : Int) : List Row :=
  let start := f.position s.start
  let stop := f.position s.stop
  (lineNumbers (lineCount f) start.line.toNat context).map fun n =>
    let text := f.line (UInt32.ofNat n)
    ⟨n, text, if n == start.line.toNat then Mark.of? text start stop else none⟩

end Netlist.Report
