import Netlist.Text.Decimal

/-!
# Spans

A span is a half-open range of byte offsets in one file.  Offsets have 32 bits
and their arithmetic wraps.  The span of nowhere has the file number with all
bits set.
-/

namespace Netlist

/-- The number of a file in a set of files. -/
abbrev FileId := UInt32

/-- The file number that names no file. -/
def FileId.none : FileId := 4294967295

/-- A half-open range of byte offsets in a file. -/
structure Span where
  file : FileId
  start : UInt32
  /-- The offset past the last one. -/
  stop : UInt32
  deriving DecidableEq, Repr, Hashable

namespace Span

/-- The span of what has no place in a file. -/
def nowhere : Span := ⟨FileId.none, 0, 0⟩

def fileStart (file : FileId) : Span := ⟨file, 0, 0⟩

/-- Whether the span holds no byte. -/
def isEmpty (s : Span) : Bool := s.start == s.stop

/-- The number of bytes, modulo 2³². -/
def length (s : Span) : UInt32 := s.stop - s.start

def isKnown (s : Span) : Bool := s.file != FileId.none

/-- The span in short: file, start and end, or a question mark. -/
def text (s : Span) : String :=
  if s.isKnown then
    Decimal.ofNat s.file.toNat ++ ":" ++ Decimal.ofNat s.start.toNat ++ "-" ++
      Decimal.ofNat s.stop.toNat
  else "?"

/-- The least span of the same file that holds both; a span of another file
changes nothing. -/
def cover (s t : Span) : Span :=
  if s.file != t.file then s else ⟨s.file, min s.start t.start, max s.stop t.stop⟩

/-- An integer cut to 32 bits. -/
def offsetOf (n : Int) : UInt32 := UInt32.ofNat (n % 0x100000000).toNat

/-- The bytes from `lo` to `hi`, counted from the start of the span and kept
inside its end.  A range that is none leaves the span as it is. -/
def slice (s : Span) (lo hi : Int) : Span :=
  if !s.isKnown || lo < 0 || hi < lo then s
  else
    let stop := min (s.start + offsetOf hi) s.stop
    ⟨s.file, min (s.start + offsetOf lo) stop, stop⟩

end Span

end Netlist
