import Netlist.Document.Decode
import Netlist.Proofs.Diagnostic.Sink

/-!
# Spans inside files

A file *holds* a span when the span names it and its ends lie in order inside the content
(`SourceFile.Holds`).  Offsets wrap at 2³², and still every span that is made for a node of a tree,
wherever the tree says that the node is, is held by the file: an offset is cut to the size of the
content, and the size cut to 32 bits is no more than the size.

A *region* is a set of spans that has the span of nowhere and is closed under slicing.  The later
stages make no spans of their own beyond these two ways, so whatever region the spans of the
documents lie in, the spans of all reports lie in it too (`Diagnostic.Proper`).
-/

namespace Netlist

/-! ## Files -/

/-- The span names the file, and its ends lie in order inside the content. -/
structure SourceFile.Holds (f : SourceFile) (s : Span) : Prop where
  file_eq : s.file = f.id
  start_le : s.start ≤ s.stop
  stop_le : s.stop.toNat ≤ f.content.length

namespace SourceFile

variable (f : SourceFile)

theorem holds_fileStart : f.Holds (Span.fileStart f.id) :=
  ⟨rfl, UInt32.le_refl _, Nat.zero_le _⟩

/-- The size of a content as an offset is not past its end. -/
theorem toNat_limit_le : (UInt32.ofNat f.content.length).toNat ≤ f.content.length := by
  rw [UInt32.toNat_ofNat']
  exact Nat.mod_le _ _

/-- Offsets of positions are kept inside the content. -/
theorem toNat_offset_le (pos : Position) : (f.offset pos).toNat ≤ f.content.length := by
  have hlimit := f.toNat_limit_le
  unfold offset Lines.offset
  split
  · exact Nat.zero_le _
  · dsimp only
    split
    · exact hlimit
    · exact le_trans (UInt32.le_iff_toNat_le.mp Std.min_le_right) hlimit

theorem holds_offset (pos : Position) : f.Holds ⟨f.id, f.offset pos, f.offset pos⟩ :=
  ⟨rfl, UInt32.le_refl _, f.toNat_offset_le pos⟩

theorem holds_placeSpan (p : Yaml.Place) : f.Holds (placeSpan f p) := by
  unfold placeSpan
  split
  · exact f.holds_fileStart
  · exact f.holds_offset _

/-- The span of a scalar lies in its file. -/
theorem holds_scalarSpan (s : Yaml.Scalar) : f.Holds (scalarSpan f s) := by
  unfold scalarSpan
  split
  · exact f.holds_fileStart
  · refine ⟨rfl, Std.min_le_right, ?_⟩
    exact le_trans (UInt32.le_iff_toNat_le.mp Std.min_le_right) f.toNat_limit_le

/-- The span of a node lies in its file. -/
theorem holds_nodeSpan (n : Option Yaml.Node) : f.Holds (nodeSpan f n) := by
  unfold nodeSpan
  split
  · exact f.holds_scalarSpan _
  · exact f.holds_placeSpan _
  · exact f.holds_placeSpan _
  · exact f.holds_placeSpan _
  · exact f.holds_fileStart

/-- A syntax error is placed inside the file. -/
theorem holds_syntaxFault (fault : SyntaxFault) : f.Holds (fault.span f) := by
  unfold SyntaxFault.span
  split
  · exact f.holds_fileStart
  · exact f.holds_offset _

variable {f}

/-- A slice ends no later than the span does, so it is held where the span is. -/
theorem Holds.slice {s : Span} (h : f.Holds s) (lo hi : Int) : f.Holds (s.slice lo hi) := by
  unfold Span.slice
  split
  · exact h
  · refine ⟨h.file_eq, Std.min_le_right, ?_⟩
    exact le_trans (UInt32.le_iff_toNat_le.mp Std.min_le_right) h.stop_le

end SourceFile

/-! ## Regions -/

/-- A set of spans that has the span of nowhere and is closed under slicing. -/
structure Region where
  spans : Set Span
  nowhere_mem : Span.nowhere ∈ spans
  slice_mem : ∀ s ∈ spans, ∀ lo hi, s.slice lo hi ∈ spans

instance : Membership Span Region := ⟨fun r s => s ∈ r.spans⟩

namespace Region

/-- All spans. -/
def all : Region := ⟨Set.univ, trivial, fun _ _ _ _ => trivial⟩

theorem mem_all (s : Span) : s ∈ all := trivial

theorem nowhere (r : Region) : Span.nowhere ∈ r := r.nowhere_mem

/-- A part of a span of a region is in the region. -/
theorem slice {r : Region} {s : Span} (h : s ∈ r) (lo hi : Int) : s.slice lo hi ∈ r :=
  r.slice_mem s h lo hi

end Region

theorem Span.slice_nowhere (lo hi : Int) : nowhere.slice lo hi = nowhere := rfl

/-- The spans that files of a set hold, and the span of nowhere. -/
def FileSet.region (fs : FileSet) : Region where
  spans := {s | s = Span.nowhere ∨ ∃ f ∈ fs.files, f.Holds s}
  nowhere_mem := .inl rfl
  slice_mem := by
    rintro s (rfl | ⟨f, hf, hs⟩) lo hi
    · exact .inl (Span.slice_nowhere lo hi)
    · exact .inr ⟨f, hf, hs.slice lo hi⟩

/-! ## Diagnostics -/

/-- What a stage may report on a design: a problem, with all its places in a region, and not one
with the stage itself. -/
structure Diagnostic.Proper (r : Region) (d : Diagnostic) : Prop where
  isProblem : d.IsProblem
  span : d.span ∈ r
  notes : ∀ n ∈ d.notes, n.span ∈ r
  code : d.code ≠ .internalError

namespace Diagnostic

variable {r : Region} {code : Code} {span : Span} {message : String} {notes : List Note}

theorem proper_error (hspan : span ∈ r) (hnotes : ∀ n ∈ notes, n.span ∈ r)
    (hcode : code ≠ .internalError) : (error code span message notes).Proper r :=
  ⟨.inr rfl, hspan, hnotes, hcode⟩

theorem proper_warning (hspan : span ∈ r) (hnotes : ∀ n ∈ notes, n.span ∈ r)
    (hcode : code ≠ .internalError) : (warning code span message notes).Proper r :=
  ⟨.inl rfl, hspan, hnotes, hcode⟩

end Diagnostic

end Netlist
