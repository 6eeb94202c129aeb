import Mathlib
import Netlist.Diagnostic.Bag

/-!
# What a bag tells about what was reported

A bag is behind a filter for repeats, it turns diagnostics away when it is full, and its
warnings may be promoted or left out at the end.  None of this hides an error or makes one
up.  `Sink.Covers s ds` relates a sink to everything that was reported to it: the bag says
that there are errors if and only if one was reported, and it keeps something if anything was
reported at all.  The second fact is what makes promotion right for warnings that were turned
away, for then the bag is full of others.
-/

namespace Netlist

/-- A diagnostic that says what is wrong or looks wrong. -/
def Diagnostic.IsProblem (d : Diagnostic) : Prop := d.severity = .warning ∨ d.severity = .error

namespace Bag

/-! ## Errors of a bag -/

theorem hasErrors_iff {b : Bag} :
    b.hasErrors = true ↔ 0 < b.droppedErrors ∨ ∃ d ∈ b.items, d.isError = true := by
  simp [hasErrors]

theorem hasErrors_add (b : Bag) (d : Diagnostic) :
    (b.add d).hasErrors = (b.hasErrors || d.isError) := by
  unfold add
  split
  · simp [hasErrors, Bool.or_assoc]
  · cases hd : d.isError with
    | false => simp [hasErrors]
    | true => simp [hasErrors]

theorem hasErrors_addAll (ds : List Diagnostic) : ∀ b : Bag,
    (b.addAll ds).hasErrors = (b.hasErrors || ds.any (·.isError)) := by
  induction ds with
  | nil => simp [addAll]
  | cons d ds ih =>
      intro b
      have hstep := ih (b.add d)
      rw [hasErrors_add] at hstep
      simpa [addAll, Bool.or_assoc] using hstep

theorem hasErrors_merge (b other : Bag) :
    (b.merge other).hasErrors = (b.hasErrors || other.hasErrors) := by
  have hall : ∀ limit, ({ b with limit := limit }.addAll other.items).hasErrors =
      (b.hasErrors || other.items.any (·.isError)) := fun limit => hasErrors_addAll other.items _
  rw [Bool.eq_iff_iff, Bool.or_eq_true]
  simp only [merge]
  generalize (if b.limit < b.items.length + other.items.length &&
    b.items.length + other.items.length ≤ maxLimit then b.items.length + other.items.length
    else b.limit) = limit
  have hadded := hall limit
  rw [Bool.eq_iff_iff, Bool.or_eq_true, hasErrors_iff] at hadded
  rw [hasErrors_iff, hasErrors_iff (b := other)]
  simp only [List.any_eq_true] at hadded
  constructor
  · rintro (hdropped | hitem)
    · rcases Nat.add_pos_iff_pos_or_pos.mp hdropped with h | h
      · exact (hadded.mp (.inl h)).imp_right .inr
      · exact .inr (.inl h)
    · exact (hadded.mp (.inr hitem)).imp_right .inr
  · rintro (hb | hother | hitem)
    · exact (hadded.mpr (.inl hb)).imp_left fun h => Nat.add_pos_left h _
    · exact .inl (Nat.add_pos_right _ hother)
    · exact (hadded.mpr (.inr hitem)).imp_left fun h => Nat.add_pos_left h _

theorem hasErrors_sort (b : Bag) : b.sort.hasErrors = b.hasErrors := by
  rw [Bool.eq_iff_iff, hasErrors_iff, hasErrors_iff]
  simp [sort, List.mem_mergeSort]

theorem hasErrors_filter (b : Bag) {keep : Diagnostic → Bool}
    (hkeep : ∀ d, d.isError = true → keep d = true) : (b.filter keep).hasErrors = b.hasErrors := by
  rw [Bool.eq_iff_iff, hasErrors_iff, hasErrors_iff]
  refine or_congr_right ⟨?_, ?_⟩
  · rintro ⟨d, hd, herror⟩
    exact ⟨d, (List.mem_filter.mp hd).1, herror⟩
  · rintro ⟨d, hd, herror⟩
    exact ⟨d, List.mem_filter.mpr ⟨hd, hkeep d herror⟩, herror⟩

theorem isError_promote (d : Diagnostic) :
    (promote d).isError = true ↔ d.isError = true ∨ d.severity = .warning := by
  unfold promote
  split
  · next hwarning =>
    have h : d.severity = .warning := by simpa using hwarning
    simp [h, Diagnostic.isError, Severity.isError]
  · next hother =>
    have h : d.severity ≠ .warning := by simpa using hother
    simp [h]

theorem hasErrors_map_promote {b : Bag} :
    (b.map promote).hasErrors = true ↔
      b.hasErrors = true ∨ ∃ d ∈ b.items, d.severity = .warning := by
  rw [hasErrors_iff, hasErrors_iff]
  simp only [map, List.mem_map, exists_exists_and_eq_and, isError_promote]
  constructor
  · rintro (h | ⟨d, hd, h | h⟩)
    · exact .inl (.inl h)
    · exact .inl (.inr ⟨d, hd, h⟩)
    · exact .inr ⟨d, hd, h⟩
  · rintro ((h | ⟨d, hd, h⟩) | ⟨d, hd, h⟩)
    · exact .inl h
    · exact .inr ⟨d, hd, .inl h⟩
    · exact .inr ⟨d, hd, .inr h⟩

end Bag

/-! ## What a sink covers -/

namespace Sink

/-- A sink to which exactly `ds` was reported. -/
structure Covers (s : Sink) (ds : List Diagnostic) : Prop where
  room : 0 < s.bag.limit
  items_subset : s.bag.items ⊆ ds
  keeps : ds ≠ [] → s.bag.items ≠ []
  hasErrors : s.bag.hasErrors = true ↔ ∃ d ∈ ds, d.isError = true
  seen_subset : s.seen ⊆ ds

theorem covers_new {limit : Int} (h : 0 < limit) : Covers { bag := Bag.new limit } [] where
  room := by
    unfold Bag.new Bag.maxLimit
    simp only
    split
    · omega
    · omega
  items_subset := List.nil_subset _
  keeps h := absurd rfl h
  hasErrors := by simp [Bag.new, Bag.hasErrors]
  seen_subset := List.nil_subset _

/-- One report more.  A repeat has the severity of what it repeats, so nothing is lost with
it. -/
theorem Covers.report {s : Sink} {ds : List Diagnostic} (h : s.Covers ds) (d : Diagnostic) :
    (s.report d).Covers (ds ++ [d]) := by
  unfold Sink.report
  split
  · next hrepeat =>
    obtain ⟨x, hx, hsame⟩ := List.any_eq_true.mp hrepeat
    have hseverity : d.severity = x.severity := by
      simp only [sameReport, Bool.and_eq_true, beq_iff_eq] at hsame
      exact hsame.1.1.2
    have hmem : x ∈ ds := h.seen_subset hx
    refine ⟨h.room, List.subset_append_of_subset_left _ h.items_subset,
      fun _ => h.keeps (List.ne_nil_of_mem hmem), ?_,
      List.subset_append_of_subset_left _ h.seen_subset⟩
    rw [h.hasErrors]
    simp only [List.mem_append, List.mem_singleton]
    constructor
    · rintro ⟨e, he, herror⟩
      exact ⟨e, .inl he, herror⟩
    · rintro ⟨e, he | rfl, herror⟩
      · exact ⟨e, he, herror⟩
      · exact ⟨x, hmem, by rwa [Diagnostic.isError, ← hseverity]⟩
  · refine ⟨?_, ?_, ?_, ?_, ?_⟩
    · unfold Bag.add
      split
      · exact h.room
      · exact h.room
    · unfold Bag.add
      split
      · exact List.append_subset.mpr ⟨List.subset_append_of_subset_left _ h.items_subset,
          List.subset_append_right _ _⟩
      · exact List.subset_append_of_subset_left _ h.items_subset
    · intro _
      unfold Bag.add
      split
      · simp
      · next hfull =>
        -- a full bag has room for one at least, so it is not empty
        have hlength : s.bag.limit ≤ s.bag.items.length := by simpa [Bag.hasRoom] using hfull
        exact List.ne_nil_of_length_pos (Nat.lt_of_lt_of_le h.room hlength)
    · rw [Bag.hasErrors_add, Bool.or_eq_true, h.hasErrors]
      simp only [List.mem_append, List.mem_singleton, or_and_right, exists_or, exists_eq_left]
    · exact List.cons_subset.mpr ⟨by simp, List.subset_append_of_subset_left _ h.seen_subset⟩

theorem Covers.reportAll {s : Sink} {ds : List Diagnostic} (h : s.Covers ds)
    (es : List Diagnostic) : (s.reportAll es).Covers (ds ++ es) := by
  induction es generalizing s ds with
  | nil => simpa [Sink.reportAll] using h
  | cons e es ih =>
      have hrest := ih (h.report e)
      rwa [List.append_assoc] at hrest

end Sink

/-! ## Counting errors -/

/-- A tracker counts the errors of a computation, also those that the sink behind it holds back
or has no room for. -/
theorem Tracker.reportAll_log {α : Type} (x : Logged α) (t : Tracker) :
    t.reportAll x.log = ⟨t.next.reportAll x.log, t.errors + x.errors⟩ := by
  unfold Logged.errors
  induction x.log generalizing t with
  | nil => rfl
  | cons d ds ih =>
      refine (ih (t.report d)).trans (congrArg (Tracker.mk _) ?_)
      cases hd : d.isError with
      | false => simp [Tracker.report, hd]
      | true =>
          simp only [Tracker.report, hd, if_true, List.filter_cons_of_pos, List.length_cons]
          omega

/-- A draft is reported once. -/
theorem Draft.emit_emit (d : Draft) (t : Tracker) :
    (d.emit t).1.emit (d.emit t).2 = d.emit t := by
  cases h : d.sent with
  | false => simp [emit, h]
  | true => simp [emit, h]

end Netlist
