import Netlist.Proofs.Elaborate.Verdict

/-!
# Every place is inside its file

Whatever the files of a design hold and wherever the parser says that the nodes of their trees are,
every place that the diagnostics of a run speak of is nowhere or inside one of the files of the run
(`elaborate_spans_inside`).  The stages keep to the region of the loaded files, and the bag
changes no place of what it keeps.
-/

namespace Netlist

/-! ## Bags -/

/-- The places of a diagnostic are in the region. -/
structure Diagnostic.Within (r : Region) (d : Diagnostic) : Prop where
  span : d.span ∈ r
  notes : ∀ n ∈ d.notes, n.span ∈ r

namespace Bag

theorem items_add_subset (b : Bag) (d : Diagnostic) : (b.add d).items ⊆ b.items ++ [d] := by
  unfold add
  split
  · exact List.Subset.refl _
  · exact List.subset_append_left _ _

theorem items_addAll_subset (ds : List Diagnostic) : ∀ b : Bag,
    (b.addAll ds).items ⊆ b.items ++ ds := by
  induction ds with
  | nil =>
      intro b
      exact List.subset_append_left _ _
  | cons d ds ih =>
      intro b x hx
      have hadded := ih (b.add d) hx
      rw [List.append_cons]
      rcases List.mem_append.mp hadded with hx | hx
      · exact List.mem_append_left _ (b.items_add_subset d hx)
      · exact List.mem_append_right _ hx

theorem items_insist_subset (b : Bag) (d : Diagnostic) : (b.insist d).items ⊆ b.items ++ [d] := by
  unfold insist
  split
  · exact b.items_add_subset d
  · intro x hx
    rcases List.mem_append.mp (items_addAll_subset _ _ hx) with hx | hx
    · exact b.items_add_subset d hx
    · have hnew := (Bag.new 1).items_add_subset d hx
      exact List.mem_append_right _ hnew

end Bag

theorem Diagnostic.Within.promote {r : Region} {d : Diagnostic} (h : d.Within r) :
    (Bag.promote d).Within r := by
  unfold Bag.promote
  split
  · exact ⟨h.span, h.notes⟩
  · exact h

theorem within_settleWarnings {r : Region} {b : Bag} (h : ∀ d ∈ b.items, d.Within r)
    (o : ElaborateOptions) : ∀ d ∈ (settleWarnings o b).items, d.Within r := by
  have hpromoted : ∀ d ∈ (if o.warningsAsErrors then b.map Bag.promote else b).items,
      d.Within r := by
    intro d hd
    split at hd
    · obtain ⟨e, he, rfl⟩ := List.mem_map.mp hd
      exact (h e he).promote
    · exact h d hd
  intro d hd
  unfold settleWarnings at hd
  dsimp only at hd
  split at hd
  · exact hpromoted d (List.mem_filter.mp hd).1
  · exact hpromoted d hd

/-- The bag of a run speaks of the places of what was reported. -/
theorem within_conclude {r : Region} {f : Findings} (h : ∀ d ∈ f.sink.bag.items, d.Within r)
    (o : ElaborateOptions) (report : Option TimingReport) :
    ∀ d ∈ (conclude o f report).bag.items, d.Within r := by
  have hsettled := within_settleWarnings h o
  intro d hd
  unfold conclude at hd
  dsimp only [Bag.sort] at hd
  rw [List.mem_mergeSort] at hd
  cases report with
  | none => exact hsettled d hd
  | some report =>
      rcases List.mem_append.mp (Bag.items_insist_subset _ _ hd) with hd | hd
      · exact hsettled d hd
      · rw [List.mem_singleton.mp hd]
        exact ⟨r.nowhere, List.forall_mem_singleton.mpr r.nowhere⟩

/-! ## Files -/

/-- A span is nowhere, or it names a file of the set and its ends lie in order inside the content of
that file. -/
def FileSet.Inside (fs : FileSet) (s : Span) : Prop :=
  s = Span.nowhere ∨
    ∃ f, fs.get? s.file = some f ∧ s.start ≤ s.stop ∧ s.stop.toNat ≤ f.content.length

/-- A number leads to its file as long as there is a number for each file. -/
theorem FileSet.Numbered.inside {fs : FileSet} (h : fs.Numbered) (hsize : fs.size ≤ 2 ^ 32)
    {s : Span} (hs : s ∈ fs.region) : fs.Inside s := by
  obtain rfl | ⟨f, hf, hholds⟩ := hs
  · exact .inl rfl
  · obtain ⟨k, hk⟩ := Array.mem_iff_getElem?.mp hf
    have hlt : k < 2 ^ 32 := Nat.lt_of_lt_of_le (Array.getElem?_eq_some_iff.mp hk).1 hsize
    refine .inr ⟨f, ?_, hholds.start_le, hholds.stop_le⟩
    rw [get?, hholds.file_eq, h k f hk, UInt32.toNat_ofNat', Nat.mod_eq_of_lt hlt]
    exact hk

theorem files_findingsFor (o : ElaborateOptions) (tree : FileTree)
    (found : Logged Import.Resolution) : (findingsFor o tree found).files = found.value.files := by
  unfold findingsFor
  dsimp only
  split
  · rfl
  · split
    · rfl
    · split
      · rfl
      · rfl

theorem numbered_loadFiles (read : Import.Reading) (o : ElaborateOptions) (tree : FileTree)
    (entry : String) : (loadFiles read o tree entry).value.files.Numbered := by
  refine Import.numbered_resolveWith _ _ _ _ _ _ fun k f hf => ?_
  simp at hf

/-! ## Runs -/

/-- Every run without stored results that is not called off has a result, and all places that its
diagnostics speak of are nowhere or inside the files of the result. -/
theorem elaborate_spans_inside {m : Type → Type} [Monad m] [LawfulMonad m] (now : m Int)
    (o : ElaborateOptions) (tree : FileTree) (tracer : Trace.Tracer) (entry : String)
    (parse : TreeParser) (hcache : o.cache = none) :
    SatisfiesM
      (fun out => out.result.isSome = !o.cancelled ∧
        ∀ e, out.result = some e → e.files.size ≤ 2 ^ 32 → ∀ d ∈ e.bag.items,
          e.files.Inside d.span ∧ ∀ n ∈ d.notes, e.files.Inside n.span)
      (elaborate now o tree tracer entry parse) := by
  cases hcancelled : o.cancelled with
  | true =>
      unfold elaborate
      simp only [hcancelled, if_true]
      refine satisfiesM_bind fun t₀ => satisfiesM_bind fun t₁ => satisfiesM_bind fun t₂ =>
        satisfiesM_bind fun t₃ => SatisfiesM.pure ⟨rfl, fun e he => ?_⟩
      cases he
  | false =>
      obtain ⟨run, hrun, hgives⟩ := satisfiesM_elaborate now hcancelled tree tracer entry parse
      rw [hrun]
      refine satisfiesM_bind fun t₀ => satisfiesM_bind fun t₁ => satisfiesM_bind fun t₂ =>
        (hgives t₀ t₁ t₂).imp fun hout => ?_
      obtain ⟨⟨report, hresult⟩, _⟩ := hout
      refine ⟨by rw [hresult]; rfl, fun e he hsize d hd => ?_⟩
      cases hresult.symm.trans he
      set read := readingAt o tree tracer t₀ t₁ t₂ parse
      obtain ⟨hcovers, _⟩ := findingsFor_covers read hcache tree entry
      have hfound : ∀ d ∈ (findingsFor o tree (loadFiles read o tree entry)).sink.bag.items,
          d.Within (loadFiles read o tree entry).value.files.region := by
        intro d hd
        have hproper := proper_stageReports read o tree entry d (hcovers.items_subset hd)
        exact ⟨hproper.span, hproper.notes⟩
      have hwithin := within_conclude hfound o report.1 d hd
      have hfiles : (conclude o (findingsFor o tree (loadFiles read o tree entry)) report.1).files =
          (loadFiles read o tree entry).value.files := files_findingsFor _ _ _
      rw [hfiles] at hsize ⊢
      have hnumbered := numbered_loadFiles read o tree entry
      exact ⟨hnumbered.inside hsize hwithin.span,
        fun n hn => hnumbered.inside hsize (hwithin.notes n hn)⟩

/-- A parser that finds the key `top` twice in every file, far outside of it. -/
def astray : TreeParser := fun _ =>
  let top (line column : Int) (style : Yaml.Style) : Yaml.Node :=
    .scalar { place := ⟨line, column⟩, style := style, text := "top" }
  let members := [(top 2 4294967295 .doubleQuoted, top 5000000000 1 .plain),
    (top 4294967299 7 .plain, top 1 0 .plain)]
  .ok (some { root := .map ⟨1, 1⟩ members })

theorem elaborate_spans_inside_astray :
    ∃ e d n, (elaborate (m := Id) 0 {} warned Trace.Tracer.none "a" astray).result = some e ∧
      d ∈ e.bag.items ∧ n ∈ d.notes ∧ d.span ≠ n.span ∧
        e.files.Inside d.span ∧ e.files.Inside n.span := by
  obtain ⟨_, hinside⟩ := SatisfiesM_Id_eq.mp
    (elaborate_spans_inside (m := Id) 0 {} warned Trace.Tracer.none "a" astray rfl)
  obtain ⟨run, hrun, hgives⟩ := satisfiesM_elaborate (m := Id) 0 (o := {}) rfl warned
    Trace.Tracer.none "a" astray
  obtain ⟨⟨⟨report, hreport⟩, hresult⟩, _⟩ := SatisfiesM_Id_eq.mp (hgives 0 0 0)
  set found := findingsFor {} warned
    (loadFiles (readingAt {} warned Trace.Tracer.none 0 0 0 astray) {} warned "a") with hfound
  obtain ⟨d, hd, n, hn, hne⟩ : ∃ d ∈ found.sink.bag.items, ∃ n ∈ d.notes, d.span ≠ n.span := by
    decide +kernel
  have hsize : found.files.size ≤ 2 ^ 32 := by
    rw [hfound, files_findingsFor]
    decide +kernel
  have hmem : d ∈ (conclude {} found report).bag.items := by
    have hnone : report = none := by simpa using hreport
    rw [hnone]
    exact List.mem_mergeSort.mpr hd
  have hrun : (elaborate (m := Id) 0 {} warned Trace.Tracer.none "a" astray).result =
      some (conclude {} found report) := by
    rw [hrun]
    exact hresult
  obtain ⟨hspan, hnotes⟩ := hinside _ hrun hsize d hmem
  exact ⟨_, d, n, hrun, hmem, hn, hne, hspan, hnotes n hn⟩

end Netlist
