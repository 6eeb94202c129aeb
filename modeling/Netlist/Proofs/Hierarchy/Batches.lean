import Mathlib
import Netlist.Hierarchy.Order

/-!
# Taking nodes in batches

A node can be taken once every edge to it comes from a node that was taken before.
`pending` counts the edges to a node that are still in the way.  The counts that
`batchesFrom` carries along are these numbers, and the nodes it has taken or is
about to take are those with nothing in the way (`Taking`).

`Taking` holds at the start, one batch keeps it (`Taking.releaseBatch`), and so it
holds when the batches run out (`taking_order`).  A node behind a cycle always
has another one in its way, so it is never taken.
-/

namespace Netlist.Hierarchy

/-! ## Edges and cycles -/

namespace Graph

/-- There is an edge from one node to another. -/
def Edge (g : Graph) (a b : Nat) : Prop := b ∈ g.targets a

/-- A node that a path of edges leads back to. -/
def OnCycle (g : Graph) (a : Nat) : Prop := Relation.TransGen g.Edge a a

/-- A node that can be reached from a cycle. -/
def BehindCycle (g : Graph) (b : Nat) : Prop :=
  ∃ a, g.OnCycle a ∧ Relation.ReflTransGen g.Edge a b

/-- The edges lead to nodes, and the numbers of incoming edges are right. -/
structure WellFormed (g : Graph) : Prop where
  /-- An edge leads to a node. -/
  edge_lt : ∀ {a b : Nat}, g.Edge a b → b < g.size
  /-- The incoming edges are counted over all nodes. -/
  incoming_eq : ∀ n < g.size,
    g.incoming[n]? = some (((∑ a ∈ Finset.range g.size, (g.targets a).count n : Nat) : Int))
  /-- There is a number for every node. -/
  incoming_length : g.incoming.length = g.size

variable {g : Graph} {a : Nat}

theorem targets_of_size_le (h : g.size ≤ a) : g.targets a = [] := by
  rw [targets, List.getElem?_eq_none h]
  rfl

theorem Edge.lt {a b : Nat} (h : g.Edge a b) : a < g.size := by
  by_contra hn
  rw [Edge, targets_of_size_le (Nat.le_of_not_lt hn)] at h
  cases h

theorem OnCycle.lt (h : g.OnCycle a) : a < g.size := by
  obtain ⟨b, hab, _⟩ := Relation.TransGen.head'_iff.mp h
  exact hab.lt

theorem OnCycle.behindCycle (h : g.OnCycle a) : g.BehindCycle a :=
  ⟨a, h, .refl⟩

/-- A node on a cycle has an edge to another one. -/
theorem OnCycle.exists_edge (h : g.OnCycle a) :
    ∃ b, g.Edge a b ∧ g.OnCycle b := by
  obtain ⟨b, hab, hba⟩ := Relation.TransGen.head'_iff.mp h
  exact ⟨b, hab, Relation.TransGen.tail' hba hab⟩

/-- A node behind a cycle has an edge from another one. -/
theorem BehindCycle.exists_edge {b : Nat} (h : g.BehindCycle b) :
    ∃ a, g.Edge a b ∧ g.BehindCycle a := by
  obtain ⟨c, hc, hcb⟩ := h
  rcases Relation.ReflTransGen.cases_tail hcb with rfl | ⟨a, hca, hab⟩
  · obtain ⟨a, hba, hab⟩ := Relation.TransGen.tail'_iff.mp hc
    exact ⟨a, hab, b, hc, hba⟩
  · exact ⟨a, hab, c, hc, hca⟩

/-! ## Edges in the way -/

/-- The number of edges to a node from nodes that have not been taken. -/
def pending (g : Graph) (taken : List Nat) (n : Nat) : Nat :=
  ∑ a ∈ Finset.range g.size \ taken.toFinset, (g.targets a).count n

theorem pending_eq_zero_iff {taken : List Nat} {n : Nat} :
    g.pending taken n = 0 ↔ ∀ a, g.Edge a n → a ∈ taken := by
  simp only [pending, Finset.sum_eq_zero_iff, Finset.mem_sdiff, Finset.mem_range,
    List.mem_toFinset, List.count_eq_zero]
  constructor
  · intro h a hab
    by_contra ha
    exact h a ⟨hab.lt, ha⟩ hab
  · intro h a ha hab
    exact ha.2 (h a hab)

/-- Taking a batch takes its edges out of the way. -/
theorem pending_append {taken batch : List Nat} (hd : (taken ++ batch).Nodup)
    (hlt : ∀ a ∈ batch, a < g.size) (n : Nat) :
    g.pending (taken ++ batch) n + (batch.flatMap g.targets).count n = g.pending taken n := by
  have hbatch : (batch.flatMap g.targets).count n
      = ∑ a ∈ batch.toFinset, (g.targets a).count n := by
    rw [List.count_flatMap, List.sum_toFinset _ (List.nodup_append.mp hd).2.1]
    rfl
  have hsub : batch.toFinset ⊆ Finset.range g.size \ taken.toFinset := by
    intro a ha
    have hb := List.mem_toFinset.mp ha
    refine Finset.mem_sdiff.mpr ⟨Finset.mem_range.mpr (hlt a hb), fun ht => ?_⟩
    exact (List.disjoint_of_nodup_append hd) (List.mem_toFinset.mp ht) hb
  have hrest : Finset.range g.size \ (taken ++ batch).toFinset
      = (Finset.range g.size \ taken.toFinset) \ batch.toFinset := by
    ext a
    simp only [Finset.mem_sdiff, List.mem_toFinset, List.mem_append]
    tauto
  rw [pending, hrest, hbatch, pending, Finset.sum_sdiff hsub]

end Graph

/-! ## Releasing edges -/

theorem foldl_release_length : ∀ (ts : List Nat) (state : List Int × List Nat),
    (ts.foldl release state).1.length = state.1.length
  | [], _ => rfl
  | t :: ts, state => by
      rw [List.foldl_cons, foldl_release_length ts]
      simp [release]

theorem release_eq {incoming : List Int} {t : Nat} {v : Int} (hv : incoming[t]? = some v)
    (free : List Nat) : release (incoming, free) t =
      (incoming.set t (v - 1), if v - 1 = 0 then free ++ [t] else free) := by
  simp [release, hv]

/-- Every edge that is taken away counts. -/
theorem getElem?_foldl_release : ∀ (ts : List Nat) (incoming : List Int) (free : List Nat),
    (∀ t ∈ ts, t < incoming.length) → ∀ n,
      (ts.foldl release (incoming, free)).1[n]? = (incoming[n]?).map (· - (ts.count n : Int))
  | [], incoming, free, _, n => by simp
  | t :: ts, incoming, free, hts, n => by
      have ht : t < incoming.length := hts t (List.mem_cons_self ..)
      have hv : incoming[t]? = some incoming[t] := List.getElem?_eq_getElem ht
      rw [List.foldl_cons, release_eq hv, getElem?_foldl_release ts _ _ (fun u hu => by
        rw [List.length_set]
        exact hts u (List.mem_cons_of_mem _ hu))]
      by_cases htn : t = n
      · subst htn
        rw [List.getElem?_set_self ht, hv, List.count_cons_self, Option.map_some, Option.map_some]
        congr 1
        push_cast
        ring
      · rw [List.getElem?_set_ne htn, List.count_cons_of_ne htn]

/-- The count of a node is positive, and some edges use it up. -/
def UsedUp (incoming : List Int) (ts : List Nat) (n : Nat) : Prop :=
  ∃ v, incoming[n]? = some v ∧ 0 < v ∧ v ≤ ts.count n

/-- The first of some edges uses up a count of one; otherwise the rest have to do so. -/
theorem usedUp_cons {incoming : List Int} {t : Nat} {v : Int} (hv : incoming[t]? = some v)
    (ts : List Nat) (n : Nat) : UsedUp incoming (t :: ts) n ↔
      (v - 1 = 0 ∧ n = t) ∨ UsedUp (incoming.set t (v - 1)) ts n := by
  have ht : t < incoming.length := (List.getElem?_eq_some_iff.mp hv).1
  by_cases htn : n = t
  · subst htn
    simp only [UsedUp, hv, List.getElem?_set_self ht, Option.some.injEq, exists_eq_left',
      List.count_cons_self, Nat.cast_add, Nat.cast_one, and_true]
    omega
  · simp only [UsedUp, List.getElem?_set_ne (Ne.symm htn), List.count_cons_of_ne (Ne.symm htn),
      htn, and_false, false_or]

/-- The nodes that become free when edges are taken away one after the other are those whose
counts are used up. -/
theorem foldl_release_free : ∀ (ts : List Nat) (incoming : List Int) (free : List Nat),
    (∀ t ∈ ts, t < incoming.length) →
    ∃ freed : List Nat, (ts.foldl release (incoming, free)).2 = free ++ freed ∧ freed.Nodup ∧
      ∀ n, n ∈ freed ↔ UsedUp incoming ts n
  | [], incoming, free, _ => by
      refine ⟨[], by simp, List.nodup_nil, fun n => iff_of_false List.not_mem_nil ?_⟩
      rintro ⟨v, _, hv, hle⟩
      simp only [List.count_nil, Nat.cast_zero] at hle
      omega
  | t :: ts, incoming, free, hts => by
      have ht : t < incoming.length := hts t (List.mem_cons_self ..)
      obtain ⟨v, hv⟩ : ∃ v, incoming[t]? = some v := ⟨_, List.getElem?_eq_getElem ht⟩
      obtain ⟨freed, hfree, hnd, hmem⟩ :=
        foldl_release_free ts (incoming.set t (v - 1)) (if v - 1 = 0 then free ++ [t] else free)
          (fun u hu => by
            rw [List.length_set]
            exact hts u (List.mem_cons_of_mem _ hu))
      rw [List.foldl_cons, release_eq hv, hfree]
      by_cases hone : v - 1 = 0
      · -- the count of `t` is zero from here on, so `t` does not become free again
        have hnew : t ∉ freed := by
          rw [hmem]
          rintro ⟨w, hw, hpos, _⟩
          rw [List.getElem?_set_self ht] at hw
          have hw' := Option.some.inj hw
          omega
        refine ⟨t :: freed, by simp [hone], List.nodup_cons.mpr ⟨hnew, hnd⟩, fun n => ?_⟩
        rw [usedUp_cons hv, List.mem_cons, hmem, and_iff_right hone]
      · refine ⟨freed, by simp [hone], hnd, fun n => ?_⟩
        rw [usedUp_cons hv, hmem, or_iff_right fun h => hone h.1]

/-! ## Batch after batch -/

/-- Where the taking of nodes stands: the nodes taken, those to be taken next, and the
counts of incoming edges. -/
structure Taking (g : Graph) (taken batch : List Nat) (incoming : List Int) : Prop where
  /-- No node is taken twice. -/
  nodup : (taken ++ batch).Nodup
  /-- There is a count for every node. -/
  length_eq : incoming.length = g.size
  /-- The counts are those of the edges in the way. -/
  incoming_eq : ∀ n < g.size, incoming[n]? = some (g.pending taken n : Int)
  /-- Nodes are taken exactly when nothing is in the way. -/
  mem_iff : ∀ n, n ∈ taken ++ batch ↔ n < g.size ∧ g.pending taken n = 0
  /-- No node behind a cycle is taken. -/
  not_behindCycle : ∀ n ∈ taken ++ batch, ¬ g.BehindCycle n

namespace Taking

variable {g : Graph} {taken batch : List Nat} {incoming : List Int}

theorem lt_size (h : Taking g taken batch incoming) {n : Nat} (hn : n ∈ taken ++ batch) :
    n < g.size :=
  ((h.mem_iff n).mp hn).1

/-- No more nodes are taken than there are. -/
theorem length_le (h : Taking g taken batch incoming) : (taken ++ batch).length ≤ g.size := by
  have hsub : taken ++ batch ⊆ List.range g.size :=
    fun n hn => List.mem_range.mpr (h.lt_size hn)
  have hle := (h.nodup.subperm hsub).length_le
  rwa [List.length_range] at hle

/-- A node with nothing left in its way is not behind a cycle. -/
theorem not_behindCycle_of_pending_eq_zero (h : Taking g taken batch incoming) {n : Nat}
    (hz : g.pending (taken ++ batch) n = 0) : ¬ g.BehindCycle n := by
  intro hn
  obtain ⟨a, han, ha⟩ := hn.exists_edge
  exact h.not_behindCycle a (Graph.pending_eq_zero_iff.mp hz a han) ha

/-- The nodes that a batch sets free are those with nothing left in their way. -/
theorem mem_releaseBatch (hg : g.WellFormed) (h : Taking g taken batch incoming) :
    (releaseBatch g incoming batch).2.Nodup ∧
    (∀ n, n ∈ (releaseBatch g incoming batch).2 ↔
      n < g.size ∧ 0 < g.pending taken n ∧ g.pending (taken ++ batch) n = 0) ∧
    (releaseBatch g incoming batch).1.length = g.size ∧
    ∀ n < g.size, (releaseBatch g incoming batch).1[n]? =
      some (g.pending (taken ++ batch) n : Int) := by
  have hts : ∀ t ∈ batch.flatMap g.targets, t < incoming.length := by
    intro t ht
    obtain ⟨a, _, hat⟩ := List.mem_flatMap.mp ht
    rw [h.length_eq]
    exact hg.edge_lt hat
  have hbatch : ∀ a ∈ batch, a < g.size := fun a ha => h.lt_size (List.mem_append_right _ ha)
  have hpend := Graph.pending_append h.nodup hbatch
  obtain ⟨freed, h2, hnd, hmem⟩ := foldl_release_free (batch.flatMap g.targets) incoming [] hts
  have h1 := getElem?_foldl_release (batch.flatMap g.targets) incoming [] hts
  have hnext : (releaseBatch g incoming batch).2 = freed.mergeSort (· ≤ ·) := by
    simp [releaseBatch, h2]
  have hleft : (releaseBatch g incoming batch).1 =
      ((batch.flatMap g.targets).foldl release (incoming, [])).1 := rfl
  refine ⟨?_, fun n => ?_, ?_, fun n hn => ?_⟩
  · rw [hnext]
    exact (List.mergeSort_perm freed _).nodup_iff.mpr hnd
  · rw [hnext, List.mem_mergeSort, hmem]
    have hn := hpend n
    constructor
    · rintro ⟨v, hv, hpos, hle⟩
      have hlt : n < g.size := by
        rw [← h.length_eq]
        exact (List.getElem?_eq_some_iff.mp hv).1
      rw [h.incoming_eq n hlt] at hv
      have hvv := Option.some.inj hv
      exact ⟨hlt, by omega, by omega⟩
    · rintro ⟨hlt, hpos, hz⟩
      exact ⟨_, h.incoming_eq n hlt, by omega, by omega⟩
  · rw [hleft, foldl_release_length, h.length_eq]
  · rw [hleft, h1, h.incoming_eq n hn, Option.map_some]
    have := hpend n
    congr 1
    omega

/-- One batch: its nodes are taken, and those it sets free come next. -/
theorem releaseBatch (hg : g.WellFormed) (h : Taking g taken batch incoming) :
    Taking g (taken ++ batch) (releaseBatch g incoming batch).2
      (releaseBatch g incoming batch).1 := by
  obtain ⟨hnd, hmem, hlen, hinc⟩ := h.mem_releaseBatch hg
  have hmono : ∀ n, g.pending taken n = 0 → g.pending (taken ++ batch) n = 0 := by
    intro n hz
    rw [Graph.pending_eq_zero_iff] at hz ⊢
    exact fun a ha => List.mem_append_left _ (hz a ha)
  have hiff : ∀ n, n ∈ taken ++ batch ++ (Hierarchy.releaseBatch g incoming batch).2 ↔
      n < g.size ∧ g.pending (taken ++ batch) n = 0 := by
    intro n
    rw [List.mem_append, h.mem_iff, hmem]
    constructor
    · rintro (⟨hlt, hz⟩ | ⟨hlt, _, hz⟩)
      · exact ⟨hlt, hmono n hz⟩
      · exact ⟨hlt, hz⟩
    · rintro ⟨hlt, hz⟩
      rcases Nat.eq_zero_or_pos (g.pending taken n) with h0 | hpos
      · exact Or.inl ⟨hlt, h0⟩
      · exact Or.inr ⟨hlt, hpos, hz⟩
  refine ⟨?_, hlen, hinc, hiff, ?_⟩
  · refine List.nodup_append.mpr ⟨h.nodup, hnd, ?_⟩
    rintro a ha b hb rfl
    have hz := ((h.mem_iff a).mp ha).2
    have hpos := ((hmem a).mp hb).2.1
    omega
  · intro n hn
    exact h.not_behindCycle_of_pending_eq_zero ((hiff n).mp hn).2

/-- The batches run until there is none, when there is fuel for the nodes not taken. -/
theorem batchesFrom (hg : g.WellFormed) : ∀ (fuel : Nat) {taken batch : List Nat}
    {incoming : List Int}, Taking g taken batch incoming → g.size < taken.length + fuel →
    Taking g (taken ++ (batchesFrom g fuel incoming batch).1.flatten) []
      (batchesFrom g fuel incoming batch).2
  | 0, taken, batch, incoming, h, hf => by
      have := h.length_le
      rw [List.length_append] at this
      omega
  | fuel + 1, taken, [], incoming, h, _ => by
      simpa [Hierarchy.batchesFrom] using h
  | fuel + 1, taken, b :: batch, incoming, h, hf => by
      have hstep := batchesFrom hg fuel (h.releaseBatch hg)
        (by rw [List.length_append, List.length_cons]; omega)
      simpa [Hierarchy.batchesFrom, List.append_assoc] using hstep

end Taking

/-- Before the first batch: the nodes without incoming edges come first. -/
theorem taking_sources {g : Graph} (hg : g.WellFormed) : Taking g [] g.sources g.incoming := by
  have hinc : ∀ n < g.size, g.incoming[n]? = some (g.pending [] n : Int) := by
    intro n hn
    rw [hg.incoming_eq n hn, Graph.pending]
    simp
  have hiff : ∀ n, n ∈ g.sources ↔ n < g.size ∧ g.pending [] n = 0 := by
    intro n
    rw [Graph.sources, List.mem_filter, List.mem_range]
    constructor
    · rintro ⟨hn, hz⟩
      rw [hinc n hn] at hz
      simp only [beq_iff_eq, Option.some.injEq, Nat.cast_eq_zero] at hz
      exact ⟨hn, hz⟩
    · rintro ⟨hn, hz⟩
      rw [hinc n hn, hz]
      exact ⟨hn, rfl⟩
  refine ⟨?_, hg.incoming_length, hinc, by simpa using hiff, ?_⟩
  · exact List.nodup_range.filter _
  · intro n hn hb
    obtain ⟨a, han, _⟩ := hb.exists_edge
    have ha := Graph.pending_eq_zero_iff.mp ((hiff n).mp hn).2 a han
    cases ha

/-- After the last batch nothing can be taken any more. -/
theorem taking_order {g : Graph} (hg : g.WellFormed) :
    Taking g (order g).nodes [] (batchesFrom g (g.size + 1) g.incoming g.sources).2 := by
  have h := (taking_sources hg).batchesFrom hg (g.size + 1) (by simp)
  rwa [List.nil_append] at h

end Netlist.Hierarchy
