import Netlist.Proofs.Hierarchy.Instantiation

/-!
# The levels of a hierarchy

The batches of an order are its levels: a node is in the batch whose number is the length of
the longest path that ends at it.  `Level` says so of one batch.  It holds of the sources, and one
batch after another keeps it, because the nodes that a batch sets free have all their
predecessors in it or before it, and one of them in it (`Taking.level_releaseBatch`).

A node that is never taken has a predecessor that is not taken either, and so on, so
it is behind a cycle.  These two facts give the order of the nodes (`order_topological`) and
with it the order in which modules are written (`order_graph_levels`).
-/

namespace Netlist.Hierarchy

open Relation (ReflTransGen TransGen)

/-! ## Paths -/

namespace Graph

/-- A path of so many edges ends at a node. -/
inductive PathTo (g : Graph) : Nat → Nat → Prop
  | node {b : Nat} (h : b < g.size) : PathTo g 0 b
  | edge {n a b : Nat} (h : PathTo g n a) (hab : g.Edge a b) : PathTo g (n + 1) b

variable {g : Graph} {a b n : Nat}

theorem PathTo.lt_size (hg : g.WellFormed) (h : g.PathTo n b) : b < g.size := by
  cases h with
  | node h => exact h
  | edge _ hab => exact hg.edge_lt hab

/-- Behind a cycle there are paths of any length. -/
theorem BehindCycle.pathTo (hg : g.WellFormed) (h : g.BehindCycle b) (n : Nat) :
    g.PathTo n b := by
  induction n generalizing b with
  | zero =>
      obtain ⟨a, hab, _⟩ := h.exists_edge
      exact .node (hg.edge_lt hab)
  | succ n ih =>
      obtain ⟨a, hab, ha⟩ := h.exists_edge
      exact (ih ha).edge hab

end Graph

/-! ## One batch -/

/-- A batch with a number: its nodes are in order, and the longest paths to them have that
length. -/
structure Level (g : Graph) (d : Nat) (batch : List Nat) : Prop where
  increasing : batch.Pairwise (· < ·)
  longest : ∀ n ∈ batch, IsGreatest {k | g.PathTo k n} d

theorem level_sources {g : Graph} (hg : g.WellFormed) : Level g 0 g.sources := by
  constructor
  · exact List.pairwise_lt_range.filter _
  · intro n hn
    obtain ⟨hlt, hz⟩ := ((taking_sources hg).mem_iff n).mp hn
    refine ⟨.node hlt, fun k hk => ?_⟩
    cases hk with
    | node => exact le_refl 0
    | edge _ hab => cases Graph.pending_eq_zero_iff.mp hz _ hab

theorem increasing_mergeSort {l : List Nat} (h : l.Nodup) :
    (l.mergeSort (· ≤ ·)).Pairwise (· < ·) := by
  have hle : (l.mergeSort (· ≤ ·)).Pairwise fun a b => decide (a ≤ b) = true := by
    refine List.pairwise_mergeSort (fun a b c hab hbc => ?_) (fun a b => ?_) l
    · simp only [decide_eq_true_eq] at hab hbc ⊢
      omega
    · simp only [Bool.or_eq_true, decide_eq_true_eq]
      omega
  have hne : (l.mergeSort (· ≤ ·)).Nodup := (List.mergeSort_perm l _).nodup_iff.mpr h
  refine (hle.and hne).imp ?_
  rintro a b ⟨hab, hne⟩
  exact lt_of_le_of_ne (of_decide_eq_true hab) hne

namespace Taking

variable {g : Graph} {taken batch : List Nat} {incoming : List Int} {d : Nat}

/-- The nodes that a batch sets free are one level further. -/
theorem level_releaseBatch (hg : g.WellFormed) (h : Taking g taken batch incoming)
    (htaken : ∀ n ∈ taken, ∀ k, g.PathTo k n → k < d) (hbatch : Level g d batch) :
    Level g (d + 1) (Hierarchy.releaseBatch g incoming batch).2 := by
  obtain ⟨hnd, hmem, _⟩ := h.mem_releaseBatch hg
  constructor
  · have hsorted : (Hierarchy.releaseBatch g incoming batch).2 =
        ((batch.flatMap g.targets).foldl release (incoming, [])).2.mergeSort (· ≤ ·) := rfl
    rw [hsorted] at hnd ⊢
    exact increasing_mergeSort ((List.mergeSort_perm _ _).nodup_iff.mp hnd)
  · intro n hn
    obtain ⟨_, hpos, hz⟩ := (hmem n).mp hn
    have hbefore := Graph.pending_eq_zero_iff.mp hz
    constructor
    · -- what stood in the way before is in the batch
      obtain ⟨a, han, ha⟩ : ∃ a, g.Edge a n ∧ a ∉ taken := by
        by_contra hno
        refine hpos.ne' (Graph.pending_eq_zero_iff.mpr fun a han => ?_)
        by_contra ha
        exact hno ⟨a, han, ha⟩
      have hin := (List.mem_append.mp (hbefore a han)).resolve_left ha
      exact (hbatch.longest a hin).1.edge han
    · intro k hk
      cases hk with
      | node => exact Nat.zero_le _
      | @edge k a _ ha han =>
          rcases List.mem_append.mp (hbefore a han) with hin | hin
          · exact Nat.succ_le_succ (htaken a hin k ha).le
          · exact Nat.succ_le_succ ((hbatch.longest a hin).2 ha)

/-- All batches from one on are levels. -/
theorem level_batchesFrom (hg : g.WellFormed) (fuel : Nat) :
    ∀ {taken batch : List Nat} {incoming : List Int} {d : Nat}, Taking g taken batch incoming →
      (∀ n ∈ taken, ∀ k, g.PathTo k n → k < d) → Level g d batch →
      ∀ {j : Nat} {b : List Nat}, (Hierarchy.batchesFrom g fuel incoming batch).1[j]? = some b →
        Level g (d + j) b := by
  induction fuel with
  | zero =>
      intro taken batch incoming d _ _ _ j b hj
      simp [Hierarchy.batchesFrom] at hj
  | succ fuel ih =>
      intro taken batch incoming d h htaken hbatch j b hj
      cases batch with
      | nil => simp [Hierarchy.batchesFrom] at hj
      | cons n batch =>
          cases j with
          | zero =>
              obtain rfl : n :: batch = b := Option.some.inj hj
              exact hbatch
          | succ j =>
              have hnext : ∀ m ∈ taken ++ n :: batch, ∀ k, g.PathTo k m → k < d + 1 := by
                intro m hm k hk
                rcases List.mem_append.mp hm with hm | hm
                · exact Nat.lt_succ_of_lt (htaken m hm k hk)
                · exact Nat.lt_succ_of_le ((hbatch.longest m hm).2 hk)
              have hlater := ih (h.releaseBatch hg) hnext
                (h.level_releaseBatch hg htaken hbatch) hj
              rwa [Nat.add_right_comm, Nat.add_assoc] at hlater

end Taking

/-! ## The order of the nodes -/

/-- An order by levels. -/
structure Order.Topological (g : Graph) (o : Order) : Prop where
  /-- It is called cyclic if and only if there is a cycle. -/
  cyclic_iff : o.isCyclic g = true ↔ ∃ a, g.OnCycle a
  /-- No node is listed twice. -/
  nodup : o.nodes.Nodup
  /-- The nodes behind a cycle, those on it included, are left out and no others. -/
  mem_iff : ∀ n, n ∈ o.nodes ↔ n < g.size ∧ ¬ g.BehindCycle n
  /-- A node comes after its predecessors. -/
  before : ∀ a b, g.Edge a b → b ∈ o.nodes → [a, b].Sublist o.nodes
  /-- The batches one after the other are the nodes. -/
  flatten_batches : o.batches.flatten = o.nodes
  /-- A node is in the batch numbered by the longest path to it. -/
  mem_batch_iff : ∀ d n, (∃ batch, o.batches[d]? = some batch ∧ n ∈ batch) ↔
    IsGreatest {k | g.PathTo k n} d
  /-- Every batch is in order. -/
  increasing : ∀ batch ∈ o.batches, batch.Pairwise (· < ·)

section

variable {g : Graph} (hg : g.WellFormed)

include hg

theorem level_of_getElem? {d : Nat} {batch : List Nat} (h : (order g).batches[d]? = some batch) :
    Level g d batch := by
  have hlevel := Taking.level_batchesFrom hg (g.size + 1) (taking_sources hg)
    (fun n hn => absurd hn List.not_mem_nil) (level_sources hg) h
  rwa [Nat.zero_add] at hlevel

theorem mem_batch_iff {d n : Nat} : (∃ batch, (order g).batches[d]? = some batch ∧ n ∈ batch) ↔
    IsGreatest {k | g.PathTo k n} d := by
  constructor
  · rintro ⟨batch, hbatch, hn⟩
    exact (level_of_getElem? hg hbatch).longest n hn
  · intro hd
    have hfree : ¬ g.BehindCycle n := fun hn =>
      Nat.not_succ_le_self d (hd.2 (hn.pathTo hg (d + 1)))
    obtain ⟨batch, hbatch, hn⟩ :=
      List.mem_flatten.mp ((mem_nodes_iff hg).mpr ⟨Graph.PathTo.lt_size hg hd.1, hfree⟩)
    obtain ⟨d', hd'⟩ := List.mem_iff_getElem?.mp hbatch
    rw [hd.unique ((level_of_getElem? hg hd').longest n hn)]
    exact ⟨batch, hd', hn⟩

end

/-- Members of two lists stand one before the other when the lists do. -/
theorem pair_sublist_flatten {α : Type} {ls : List (List α)} {i j : Nat} {x y : List α} {a b : α}
    (hi : ls[i]? = some x) (hj : ls[j]? = some y) (hij : i < j) (ha : a ∈ x) (hb : b ∈ y) :
    [a, b].Sublist ls.flatten := by
  have hx : a ∈ (ls.take j).flatten := by
    refine List.mem_flatten.mpr ⟨x, List.mem_of_getElem? (i := i) ?_, ha⟩
    rw [List.getElem?_take, if_pos hij, hi]
  have hy : b ∈ (ls.drop j).flatten := by
    refine List.mem_flatten.mpr ⟨y, List.mem_of_getElem? (i := 0) ?_, hb⟩
    rw [List.getElem?_drop, Nat.add_zero, hj]
  have happend := (List.singleton_sublist.mpr hx).append (List.singleton_sublist.mpr hy)
  rwa [← List.flatten_append, List.take_append_drop] at happend

theorem pair_sublist_nodes {g : Graph} (hg : g.WellFormed) {a b : Nat} (hab : g.Edge a b)
    (hb : b ∈ (order g).nodes) : [a, b].Sublist (order g).nodes := by
  have ha : a ∈ (order g).nodes := (mem_nodes_iff hg).mpr
    ⟨hab.lt, fun h => ((mem_nodes_iff hg).mp hb).2 (h.edge hab)⟩
  obtain ⟨x, hx, hax⟩ := List.mem_flatten.mp ha
  obtain ⟨y, hy, hby⟩ := List.mem_flatten.mp hb
  obtain ⟨i, hi⟩ := List.mem_iff_getElem?.mp hx
  obtain ⟨j, hj⟩ := List.mem_iff_getElem?.mp hy
  have hpath := ((level_of_getElem? hg hi).longest a hax).1.edge hab
  exact pair_sublist_flatten hi hj (((level_of_getElem? hg hj).longest b hby).2 hpath) hax hby

/-- The order of a graph is by levels. -/
theorem order_topological {g : Graph} (hg : g.WellFormed) : (order g).Topological g where
  cyclic_iff := isCyclic_iff hg
  nodup := nodup_nodes hg
  mem_iff _ := mem_nodes_iff hg
  before _ _ := pair_sublist_nodes hg
  flatten_batches := rfl
  mem_batch_iff _ _ := mem_batch_iff hg
  increasing batch hbatch := by
    obtain ⟨d, hd⟩ := List.mem_iff_getElem?.mp hbatch
    exact (level_of_getElem? hg hd).increasing

/-! ## The order of the modules -/

/-- All modules are written, each once. -/
theorem emitOrder_perm (p : Program) :
    (emitOrder (index p) (order (graph p))).Perm (index p) := by
  have hg := graph_wellFormed p
  have hlt : ∀ n ∈ (order (graph p)).nodes, n < (index p).length := fun n hn =>
    size_graph p ▸ ((mem_nodes_iff hg).mp hn).1
  rw [List.perm_ext_iff_of_nodup ?_ (index_nodup p)]
  · intro x
    rw [emitOrder, List.mem_filterMap, List.mem_iff_getElem?]
    constructor
    · rintro ⟨n, _, hx⟩
      exact ⟨n, hx⟩
    · rintro ⟨n, hx⟩
      have hn := (List.getElem?_eq_some_iff.mp hx).1
      refine ⟨n, ?_, hx⟩
      by_cases htaken : n ∈ (order (graph p)).nodes
      · simp [htaken]
      · simp [htaken, hn]
  · rw [emitOrder]
    refine List.Nodup.filterMap (fun a b x ha hb => ?_) ?_
    · obtain ⟨hla, rfl⟩ := List.getElem?_eq_some_iff.mp ha
      obtain ⟨hlb, heq⟩ := List.getElem?_eq_some_iff.mp hb
      exact ((index_nodup p).getElem_inj_iff.mp heq).symm
    · refine List.nodup_append.mpr ⟨List.nodup_reverse.mpr (nodup_nodes hg),
        List.nodup_range.filter _, ?_⟩
      rintro a ha b hb rfl
      simp only [List.mem_filter, Bool.not_eq_true', List.contains_eq_mem,
        decide_eq_false_iff_not] at hb
      exact hb.2 (List.mem_reverse.mp ha)

/-- Without a cycle a module is written after those that it instantiates. -/
theorem pair_sublist_emitOrder {p : Program} (h : ∀ a, ¬ (graph p).OnCycle a) {x y : Ident}
    (hxy : p.Instantiates x y) :
    [y, x].Sublist (emitOrder (index p) (order (graph p))) := by
  have hg := graph_wellFormed p
  obtain ⟨m, hm, hy, _⟩ := id hxy
  obtain ⟨a, ha⟩ := exists_index_of_mem
    (Std.ExtTreeMap.mem_iff_isSome_getElem?.mpr (Option.isSome_of_eq_some hm))
  obtain ⟨b, hb⟩ := exists_index_of_mem hy
  have hab : (graph p).Edge a b := edge_graph_iff.mpr ⟨x, y, ha, hb, hxy⟩
  have hmem : b ∈ (order (graph p)).nodes := by
    refine (mem_nodes_iff hg).mpr ⟨hg.edge_lt hab, ?_⟩
    rintro ⟨c, hc, _⟩
    exact h c hc
  have hsub := List.reverse_sublist.mpr (pair_sublist_nodes hg hab hmem)
  have hnamed : [b, a].filterMap ((index p)[·]?) = [y, x] := by simp [ha, hb]
  rw [← hnamed]
  exact (hsub.trans (List.sublist_append_left _ _)).filterMap _

/-- The nodes of the graph of a program are ordered by levels; all its modules are written, each
once, and without a cycle each after the modules that it instantiates. -/
theorem order_graph_levels (p : Program) :
    (order (graph p)).Topological (graph p) ∧
      (emitOrder (index p) (order (graph p))).Perm p.modules.keys ∧
      ((∀ a, ¬ (graph p).OnCycle a) → ∀ x y, p.Instantiates x y →
        [y, x].Sublist (emitOrder (index p) (order (graph p)))) :=
  ⟨order_topological (graph_wellFormed p), emitOrder_perm p,
    fun h _ _ hxy => pair_sublist_emitOrder h hxy⟩

end Netlist.Hierarchy
