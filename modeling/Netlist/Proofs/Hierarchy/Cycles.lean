import Netlist.Proofs.Hierarchy.Batches

/-!
# Finding cycles

The nodes that are never taken are those behind a cycle (`mem_nodes_iff`).  `shrink` drops
those of them that have no edge to another one left.  What stays is a set that every node in it
has an edge into (`Closed`), and in a finite graph such a set leads to a cycle.  A node that leads
to a cycle is never dropped.  So what stays are the nodes between cycles, those on a cycle among
them (`mem_cycles_iff`).
-/

namespace Netlist.Hierarchy

/-! ## Shrinking -/

/-- Every node of the list has an edge to one of them. -/
def Closed (nodes : List (Nat × List Nat)) : Prop :=
  ∀ x ∈ nodes, ∃ y ∈ nodes, y.1 ∈ x.2

theorem mem_leadingBack {nodes : List (Nat × List Nat)} {x : Nat × List Nat} :
    x ∈ leadingBack nodes ↔ x ∈ nodes ∧ ∃ y ∈ nodes, y.1 ∈ x.2 := by
  simp only [leadingBack, List.mem_filter, List.any_eq_true, Std.HashSet.contains_ofList,
    List.contains_iff_mem, List.mem_map]
  constructor
  · rintro ⟨hx, t, ht, y, hy, rfl⟩
    exact ⟨hx, y, hy, ht⟩
  · rintro ⟨hx, y, hy, ht⟩
    exact ⟨hx, y.1, ht, y, hy, rfl⟩

theorem leadingBack_sublist (nodes : List (Nat × List Nat)) :
    (leadingBack nodes).Sublist nodes :=
  List.filter_sublist

/-- Each round drops a node, so fuel for all of them leaves a closed list. -/
theorem shrink_closed : ∀ (fuel : Nat) (nodes : List (Nat × List Nat)),
    nodes.length ≤ fuel → Closed (shrink fuel nodes)
  | 0, nodes, h => by
      have hnil : nodes = [] := List.length_eq_zero_iff.mp (Nat.le_zero.mp h)
      subst hnil
      intro x hx
      cases hx
  | fuel + 1, nodes, h => by
      rw [shrink]
      by_cases hlen : (leadingBack nodes).length = nodes.length
      · have heq : leadingBack nodes = nodes := (leadingBack_sublist nodes).eq_of_length hlen
        simp only [hlen, beq_self_eq_true, if_true]
        intro x hx
        rw [← heq] at hx
        exact (mem_leadingBack.mp hx).2
      · simp only [beq_iff_eq, hlen, if_false]
        refine shrink_closed fuel _ ?_
        have := (leadingBack_sublist nodes).length_le
        omega

/-- Nodes of a closed list are never dropped. -/
theorem mem_shrink {kept : List (Nat × List Nat)} (hk : Closed kept) :
    ∀ (fuel : Nat) (nodes : List (Nat × List Nat)), kept ⊆ nodes → kept ⊆ shrink fuel nodes
  | 0, _, h => h
  | fuel + 1, nodes, h => by
      rw [shrink]
      split
      · exact h
      · refine mem_shrink hk fuel _ fun x hx => ?_
        obtain ⟨y, hy, hyx⟩ := hk x hx
        exact mem_leadingBack.mpr ⟨h hx, y, h hy, hyx⟩

theorem shrink_sublist : ∀ (fuel : Nat) (nodes : List (Nat × List Nat)),
    (shrink fuel nodes).Sublist nodes
  | 0, nodes => .refl nodes
  | fuel + 1, nodes => by
      rw [shrink]
      split
      · exact .refl nodes
      · exact (shrink_sublist fuel _).trans (leadingBack_sublist nodes)

/-! ## Closed sets hold cycles -/

/-- Steps that never leave a finite set lead to a cycle. -/
theorem exists_transGen_self {R : Nat → Nat → Prop} {nodes : List Nat}
    (h : ∀ a ∈ nodes, ∃ b ∈ nodes, R a b) {a : Nat} (ha : a ∈ nodes) :
    ∃ c, Relation.ReflTransGen R a c ∧ Relation.TransGen R c c := by
  by_contra hno
  -- without a cycle the paths inside the set are a finite strict order, which has a last node
  let Reached := {b // b ∈ nodes ∧ Relation.ReflTransGen R a b}
  let after : Reached → Reached → Prop := fun b c => Relation.TransGen R c.1 b.1
  have : Finite Reached := (List.finite_toSet nodes).subset fun b hb => hb.1
  have : IsTrans Reached after := ⟨fun _ _ _ hab hbc => hbc.trans hab⟩
  have : Std.Irrefl after := ⟨fun b hb => hno ⟨b.1, b.2.2, hb⟩⟩
  have hwf : WellFounded after := Finite.wellFounded_of_trans_of_irrefl after
  obtain ⟨m, _, hmin⟩ := hwf.has_min Set.univ ⟨⟨a, ha, .refl⟩, trivial⟩
  obtain ⟨b, hb, hmb⟩ := h m.1 m.2.1
  exact hmin ⟨b, hb, m.2.2.tail hmb⟩ trivial (.single hmb)

namespace Graph

variable {g : Graph} {a b : Nat}

theorem BehindCycle.edge (h : g.BehindCycle a) (hab : g.Edge a b) : g.BehindCycle b := by
  obtain ⟨c, hc, hca⟩ := h
  exact ⟨c, hc, hca.tail hab⟩

/-- A node is behind a cycle if it is in a finite set that has a predecessor for each of its
nodes. -/
theorem behindCycle_of_mem {nodes : List Nat} (h : ∀ b ∈ nodes, ∃ a ∈ nodes, g.Edge a b)
    (hb : b ∈ nodes) : g.BehindCycle b := by
  obtain ⟨c, hbc, hc⟩ := exists_transGen_self (R := Function.swap g.Edge) h hb
  exact ⟨c, Relation.transGen_swap.mp hc, Relation.reflTransGen_swap.mp hbc⟩

/-- A node that can be reached from a cycle and from which a cycle can be reached. -/
def BetweenCycles (g : Graph) (b : Nat) : Prop :=
  g.BehindCycle b ∧ ∃ c, Relation.ReflTransGen g.Edge b c ∧ g.OnCycle c

theorem OnCycle.betweenCycles (h : g.OnCycle a) : g.BetweenCycles a :=
  ⟨h.behindCycle, a, .refl, h⟩

/-- A node between cycles has an edge to another one. -/
theorem BetweenCycles.exists_edge (h : g.BetweenCycles a) :
    ∃ b, g.Edge a b ∧ g.BetweenCycles b := by
  obtain ⟨hbehind, c, hac, hc⟩ := h
  rcases Relation.ReflTransGen.cases_head hac with rfl | ⟨b, hab, hbc⟩
  · obtain ⟨b, hab, hb⟩ := hc.exists_edge
    exact ⟨b, hab, hb.betweenCycles⟩
  · exact ⟨b, hab, hbehind.edge hab, c, hbc, hc⟩

theorem BetweenCycles.lt (h : g.BetweenCycles a) : a < g.size := by
  obtain ⟨b, hab, _⟩ := h.exists_edge
  exact hab.lt

end Graph

/-! ## The nodes of an order -/

section

variable {g : Graph} (hg : g.WellFormed)

include hg

theorem nodup_nodes : (order g).nodes.Nodup := by
  simpa using (taking_order hg).nodup

theorem mem_nodes_iff {n : Nat} : n ∈ (order g).nodes ↔ n < g.size ∧ ¬ g.BehindCycle n := by
  have h := taking_order hg
  constructor
  · intro hn
    exact ⟨h.lt_size (List.mem_append_left _ hn), h.not_behindCycle n (List.mem_append_left _ hn)⟩
  · rintro ⟨hlt, hfree⟩
    by_contra hn
    let left := (List.range g.size).filter (· ∉ (order g).nodes)
    have hleft : ∀ b, b ∈ left ↔ b < g.size ∧ b ∉ (order g).nodes := fun b => by simp [left]
    -- a node that is left has a predecessor that is left
    refine hfree (Graph.behindCycle_of_mem (fun b hb => ?_) ((hleft n).mpr ⟨hlt, hn⟩))
    obtain ⟨hb, hbn⟩ := (hleft b).mp hb
    have hway : ¬ ∀ a, g.Edge a b → a ∈ (order g).nodes := fun hall =>
      hbn (by simpa using (h.mem_iff b).mpr ⟨hb, Graph.pending_eq_zero_iff.mpr hall⟩)
    obtain ⟨a, ha⟩ := not_forall.mp hway
    obtain ⟨hab, han⟩ := Classical.not_imp.mp ha
    exact ⟨a, (hleft a).mpr ⟨hab.lt, han⟩, hab⟩

theorem isCyclic_iff : (order g).isCyclic g = true ↔ ∃ a, g.OnCycle a := by
  have hrange : (order g).nodes ⊆ List.range g.size := fun n hn =>
    List.mem_range.mpr ((mem_nodes_iff hg).mp hn).1
  rw [Order.isCyclic, bne_iff_ne]
  constructor
  · intro hne
    by_contra hno
    have hall : List.range g.size ⊆ (order g).nodes := fun n hn =>
      (mem_nodes_iff hg).mpr ⟨List.mem_range.mp hn, fun ⟨a, ha, _⟩ => hno ⟨a, ha⟩⟩
    refine hne (le_antisymm ?_ ?_)
    · simpa using (List.subperm_of_subset (nodup_nodes hg) hrange).length_le
    · simpa using (List.subperm_of_subset List.nodup_range hall).length_le
  · rintro ⟨a, ha⟩ heq
    have hperm := (List.subperm_of_subset (nodup_nodes hg) hrange).perm_of_length_le
      (by rw [List.length_range, heq])
    exact ((mem_nodes_iff hg).mp (hperm.mem_iff.mpr (List.mem_range.mpr ha.lt))).2 ha.behindCycle

end

/-! ## The cycles of an order -/

/-- The nodes that wait in the end, each with the targets of its edges. -/
def waiting (g : Graph) (left : List Int) : List (Nat × List Nat) :=
  left.zipIdx.filterMap fun (n, node) => if 0 < n then some (node, g.targets node) else none

theorem mem_waiting {g : Graph} {left : List Int} {x : Nat × List Nat} :
    x ∈ waiting g left ↔ ∃ v, left[x.1]? = some v ∧ 0 < v ∧ x.2 = g.targets x.1 := by
  simp only [waiting, List.mem_filterMap, Option.ite_none_right_eq_some, Option.some.injEq,
    Prod.exists, List.mk_mem_zipIdx_iff_getElem?]
  constructor
  · rintro ⟨v, node, hv, hpos, rfl⟩
    exact ⟨v, hv, hpos, rfl⟩
  · rintro ⟨v, hv, hpos, hx⟩
    exact ⟨v, x.1, hv, hpos, Prod.ext rfl hx.symm⟩

theorem waiting_length_le (g : Graph) (left : List Int) :
    (waiting g left).length ≤ left.length := by
  have h := List.length_filterMap_le
    (fun (n, node) => if 0 < n then some (node, g.targets node) else none) left.zipIdx
  rwa [List.length_zipIdx] at h

theorem order_cycles (g : Graph) :
    (order g).cycles = if (order g).nodes.length == g.size then []
      else (shrink g.size (waiting g (batchesFrom g (g.size + 1) g.incoming g.sources).2)).map
        (·.1) := rfl

/-- The nodes that wait in the end are those behind a cycle. -/
theorem mem_waiting_order {g : Graph} (hg : g.WellFormed) {x : Nat × List Nat} :
    x ∈ waiting g (batchesFrom g (g.size + 1) g.incoming g.sources).2 ↔
      g.BehindCycle x.1 ∧ x.2 = g.targets x.1 := by
  have htaking := taking_order hg
  have hnodes : ∀ n, n ∈ (order g).nodes ↔ n < g.size ∧ g.pending (order g).nodes n = 0 := by
    simpa using htaking.mem_iff
  rw [mem_waiting]
  constructor
  · rintro ⟨v, hv, hpos, hx⟩
    have hlt : x.1 < g.size := by
      rw [← htaking.length_eq]
      exact (List.getElem?_eq_some_iff.mp hv).1
    have hvalue := Option.some.inj (hv.symm.trans (htaking.incoming_eq x.1 hlt))
    refine ⟨by_contra fun hfree => ?_, hx⟩
    have hz := ((hnodes x.1).mp ((mem_nodes_iff hg).mpr ⟨hlt, hfree⟩)).2
    omega
  · rintro ⟨hbehind, hx⟩
    obtain ⟨a, hab, _⟩ := hbehind.exists_edge
    have hlt := hg.edge_lt hab
    have hpos : g.pending (order g).nodes x.1 ≠ 0 := fun hz =>
      ((mem_nodes_iff hg).mp ((hnodes x.1).mpr ⟨hlt, hz⟩)).2 hbehind
    exact ⟨_, htaking.incoming_eq x.1 hlt, by omega, hx⟩

/-- What is listed as cyclic is what `shrink` leaves of the nodes behind a cycle. -/
theorem mem_cycles_iff_shrink {g : Graph} (hg : g.WellFormed) {a : Nat} :
    a ∈ (order g).cycles ↔ (a, g.targets a) ∈
      shrink g.size (waiting g (batchesFrom g (g.size + 1) g.incoming g.sources).2) := by
  have hshrunk : ∀ x ∈ shrink g.size
        (waiting g (batchesFrom g (g.size + 1) g.incoming g.sources).2),
      g.BehindCycle x.1 ∧ x.2 = g.targets x.1 := fun x hx =>
    (mem_waiting_order hg).mp ((shrink_sublist _ _).subset hx)
  rw [order_cycles]
  split
  · next hall =>
    -- all nodes were taken, so none is behind a cycle
    refine iff_of_false List.not_mem_nil fun hx => ?_
    obtain ⟨c, hc, _⟩ := (hshrunk _ hx).1
    have hcyclic := (isCyclic_iff hg).mpr ⟨c, hc⟩
    rw [Order.isCyclic, bne, hall] at hcyclic
    cases hcyclic
  · rw [List.mem_map]
    constructor
    · rintro ⟨x, hx, rfl⟩
      rwa [← (hshrunk x hx).2]
    · exact fun hx => ⟨_, hx, rfl⟩

/-- The nodes between cycles are listed, and no others. -/
theorem mem_cycles_iff {g : Graph} (hg : g.WellFormed) {a : Nat} :
    a ∈ (order g).cycles ↔ g.BetweenCycles a := by
  constructor
  · intro ha
    have hclosed := shrink_closed g.size
      (waiting g (batchesFrom g (g.size + 1) g.incoming g.sources).2)
      ((waiting_length_le g _).trans (taking_order hg).length_eq.le)
    have hsteps : ∀ b ∈ (order g).cycles, ∃ c ∈ (order g).cycles, g.Edge b c := by
      intro b hb
      obtain ⟨y, hy, hby⟩ := hclosed _ ((mem_cycles_iff_shrink hg).mp hb)
      have htargets := ((mem_waiting_order hg).mp ((shrink_sublist _ _).subset hy)).2
      refine ⟨y.1, (mem_cycles_iff_shrink hg).mpr ?_, hby⟩
      rwa [← htargets]
    obtain ⟨c, hac, hc⟩ := exists_transGen_self hsteps ha
    have hbehind := (mem_waiting_order hg).mp
      ((shrink_sublist _ _).subset ((mem_cycles_iff_shrink hg).mp ha))
    exact ⟨hbehind.1, c, hac, hc⟩
  · intro ha
    classical
    let between := (List.range g.size).filter (fun b => decide (g.BetweenCycles b))
    have hbetween : ∀ b, b ∈ between ↔ g.BetweenCycles b := by
      intro b
      simp only [between, List.mem_filter, List.mem_range, decide_eq_true_eq,
        and_iff_right_iff_imp]
      exact fun hb => hb.lt
    have hclosed : Closed (between.map fun b => (b, g.targets b)) := by
      intro x hx
      obtain ⟨b, hb, rfl⟩ := List.mem_map.mp hx
      obtain ⟨c, hbc, hc⟩ := ((hbetween b).mp hb).exists_edge
      exact ⟨(c, g.targets c), List.mem_map.mpr ⟨c, (hbetween c).mpr hc, rfl⟩, hbc⟩
    have hwaiting : between.map (fun b => (b, g.targets b)) ⊆
        waiting g (batchesFrom g (g.size + 1) g.incoming g.sources).2 := by
      intro x hx
      obtain ⟨b, hb, rfl⟩ := List.mem_map.mp hx
      exact (mem_waiting_order hg).mpr ⟨((hbetween b).mp hb).1, rfl⟩
    exact (mem_cycles_iff_shrink hg).mpr
      (mem_shrink hclosed g.size _ hwaiting (List.mem_map.mpr ⟨a, (hbetween a).mpr ha, rfl⟩))

/-- Nothing is listed as cyclic exactly when there is no cycle. -/
theorem cycles_eq_nil_iff {g : Graph} (hg : g.WellFormed) :
    (order g).cycles = [] ↔ ∀ a, ¬ g.OnCycle a := by
  rw [List.eq_nil_iff_forall_not_mem]
  constructor
  · intro h a ha
    exact h a ((mem_cycles_iff hg).mpr ha.betweenCycles)
  · intro h a ha
    obtain ⟨⟨c, hc, _⟩, _⟩ := (mem_cycles_iff hg).mp ha
    exact h c hc

/-! ## The order of what is listed -/

theorem waiting_increasing (g : Graph) (left : List Int) :
    ((waiting g left).map (·.1)).Pairwise (· < ·) := by
  have hindex : left.zipIdx.Pairwise fun x y => x.2 < y.2 := by
    rw [← List.pairwise_map, List.zipIdx_map_snd]
    exact List.pairwise_lt_range'
  rw [List.pairwise_map, waiting, List.pairwise_filterMap]
  refine hindex.imp fun hlt first hfirst second hsecond => ?_
  obtain ⟨_, hfirst⟩ := Option.ite_none_right_eq_some.mp hfirst
  obtain ⟨_, hsecond⟩ := Option.ite_none_right_eq_some.mp hsecond
  rw [← Option.some.inj hfirst, ← Option.some.inj hsecond]
  exact hlt

/-- What is listed as cyclic is in order. -/
theorem cycles_increasing (g : Graph) : (order g).cycles.Pairwise (· < ·) := by
  rw [order_cycles]
  split
  · exact .nil
  · exact (waiting_increasing g _).sublist ((shrink_sublist _ _).map _)

end Netlist.Hierarchy
