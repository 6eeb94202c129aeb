import Netlist.Proofs.Hierarchy.Cycles
import Netlist.Proofs.IdMap

/-!
# Modules that contain themselves

A module instantiates another one when it has an instance of it.  The nodes of the
graph of a program stand for its modules, and its edges for this relation
(`edge_graph_iff`).  So the graph has a cycle exactly when some module contains
itself, directly or through others (`exists_onCycle_graph_iff`).
-/

namespace Netlist

/-- A module of the program has an instance of another one. -/
def Program.Instantiates (p : Program) (a b : Ident) : Prop :=
  ∃ m, p.modules[a]? = some m ∧ b ∈ p.modules ∧
    ∃ (k : Ident) (i : Instance), m.instances[k]? = some i ∧ i.ref.kind = .module_ ∧ i.ref.id = b

namespace Hierarchy

/-! ## The graph of a program -/

theorem sum_count_eq (n : Nat) : ∀ edges : List (List Nat),
    (edges.map (·.count n)).sum = ∑ a ∈ Finset.range edges.length, ((edges[a]?).getD []).count n
  | [] => rfl
  | ts :: edges => by
      rw [List.map_cons, List.sum_cons, sum_count_eq n edges, List.length_cons,
        Finset.sum_range_succ']
      simp [Nat.add_comm]

theorem foldl_count_eq (n : Nat) : ∀ (edges : List (List Nat)) (total : Int),
    edges.foldl (fun (total : Int) ts => total + (ts.count n : Int)) total =
      total + ((edges.map (·.count n)).sum : Nat)
  | [], total => by simp
  | ts :: edges, total => by
      rw [List.foldl_cons, foldl_count_eq n edges, List.map_cons, List.sum_cons, Nat.cast_add]
      omega

/-- Incoming edges are counted right. -/
theorem Graph.ofEdges_wellFormed {edges : List (List Nat)}
    (h : ∀ ts ∈ edges, ∀ t ∈ ts, t < edges.length) : (Graph.ofEdges edges).WellFormed := by
  refine ⟨fun {a b} hab => ?_, fun n hn => ?_, ?_⟩
  · rw [Edge, targets] at hab
    cases hts : edges[a]? with
    | none =>
        rw [show (Graph.ofEdges edges).edges[a]? = none from hts] at hab
        cases hab
    | some ts =>
        rw [show (Graph.ofEdges edges).edges[a]? = some ts from hts] at hab
        exact h ts (List.mem_of_getElem? hts) b hab
  · have hn' : n < edges.length := hn
    simp only [Graph.ofEdges, List.getElem?_map, List.getElem?_range hn', Option.map_some]
    rw [foldl_count_eq, sum_count_eq, Int.zero_add]
    rfl
  · simp [Graph.ofEdges, Graph.size]

/-- The numbers of the modules that a module instantiates. -/
theorem mem_children {index : List Ident} {m : Module} {b : Nat} :
    b ∈ children index m ↔ ∃ (k : Ident) (i : Instance),
      m.instances[k]? = some i ∧ i.ref.kind = .module_ ∧ index.idxOf? i.ref.id = some b := by
  simp only [children, List.mem_mergeSort, List.mem_eraseDups, List.mem_filterMap,
    Option.ite_none_right_eq_some, beq_iff_eq, IdMap.mem_items]
  constructor
  · rintro ⟨i, ⟨k, hk⟩, hi⟩
    exact ⟨k, i, hk, hi⟩
  · rintro ⟨k, i, hk, hi⟩
    exact ⟨i, ⟨k, hk⟩, hi⟩

theorem idxOf?_eq_some_iff {index : List Ident} (h : index.Nodup) {id : Ident} {n : Nat} :
    index.idxOf? id = some n ↔ index[n]? = some id := by
  rw [List.idxOf?_eq_some_iff]
  constructor
  · rintro ⟨hn, heq, _⟩
    rw [List.getElem?_eq_getElem hn, heq]
  · intro hn
    obtain ⟨hlt, heq⟩ := List.getElem?_eq_some_iff.mp hn
    refine ⟨hlt, heq, fun j hj hjd => ?_⟩
    have hji : j = n := h.getElem_inj_iff.mp (hjd.trans heq.symm)
    omega

theorem index_nodup (p : Program) : (index p).Nodup := Std.ExtTreeMap.nodup_keys

theorem size_graph (p : Program) : (graph p).size = (index p).length := by
  simp [graph, Graph.ofEdges, Graph.size, IdMap.length_items, index]

/-- The graph of a program is well formed. -/
theorem graph_wellFormed (p : Program) : (graph p).WellFormed := by
  refine Graph.ofEdges_wellFormed fun ts hts t ht => ?_
  obtain ⟨m, _, rfl⟩ := List.mem_map.mp hts
  obtain ⟨k, i, _, _, hidx⟩ := mem_children.mp ht
  rw [List.length_map, IdMap.length_items]
  exact (List.getElem?_eq_some_iff.mp ((idxOf?_eq_some_iff (index_nodup p)).mp hidx)).1

/-- The edges stand for instantiations. -/
theorem edge_graph_iff {p : Program} {a b : Nat} :
    (graph p).Edge a b ↔
      ∃ x y, (index p)[a]? = some x ∧ (index p)[b]? = some y ∧ p.Instantiates x y := by
  have htargets : ∀ b, (graph p).Edge a b ↔
      ∃ m, p.modules.items[a]? = some m ∧ b ∈ children (index p) m := by
    intro b
    rw [Graph.Edge, Graph.targets, graph, Graph.ofEdges, List.getElem?_map]
    cases p.modules.items[a]? with
    | none => simp
    | some m => simp
  rw [htargets]
  constructor
  · rintro ⟨m, hm, hb⟩
    obtain ⟨x, hx, hxm⟩ := IdMap.getElem?_items.mp hm
    obtain ⟨k, i, hk, hkind, hidx⟩ := mem_children.mp hb
    have hy := (idxOf?_eq_some_iff (index_nodup p)).mp hidx
    have hmem : i.ref.id ∈ p.modules := Std.ExtTreeMap.mem_keys.mp (List.mem_of_getElem? hy)
    exact ⟨x, i.ref.id, hx, hy, m, hxm, hmem, k, i, hk, hkind, rfl⟩
  · rintro ⟨x, y, hx, hy, m, hxm, _, k, i, hk, hkind, rfl⟩
    refine ⟨m, IdMap.getElem?_items.mpr ⟨x, hx, hxm⟩, mem_children.mpr ⟨k, i, hk, hkind, ?_⟩⟩
    exact (idxOf?_eq_some_iff (index_nodup p)).mpr hy

/-! ## Cycles -/

theorem exists_index_of_mem {p : Program} {x : Ident} (h : x ∈ p.modules) :
    ∃ a : Nat, (index p)[a]? = some x :=
  List.mem_iff_getElem?.mp (Std.ExtTreeMap.mem_keys.mpr h)

/-- A path of the graph is a chain of instantiations. -/
theorem transGen_edge {p : Program} {a b : Nat} (h : Relation.TransGen (graph p).Edge a b) :
    ∃ x y, (index p)[a]? = some x ∧ (index p)[b]? = some y ∧
      Relation.TransGen p.Instantiates x y := by
  induction h with
  | single hab =>
      obtain ⟨x, y, hx, hy, hxy⟩ := edge_graph_iff.mp hab
      exact ⟨x, y, hx, hy, .single hxy⟩
  | tail _ hbc ih =>
      obtain ⟨x, y, hx, hy, hxy⟩ := ih
      obtain ⟨y', z, hy', hz, hyz⟩ := edge_graph_iff.mp hbc
      rw [Option.some.inj (hy.symm.trans hy')] at hxy
      exact ⟨x, z, hx, hz, hxy.tail hyz⟩

/-- A chain of instantiations is a path of the graph. -/
theorem transGen_instantiates {p : Program} {x y : Ident}
    (h : Relation.TransGen p.Instantiates x y) {a b : Nat} (ha : (index p)[a]? = some x)
    (hb : (index p)[b]? = some y) : Relation.TransGen (graph p).Edge a b := by
  induction h generalizing b with
  | single hxy => exact .single (edge_graph_iff.mpr ⟨_, _, ha, hb, hxy⟩)
  | tail _ hyz ih =>
      obtain ⟨m, hm, _⟩ := id hyz
      have hmem := Std.ExtTreeMap.mem_iff_isSome_getElem?.mpr (Option.isSome_of_eq_some hm)
      obtain ⟨c, hc⟩ := exists_index_of_mem hmem
      exact (ih hc).tail (edge_graph_iff.mpr ⟨_, _, hc, hb, hyz⟩)

/-- The graph has a cycle exactly when a module contains itself. -/
theorem exists_onCycle_graph_iff (p : Program) :
    (∃ a, (graph p).OnCycle a) ↔ ∃ x, Relation.TransGen p.Instantiates x x := by
  constructor
  · rintro ⟨a, ha⟩
    obtain ⟨x, y, hx, hy, hxy⟩ := transGen_edge ha
    rw [Option.some.inj (hy.symm.trans hx)] at hxy
    exact ⟨x, hxy⟩
  · rintro ⟨x, hx⟩
    obtain ⟨_, ⟨m, hm, _⟩, _⟩ := Relation.TransGen.head'_iff.mp hx
    have hmem := Std.ExtTreeMap.mem_iff_isSome_getElem?.mpr (Option.isSome_of_eq_some hm)
    obtain ⟨a, ha⟩ := exists_index_of_mem hmem
    exact ⟨a, transGen_instantiates hx ha ha⟩

end Hierarchy

end Netlist
