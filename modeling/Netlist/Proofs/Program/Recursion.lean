import Netlist.Proofs.Program.Findings
import Netlist.Proofs.Related

/-!
# Which modules are reported as recursive

A module that contains itself is recursive.  The verifier reports every recursive module, and it
reports a module that lies between recursive ones as well: one that is inside a recursive module and
has a recursive module inside (`verify_reports_recursion`).  Where every such module is itself
recursive, the reports name the recursive modules and no others; `loopToLoop` is a program where one
is not.
-/

namespace Netlist

open Relation (ReflTransGen TransGen)

namespace Program

variable {p : Program}

/-- A module that contains itself, directly or through others. -/
def Recursive (p : Program) (x : Ident) : Prop := TransGen p.Instantiates x x

/-- A module that is a recursive one or inside of one, and is or has inside a recursive one. -/
def BetweenRecursive (p : Program) (x : Ident) : Prop :=
  ∃ y z, p.Recursive y ∧ ReflTransGen p.Instantiates y x ∧ ReflTransGen p.Instantiates x z ∧
    p.Recursive z

theorem Recursive.betweenRecursive {x : Ident} (h : p.Recursive x) : p.BetweenRecursive x :=
  ⟨x, x, h, .refl, .refl, h⟩

theorem Recursive.mem {x : Ident} (h : p.Recursive x) : x ∈ p.modules := by
  obtain ⟨_, ⟨m, hm, _⟩, _⟩ := TransGen.head'_iff.mp h
  exact Std.ExtTreeMap.mem_iff_isSome_getElem?.mpr (Option.isSome_of_eq_some hm)

instance (p : Program) (a b : Ident) : Decidable (p.Instantiates a b) :=
  decidable_of_iff
    (∃ m ∈ p.modules[a]?, b ∈ p.modules ∧
      ∃ i ∈ m.instances.items, i.ref.kind = .module_ ∧ i.ref.id = b)
    (by
      simp only [Instantiates, IdMap.mem_items, Option.mem_def]
      refine exists_congr fun m => and_congr_right fun _ => and_congr_right fun _ => ?_
      constructor
      · rintro ⟨i, ⟨k, hk⟩, hi⟩
        exact ⟨k, i, hk, hi⟩
      · rintro ⟨k, i, hk, hi⟩
        exact ⟨i, ⟨k, hk⟩, hi⟩)

end Program

namespace Hierarchy

variable {p : Program}

/-! ## Paths of modules and of nodes -/

theorem reflTransGen_edge {a b : Nat} {x : Ident} (ha : (index p)[a]? = some x)
    (h : ReflTransGen (graph p).Edge a b) :
    ∃ y, (index p)[b]? = some y ∧ ReflTransGen p.Instantiates x y := by
  induction h with
  | refl => exact ⟨x, ha, .refl⟩
  | tail _ hbc ih =>
      obtain ⟨y, hy, hxy⟩ := ih
      obtain ⟨y', z, hy', hz, hyz⟩ := edge_graph_iff.mp hbc
      rw [← Option.some.inj (hy.symm.trans hy')] at hyz
      exact ⟨z, hz, hxy.tail hyz⟩

theorem reflTransGen_instantiates {a : Nat} {x y : Ident} (ha : (index p)[a]? = some x)
    (h : ReflTransGen p.Instantiates x y) :
    ∃ b : Nat, (index p)[b]? = some y ∧ ReflTransGen (graph p).Edge a b := by
  induction h with
  | refl => exact ⟨a, ha, .refl⟩
  | tail _ hyz ih =>
      obtain ⟨b, hb, hab⟩ := ih
      obtain ⟨_, _, hmem, _⟩ := id hyz
      obtain ⟨c, hc⟩ := exists_index_of_mem hmem
      exact ⟨c, hc, hab.tail (edge_graph_iff.mpr ⟨_, _, hb, hc, hyz⟩)⟩

/-- The nodes on a cycle stand for the recursive modules. -/
theorem onCycle_graph_iff {a : Nat} {x : Ident} (ha : (index p)[a]? = some x) :
    (graph p).OnCycle a ↔ p.Recursive x := by
  constructor
  · intro h
    obtain ⟨y, z, hy, hz, hyz⟩ := transGen_edge h
    rw [Option.some.inj (hy.symm.trans ha), Option.some.inj (hz.symm.trans ha)] at hyz
    exact hyz
  · exact fun h => transGen_instantiates h ha ha

/-- The nodes between cycles stand for the modules between recursive ones. -/
theorem betweenCycles_graph_iff {n : Nat} : (graph p).BetweenCycles n ↔
    ∃ x, (index p)[n]? = some x ∧ p.BetweenRecursive x := by
  constructor
  · rintro ⟨⟨a, ha, han⟩, c, hnc, hc⟩
    obtain ⟨y, _, hy, _⟩ := transGen_edge ha
    obtain ⟨x, hx, hyx⟩ := reflTransGen_edge hy han
    obtain ⟨z, hz, hxz⟩ := reflTransGen_edge hx hnc
    exact ⟨x, hx, y, z, (onCycle_graph_iff hy).mp ha, hyx, hxz, (onCycle_graph_iff hz).mp hc⟩
  · rintro ⟨x, hx, y, z, hrec, hyx, hxz, hrec'⟩
    obtain ⟨a, ha⟩ := exists_index_of_mem hrec.mem
    obtain ⟨n', hn', han⟩ := reflTransGen_instantiates ha hyx
    obtain ⟨c, hc, hnc⟩ := reflTransGen_instantiates hx hxz
    obtain rfl : n' = n := by
      have hlt := (List.getElem?_eq_some_iff.mp hn').1
      exact (List.getElem?_inj hlt (index_nodup p)).mp (hn'.trans hx.symm)
    exact ⟨⟨a, (onCycle_graph_iff ha).mpr hrec, han⟩, c, hnc, (onCycle_graph_iff hc).mpr hrec'⟩

end Hierarchy

/-! ## Reports -/

theorem Module.Finds.code_ne_recursive {p : Program} {m : Module} {f : Finding} (h : m.Finds p f) :
    f.1.code ≠ .recursiveInstance := by
  cases h <;> simp only [Violation.code] <;> decide

namespace Program

/-- Nothing else is reported with the code of recursion. -/
theorem filter_verify_log (p : Program) :
    p.verify.log.filter (·.code = .recursiveInstance) =
      p.cycleViolations.map fun f => f.1.at_ f.2 := by
  have hcode : ∀ f : Finding, (f.1.at_ f.2).code = f.1.code := fun _ => rfl
  have htop : (if p.modules.contains p.top then [] else [(Violation.missingTop p.top, Span.nowhere)]
      ).filter (fun f => f.1.code = .recursiveInstance) = [] := by
    split
    · rfl
    · simp only [List.filter_cons, Violation.code]
      rfl
  have hmodules : (p.modules.items.flatMap (Module.violations p)).filter
      (fun f => f.1.code = .recursiveInstance) = [] := by
    rw [List.filter_eq_nil_iff]
    intro f hf
    obtain ⟨m, _, hf⟩ := List.mem_flatMap.mp hf
    simpa using (Module.finds_of_mem_violations hf).code_ne_recursive
  have hcycles : p.cycleViolations.filter (fun f => f.1.code = .recursiveInstance) =
      p.cycleViolations := by
    rw [List.filter_eq_self]
    intro f hf
    obtain ⟨m, _, rfl⟩ := List.mem_map.mp hf
    rfl
  rw [verify, List.filter_map]
  simp only [Function.comp_def, hcode, violations, List.filter_append, htop, hmodules, hcycles,
    List.nil_append]

/-- The modules between recursive ones are listed in order, and each of them is reported once.
Where these are recursive themselves, the recursive modules are reported and no others. -/
theorem verify_reports_recursion (p : Program) :
    let cycles := (Hierarchy.order (Hierarchy.graph p)).cycles
    cycles.Pairwise (· < ·) ∧
    (∀ n, n ∈ cycles ↔ ∃ x, (Hierarchy.index p)[n]? = some x ∧ p.BetweenRecursive x) ∧
    ((∀ x, p.BetweenRecursive x → p.Recursive x) →
      ∀ n, n ∈ cycles ↔ ∃ x, (Hierarchy.index p)[n]? = some x ∧ p.Recursive x) ∧
    ∃ modules : List Module,
      List.Forall₂ (fun n m => p.modules.items[n]? = some m) cycles modules ∧
      p.verify.log.filter (·.code = .recursiveInstance) = modules.map fun m =>
        ⟨.error, .recursiveInstance, m.span, .text ("module " ++ Text.quoted m.name ++
          " instantiates itself through " ++ ", ".intercalate (modules.map (·.name))), []⟩ := by
  intro cycles
  have hg := Hierarchy.graph_wellFormed p
  have hmem : ∀ n, n ∈ cycles ↔ ∃ x, (Hierarchy.index p)[n]? = some x ∧ p.BetweenRecursive x :=
    fun n => (Hierarchy.mem_cycles_iff hg).trans Hierarchy.betweenCycles_graph_iff
  refine ⟨Hierarchy.cycles_increasing _, hmem, fun hrec n => ?_,
    cycles.filterMap (p.modules.items[·]?), forall₂_filterMap fun n hn => ?_, ?_⟩
  · rw [hmem]
    exact exists_congr fun x => and_congr_right fun _ => ⟨hrec x, Recursive.betweenRecursive⟩
  · obtain ⟨x, hx, _⟩ := (hmem n).mp hn
    have hlt := (List.getElem?_eq_some_iff.mp hx).1
    rw [Hierarchy.index, ← IdMap.length_items] at hlt
    rw [List.getElem?_eq_getElem hlt]
    rfl
  · rw [filter_verify_log, cycleViolations, List.map_map]
    rfl

/-! ## A module between two loops -/

/-- A module with an instance of each of some modules. -/
def containing (id : String) (parts : List String) : Module where
  id := .ofText id
  name := id
  instances := IdMap.ofItems Instance.id (parts.map fun part =>
    { id := .ofText ("i" ++ part), name := part, ref := ⟨.module_, .ofText part, part⟩ })

/-- A module that contains itself leads through another one to a third, which contains itself. -/
def loopToLoop : Program where
  top := .ofText "m1"
  modules := IdMap.ofItems Module.id
    [containing "m1" ["m1", "m2"], containing "m2" ["m3"], containing "m3" ["m3"]]

/-- The module in the middle is reported, though it does not contain itself. -/
theorem loopToLoop_reports_middle :
    (Hierarchy.index loopToLoop)[1]? = some (.ofText "m2") ∧
      1 ∈ (Hierarchy.order (Hierarchy.graph loopToLoop)).cycles ∧
      ¬ loopToLoop.Recursive (.ofText "m2") := by
  have hindex : Hierarchy.index loopToLoop = [.ofText "m1", .ofText "m2", .ofText "m3"] := by
    decide +kernel
  have hmiddle : (Hierarchy.index loopToLoop)[1]? = some (.ofText "m2") := by
    rw [hindex]
    rfl
  have hsteps : ∀ x ∈ [Ident.ofText "m2", .ofText "m3"], ∀ y ∈ Hierarchy.index loopToLoop,
      loopToLoop.Instantiates x y → y = .ofText "m3" := by
    decide +kernel
  have hstep : ∀ x ∈ [Ident.ofText "m2", .ofText "m3"], ∀ y,
      loopToLoop.Instantiates x y → y = .ofText "m3" := by
    intro x hx y hxy
    obtain ⟨_, _, hmem, _⟩ := id hxy
    exact hsteps x hx y (Std.ExtTreeMap.mem_keys.mpr hmem) hxy
  refine ⟨hmiddle, ?_, fun hrec => ?_⟩
  · have hfirst : loopToLoop.Instantiates (.ofText "m1") (.ofText "m1") := by decide +kernel
    have hdown : loopToLoop.Instantiates (.ofText "m1") (.ofText "m2") := by decide +kernel
    have hlast : loopToLoop.Instantiates (.ofText "m2") (.ofText "m3") := by decide +kernel
    have hloop : loopToLoop.Instantiates (.ofText "m3") (.ofText "m3") := by decide +kernel
    exact (Hierarchy.mem_cycles_iff (Hierarchy.graph_wellFormed _)).mpr
      (Hierarchy.betweenCycles_graph_iff.mpr
        ⟨_, hmiddle, _, _, .single hfirst, .single hdown, .single hlast, .single hloop⟩)
  · have hthird : ∀ y, TransGen loopToLoop.Instantiates (.ofText "m2") y → y = .ofText "m3" := by
      intro y hy
      induction hy with
      | single hxy => exact hstep _ (by simp) _ hxy
      | tail _ hyz ih => exact hstep _ (by simp [ih]) _ hyz
    exact absurd (hthird _ hrec) (by decide +kernel)

end Program

end Netlist
