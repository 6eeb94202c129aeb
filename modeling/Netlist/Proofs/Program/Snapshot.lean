import Netlist.Proofs.Allocation
import Netlist.Proofs.Program.Stored

/-!
# Snapshots are canonical

The things of a map are written in the order of their identifiers.  That order goes by kind and
number alone, so it settles the list only for identifiers of the form that is given out: no two
of them have both in common.  However the keys of the maps are enumerated before they are
sorted, such a program then has one snapshot, and that is read back as the program without files
and spans (`Program.ofSnapshot_snapshot_unique`).
-/

namespace Netlist

/-! ## Enumerations -/

/-- The things of a map as they are listed: its keys, in whatever order they come, are sorted so
that none stands after one that it is before, and each of them is looked up. -/
def IdMap.Lists {α : Type} (m : IdMap α) (items : List α) : Prop :=
  ∃ keys : List Ident, keys.Perm m.keys ∧ keys.Pairwise (fun a b => b.before a = false) ∧
    keys.map (m[·]?) = items.map some

theorem IdMap.map_getElem?_keys {α : Type} (m : IdMap α) :
    m.keys.map (m[·]?) = m.items.map some := by
  rw [← Std.ExtTreeMap.map_fst_toList_eq_keys, items, List.map_map, List.map_map]
  refine List.map_congr_left fun e he => ?_
  exact Std.ExtTreeMap.mem_toList_iff_getElem?_eq_some.mp he

/-- Things with identifiers of the form that is given out are listed in one way. -/
theorem IdMap.lists_iff {α : Type} {m : IdMap α} (h : ∀ k ∈ m, k.Allocated) {items : List α} :
    m.Lists items ↔ items = m.items := by
  constructor
  · rintro ⟨keys, hperm, hpairwise, hitems⟩
    have hkeys : keys = m.keys := eq_keys_of_sorted h hperm hpairwise
    rw [hkeys, map_getElem?_keys] at hitems
    exact (List.map_injective_iff.mpr (Option.some_injective _) hitems).symm
  · rintro rfl
    exact ⟨m.keys, .refl _, m.sorted_keys, m.map_getElem?_keys⟩

namespace Stored

/-- The stored form of a module, with its things as they are listed. -/
def Module.Lists (m : Netlist.Module) (s : Module) : Prop :=
  ∃ nets instances endpoints, m.nets.Lists nets ∧ m.instances.Lists instances ∧
    m.endpoints.Lists endpoints ∧
    s = { Module.ofModule m with
      nets := ofThings (nets.map .ofNet), instances := ofThings (instances.map .ofInstance),
      endpoints := ofThings (endpoints.map .ofEndpoint) }

/-- The stored form of a program, with its things as they are listed. -/
def Program.Lists (p : Netlist.Program) (s : Program) : Prop :=
  ∃ modules devices stored, p.modules.Lists modules ∧ p.devices.Lists devices ∧
    List.Forall₂ Module.Lists modules stored ∧
    s = { Program.ofProgram p with
      modules := ofThings stored, devices := ofThings (devices.map .ofDevice) }

end Stored

/-- The identifiers of the things are of the form that is given out. -/
structure Module.Allocated (m : Module) : Prop where
  nets : ∀ k ∈ m.nets, k.Allocated
  instances : ∀ k ∈ m.instances, k.Allocated
  endpoints : ∀ k ∈ m.endpoints, k.Allocated

structure Program.Allocated (p : Program) : Prop where
  modules : ∀ k ∈ p.modules, k.Allocated
  devices : ∀ k ∈ p.devices, k.Allocated
  module_allocated : ∀ m ∈ p.modules.items, m.Allocated

namespace Stored

theorem Module.lists_iff {m : Netlist.Module} (h : m.Allocated) {s : Module} :
    Module.Lists m s ↔ s = .ofModule m := by
  simp only [Module.Lists, IdMap.lists_iff h.nets, IdMap.lists_iff h.instances,
    IdMap.lists_iff h.endpoints]
  constructor
  · rintro ⟨_, _, _, rfl, rfl, rfl, rfl⟩
    rfl
  · rintro rfl
    exact ⟨_, _, _, rfl, rfl, rfl, rfl⟩

theorem forall₂_lists_iff {modules : List Netlist.Module} (h : ∀ m ∈ modules, m.Allocated)
    {stored : List Module} :
    List.Forall₂ Module.Lists modules stored ↔ stored = modules.map .ofModule := by
  induction modules generalizing stored with
  | nil => simp
  | cons m modules ih =>
      cases stored with
      | nil => simp
      | cons s stored =>
          rw [List.forall₂_cons, Module.lists_iff (h m (List.mem_cons_self ..)),
            ih fun m' hm' => h m' (List.mem_cons_of_mem _ hm'), List.map_cons, List.cons.injEq]

/-- However the keys are enumerated, the stored form is the same. -/
theorem Program.lists_iff {p : Netlist.Program} (h : p.Allocated) {s : Program} :
    Program.Lists p s ↔ s = .ofProgram p := by
  simp only [Program.Lists, IdMap.lists_iff h.modules, IdMap.lists_iff h.devices]
  constructor
  · rintro ⟨_, _, _, rfl, rfl, hmodules, rfl⟩
    rw [forall₂_lists_iff h.module_allocated] at hmodules
    rw [hmodules]
    rfl
  · rintro rfl
    exact ⟨_, _, _, rfl, rfl, (forall₂_lists_iff h.module_allocated).mpr rfl, rfl⟩

end Stored

/-! ## Snapshots -/

/-- A program has one snapshot, however the keys of its maps are enumerated, and it is read back
from it. -/
theorem Program.ofSnapshot_snapshot_unique {p : Program} (hp : p.Storable) (hids : p.Allocated)
    (hfits : (Stored.Program.ofProgram p).toSnapshot.Fits) :
    Program.ofSnapshot p.snapshot = .ok p.withoutPlaces ∧
    ∀ bytes, (∃ s, Stored.Program.Lists p s ∧ s.snapshot = bytes) ↔ bytes = p.snapshot := by
  refine ⟨?_, fun bytes => ?_⟩
  · rw [ofSnapshot, Stored.Program.ofSnapshot_snapshot hp hfits, Except.map,
      Stored.toProgram_ofProgram hp]
  · simp only [Stored.Program.lists_iff hids, exists_eq_left]
    exact eq_comm

/-- A module with a net that has a number and a text in its origin. -/
theorem Program.ofSnapshot_snapshot_unique_one_net :
    let origin : Origin :=
      ⟨.ofNumber .expression 1, 0, "d", some [.number (-200), .literal "a"]⟩
    let net : Net := { id := .ofNumber .net 1, name := "d-200a", origin := some origin }
    let m : Module :=
      { id := .ofNumber .module_ 1
        name := "top"
        nets := (∅ : IdMap Net).insert (.ofNumber .net 1) net }
    let p : Program :=
      { top := .ofNumber .module_ 1
        modules := (∅ : IdMap Module).insert (.ofNumber .module_ 1) m }
    Program.ofSnapshot p.snapshot = .ok p.withoutPlaces ∧
    ∀ bytes, (∃ s, Stored.Program.Lists p s ∧ s.snapshot = bytes) ↔ bytes = p.snapshot := by
  intro origin net m p
  have hnet (k : Ident) (n : Net) (h : m.nets[k]? = some n) : k = .ofNumber .net 1 ∧ n = net :=
    (IdMap.of_getElem?_insert h).resolve_right (by simp)
  have hmodule (k : Ident) (m' : Module) (h : p.modules[k]? = some m') :
      k = .ofNumber .module_ 1 ∧ m' = m :=
    (IdMap.of_getElem?_insert h).resolve_right (by simp)
  have horigin : origin.Storable := by
    refine ⟨by decide, fun ps hps q hq => ?_⟩
    cases hps
    fin_cases hq <;> simp [Part.Storable]
  have hstorable : m.Storable := by
    refine ⟨fun k n h => ?_, fun k i h => by simp [m] at h, fun k e h => by simp [m] at h,
      fun n hn o ho => ?_, fun i hi => ?_⟩
    · rw [(hnet k n h).1, (hnet k n h).2]
    · obtain ⟨k, hk⟩ := IdMap.mem_items.mp hn
      rw [(hnet k n hk).2] at ho
      cases ho
      exact horigin
    · obtain ⟨k, hk⟩ := IdMap.mem_items.mp hi
      simp [m] at hk
  have hallocated : m.Allocated := by
    refine ⟨fun k hk => ?_, fun k hk => by simp [m] at hk, fun k hk => by simp [m] at hk⟩
    obtain ⟨n, hn⟩ := Option.isSome_iff_exists.mp (Std.ExtTreeMap.mem_iff_isSome_getElem?.mp hk)
    exact ⟨.net, 1, by decide, (hnet k n hn).1⟩
  refine Program.ofSnapshot_snapshot_unique ⟨fun k m' h => ?_, fun k d h => by simp [p] at h,
    fun m' hm' => ?_⟩ ⟨fun k hk => ?_, fun k hk => by simp [p] at hk, fun m' hm' => ?_⟩
    (MessagePack.Value.fits_of_length _ (by decide +kernel))
  · rw [(hmodule k m' h).1, (hmodule k m' h).2]
  · obtain ⟨k, hk⟩ := IdMap.mem_items.mp hm'
    rw [(hmodule k m' hk).2]
    exact hstorable
  · obtain ⟨m', hm'⟩ := Option.isSome_iff_exists.mp (Std.ExtTreeMap.mem_iff_isSome_getElem?.mp hk)
    exact ⟨.module_, 1, by decide, (hmodule k m' hm').1⟩
  · obtain ⟨k, hk⟩ := IdMap.mem_items.mp hm'
    rw [(hmodule k m' hk).2]
    exact hallocated

end Netlist
