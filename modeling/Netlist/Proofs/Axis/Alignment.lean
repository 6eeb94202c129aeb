import Netlist.Proofs.Axis.Embedding
import Netlist.Proofs.Pattern.Grid
import Netlist.Proofs.Related

/-!
# The alignment of grids

A net and an endpoint that are grids are aligned by placing the axes of the net among
those of the endpoint.  When the shared axes fit (`Fits`), each endpoint atom goes to the
net atom with its values on the shared axes, whose number is spelled by their ordinals
in the mixed radix of the lengths of the net's axes (`target`).  `align_cases` says all
that an alignment of grids can come to.
-/

namespace Netlist.Axis

open Pattern

/-! ## Coordinates -/

/-- The coordinate of some values at places are their ordinals on the axes. -/
theorem coordinate_zip {parts : List Part} : ∀ {places : List Nat} {axes : List Pattern.Axis},
    (∀ a ∈ axes, a.Regular) → (∀ k ∈ places, k < parts.length) → places.length = axes.length →
    ∀ key : List Nat, coordinate parts (places.zip axes) = some key ↔
      List.Forall₂ (· ∈ ·) (select places parts) (axes.map Pattern.Axis.values) ∧
        key = ordinals (axes.map Pattern.Axis.values) (select places parts)
  | [], [], _, _, _, key => by simp [coordinate, ordinals, eq_comm]
  | [], _ :: _, _, _, h, key => by simp at h
  | _ :: _, [], _, _, h, key => by simp at h
  | place :: places, axis :: axes, hreg, hlt, hlen, key => by
      have hplace := hlt place (List.mem_cons_self ..)
      have ih := coordinate_zip (fun a ha => hreg a (List.mem_cons_of_mem _ ha))
        (fun k hk => hlt k (List.mem_cons_of_mem _ hk)) (Nat.succ.inj hlen)
      have hord := (hreg axis (List.mem_cons_self ..)).ordinal?_eq parts[place]
      rw [List.zip_cons_cons, coordinate, List.getElem?_eq_getElem hplace,
        select_cons places hplace]
      by_cases hmem : parts[place] ∈ axis.values
      · cases hrest : coordinate parts (places.zip axes) with
        | none =>
            have hnot : ¬ List.Forall₂ (· ∈ ·) (select places parts)
                (axes.map Pattern.Axis.values) := by
              intro hall
              have := (ih _).mpr ⟨hall, rfl⟩
              rw [hrest] at this
              cases this
            simp [hmem, hnot]
        | some more =>
            obtain ⟨hall, rfl⟩ := (ih _).mp hrest
            simp [hord, hmem, hall, ordinals, eq_comm]
      · simp [hord, hmem]

theorem select_range {α : Type} (l : List α) : select (List.range l.length) l = l := by
  induction l with
  | nil => rfl
  | cons a l ih =>
      rw [List.length_cons, List.range_succ_eq_map, select_zero_cons]
      exact congrArg (a :: ·) ((select_succ _ a l).trans ih)

/-- The table holds every atom under its coordinate, when these are different. -/
theorem coordinates_eq_ok {axes : List (Nat × Pattern.Axis)} :
    ∀ (atoms : List Atom) (n : Nat) (table : Std.HashMap (List Nat) (Nat × Atom)),
      (∀ a ∈ atoms, ∃ key, coordinate a.parts axes = some key ∧ table[key]? = none) →
      atoms.Pairwise (fun a b => coordinate a.parts axes ≠ coordinate b.parts axes) →
      ∃ out, coordinates axes table (atoms.zipIdx n) = .ok out ∧
        (∀ (key : List Nat) v, table[key]? = some v → out[key]? = some v) ∧
        ∀ i a (key : List Nat), atoms[i]? = some a → coordinate a.parts axes = some key →
          out[key]? = some (n + i, a)
  | [], n, table, _, _ => ⟨table, rfl, fun _ _ h => h, fun i a key h => by simp at h⟩
  | a :: atoms, n, table, hkeys, hpw => by
      obtain ⟨hhead, htail⟩ := List.pairwise_cons.mp hpw
      obtain ⟨key, hkey, hfree⟩ := hkeys a (List.mem_cons_self ..)
      have hrest : ∀ b ∈ atoms, ∃ k, coordinate b.parts axes = some k ∧
          (table.insert key (n, a))[k]? = none := by
        intro b hb
        obtain ⟨k, hk, hkfree⟩ := hkeys b (List.mem_cons_of_mem _ hb)
        have hne : key ≠ k := by
          rintro rfl
          exact hhead b hb (hkey.trans hk.symm)
        exact ⟨k, hk, by simp [Std.HashMap.getElem?_insert, hne, hkfree]⟩
      obtain ⟨out, hout, hkept, hnew⟩ := coordinates_eq_ok atoms (n + 1) _ hrest htail
      refine ⟨out, ?_, fun k v hv => hkept k v ?_, fun i b k hb hk => ?_⟩
      · simp only [List.zipIdx_cons, coordinates, hkey, hfree]
        exact hout
      · have hne : key ≠ k := by
          rintro rfl
          rw [hfree] at hv
          cases hv
        simp [Std.HashMap.getElem?_insert, hne, hv]
      · cases i with
        | zero =>
            obtain rfl : a = b := by simpa using hb
            obtain rfl : key = k := Option.some.inj (hkey.symm.trans hk)
            exact hkept key _ (by simp)
        | succ i =>
            have := hnew i b k (by simpa using hb) hk
            rwa [Nat.add_right_comm] at this

/-! ## Tables of grids -/

/-- The values of the axes of an expansion. -/
def valueColumns (x : Expansion) : List (List Part) := x.axes.map Pattern.Axis.values

/-- The number that the ordinals of a tuple of values spell. -/
def target (net : Expansion) (t : List Part) : Nat :=
  rank (net.axes.map (·.length)) (ordinals (valueColumns net) t)

section

variable {net : Expansion} (hnet : net.IsGrid)

include hnet

/-- The lengths of the axes are the numbers of their values. -/
theorem lengths_eq : net.axes.map (·.length) = (valueColumns net).map List.length := by
  rw [valueColumns, List.map_map]
  exact List.map_congr_left fun a ha => (hnet.regular a ha).length_eq

/-- Each part of an atom is a value of its axis. -/
theorem mem_columns_of_mem {a : Atom} (ha : a ∈ net.atoms) :
    List.Forall₂ (· ∈ ·) a.parts (valueColumns net) := by
  refine mem_tuples.mp ?_
  rw [valueColumns, ← hnet.parts_eq]
  exact List.mem_map_of_mem ha

theorem length_parts {a : Atom} (ha : a ∈ net.atoms) : a.parts.length = net.axes.length := by
  rw [(mem_columns_of_mem hnet ha).length_eq, valueColumns, List.length_map]

/-- The net atom with some values stands at the number they spell, and nowhere else. -/
theorem exists_atom_iff {t : List Part} {j : Nat} :
    (∃ n, net.atoms[j]? = some n ∧ n.parts = t) ↔
      List.Forall₂ (· ∈ ·) t (valueColumns net) ∧ j = target net t := by
  have hget : (tuples (valueColumns net))[j]? = (net.atoms[j]?).map (·.parts) := by
    rw [valueColumns, ← hnet.parts_eq, List.getElem?_map]
  have hnodup : (tuples (valueColumns net)).Nodup := hnet.nodup
  rw [target, lengths_eq hnet, ← getElem?_tuples_iff hnodup, hget, Option.map_eq_some_iff]

/-- A grid has a table, which gives every tuple of values its number. -/
theorem exists_table : ∃ table,
    coordinates (net.axes.zipIdx.map fun (axis, k) => (k, axis)) ∅ net.atoms.zipIdx = .ok table ∧
    ∀ t, List.Forall₂ (· ∈ ·) t (valueColumns net) →
      ∃ a, table[ordinals (valueColumns net) t]? = some (target net t, a) := by
  have hown : (net.axes.zipIdx.map fun (axis, k) => (k, axis)) =
      (List.range net.axes.length).zip net.axes := by
    rw [List.zipIdx_eq_zip_range', ← List.range_eq_range']
    exact List.zip_swap _ _
  have hcoord : ∀ a ∈ net.atoms, coordinate a.parts ((List.range net.axes.length).zip net.axes) =
      some (ordinals (valueColumns net) a.parts) := by
    intro a ha
    have hlen := length_parts hnet ha
    refine (coordinate_zip hnet.regular (by simp [hlen]) (by simp) _).mpr ?_
    rw [← hlen, select_range]
    exact ⟨mem_columns_of_mem hnet ha, rfl⟩
  have hnodup : (net.atoms.map (·.parts)).Nodup := hnet.parts_eq ▸ hnet.nodup
  have hpw : net.atoms.Pairwise fun a b =>
      coordinate a.parts ((List.range net.axes.length).zip net.axes) ≠
        coordinate b.parts ((List.range net.axes.length).zip net.axes) := by
    refine (List.pairwise_map.mp hnodup).imp_of_mem fun {a b} ha hb hne heq => hne ?_
    rw [hcoord a ha, hcoord b hb] at heq
    exact ordinals_inj (mem_columns_of_mem hnet ha) (mem_columns_of_mem hnet hb)
      (Option.some.inj heq)
  obtain ⟨table, htable, _, hnew⟩ := coordinates_eq_ok net.atoms 0 ∅
    (fun a ha => ⟨_, hcoord a ha, by simp⟩) hpw
  refine ⟨table, by rw [hown]; exact htable, fun t ht => ?_⟩
  obtain ⟨a, ha, rfl⟩ := (exists_atom_iff hnet).mpr ⟨ht, rfl⟩
  refine ⟨a, ?_⟩
  have := hnew _ a _ ha (hcoord a (List.mem_of_getElem? ha))
  rwa [Nat.zero_add] at this

end

/-! ## Tuples at places -/

section

variable {α : Type}

/-- Selecting keeps two lists related. -/
theorem forall₂_select {β : Type} {R : α → β → Prop} {u : List α} {l : List β}
    (h : List.Forall₂ R u l) (places : List Nat) :
    List.Forall₂ R (select places u) (select places l) := by
  induction places with
  | nil => exact .nil
  | cons k places ih =>
      by_cases hk : k < u.length
      · have hk' : k < l.length := h.length_eq ▸ hk
        rw [select_cons places hk, select_cons places hk']
        exact .cons (h.get hk hk') ih
      · have hk' : ¬ k < l.length := h.length_eq ▸ hk
        rw [select, select, List.filterMap_cons_none (by simpa using hk),
          List.filterMap_cons_none (by simpa using hk')]
        exact ih

/-- Each tuple of the columns at some places is what as many tuples of all columns have
there. -/
theorem count_select [DecidableEq α] : ∀ {cs : List (List α)} {places : List Nat},
    Ascending places → (∀ k ∈ places, k < cs.length) → (∀ c ∈ cs, c.Nodup) →
    ∀ {t : List α}, List.Forall₂ (· ∈ ·) t (select places cs) →
      ((tuples cs).map (select places)).count t * ((select places cs).map List.length).prod =
        (cs.map List.length).prod
  | [], places, _, hlt, _, t, ht => by
      have hnil : places = [] := List.eq_nil_iff_forall_not_mem.mpr fun k hk => by
        simpa using hlt k hk
      subst hnil
      cases ht
      rfl
  | c :: cs, places, hasc, hlt, hnd, t, ht => by
      have hnd' : ∀ d ∈ cs, d.Nodup := fun d hd => hnd d (List.mem_cons_of_mem _ hd)
      rcases hasc.cases with ⟨ps, rfl, hps⟩ | ⟨ps, rfl, hps⟩
      · -- the first column is kept: a tuple has its value once in there
        have hlt' : ∀ k ∈ ps, k < cs.length := fun k hk => by
          simpa using hlt (k + 1) (List.mem_cons_of_mem _ (List.mem_map_of_mem hk))
        rw [select_zero_cons, select_succ] at ht ⊢
        cases ht with
        | @cons b _ t' _ hb ht =>
            have ih := count_select hps hlt' hnd' ht
            have hrows : (tuples (c :: cs)).map (select (0 :: ps.map (· + 1))) =
                c.flatMap fun a => ((tuples cs).map (select ps)).map (a :: ·) := by
              simp [tuples, List.map_flatMap, Function.comp_def]
            have hother : ∀ a, a ≠ b → a ∈ c →
                (((tuples cs).map (select ps)).map (a :: ·)).count (b :: t') = 0 := by
              intro a hne _
              simp [List.count_eq_zero, hne]
            have hone : c.count b = 1 :=
              List.count_eq_one_of_mem (hnd c (List.mem_cons_self ..)) hb
            rw [hrows, List.count_flatMap, Function.comp_def,
              List.sum_map_eq_nsmul_single b _ hother, hone, one_smul,
              List.count_map_of_injective _ _ (List.cons_injective), List.map_cons, List.map_cons,
              List.prod_cons, List.prod_cons, Nat.mul_left_comm, ih]
      · -- the first column is left out: every tuple occurs once per value of it
        have hlt' : ∀ k ∈ ps, k < cs.length := fun k hk => by
          simpa using hlt (k + 1) (List.mem_map_of_mem hk)
        rw [select_succ] at ht ⊢
        have ih := count_select hps hlt' hnd' ht
        have hrows : (tuples (c :: cs)).map (select (ps.map (· + 1))) =
            c.flatMap fun _ => (tuples cs).map (select ps) := by
          simp [tuples, List.map_flatMap, Function.comp_def]
        rw [hrows, List.count_flatMap, Function.comp_def, List.map_const', List.sum_replicate,
          smul_eq_mul, Nat.mul_assoc, ih, List.map_cons, List.prod_cons]

/-- Every tuple of the columns at some places is what some tuple of all columns has there. -/
theorem exists_select_eq [DecidableEq α] {cs : List (List α)} {places : List Nat}
    (hasc : Ascending places) (hlt : ∀ k ∈ places, k < cs.length) (hnd : ∀ c ∈ cs, c.Nodup)
    (hne : ∀ c ∈ cs, c ≠ []) {t : List α} (ht : List.Forall₂ (· ∈ ·) t (select places cs)) :
    ∃ u ∈ tuples cs, select places u = t := by
  have hcount := count_select hasc hlt hnd ht
  have hpos : 0 < (cs.map List.length).prod := by
    rw [← length_tuples]
    exact List.length_pos_iff.mpr (tuples_ne_nil hne)
  have : 0 < ((tuples cs).map (select places)).count t := by
    rw [← hcount] at hpos
    exact Nat.pos_of_mul_pos_right hpos
  exact List.mem_map.mp (List.count_pos_iff.mp this)

/-- Columns hold the values of others exactly when they hold the values of all their tuples. -/
theorem forall_tuples_iff : ∀ {owns ds : List (List α)}, owns.length = ds.length →
    (∀ d ∈ ds, d ≠ []) →
    ((∀ t, List.Forall₂ (· ∈ ·) t ds → List.Forall₂ (· ∈ ·) t owns) ↔
      List.Forall₂ (fun own d => d ⊆ own) owns ds)
  | [], [], _, _ => by simp
  | [], _ :: _, h, _ => by simp at h
  | _ :: _, [], h, _ => by simp at h
  | own :: owns, d :: ds, hlen, hne => by
      have hne' : ∀ d ∈ ds, d ≠ [] := fun e he => hne e (List.mem_cons_of_mem _ he)
      have ih := forall_tuples_iff (Nat.succ.inj hlen) hne'
      obtain ⟨a, ha⟩ := List.exists_mem_of_ne_nil d (hne d (List.mem_cons_self ..))
      obtain ⟨t, ht⟩ := List.exists_mem_of_ne_nil _ (tuples_ne_nil hne')
      rw [List.forall₂_cons, ← ih]
      constructor
      · intro h
        refine ⟨fun b hb => ?_, fun u hu => ?_⟩
        · exact (List.forall₂_cons.mp (h (b :: t) (.cons hb (mem_tuples.mp ht)))).1
        · exact (List.forall₂_cons.mp (h (a :: u) (.cons ha hu))).2
      · rintro ⟨hsub, hrest⟩ u hu
        cases hu with
        | cons hb hu => exact .cons (hsub hb) (hrest _ hu)

end

/-! ## Alignments -/

section

variable {α β ε : Type} {f : α → Except ε β}

/-- A step that never fails is mapped over a list. -/
theorem mapM_eq_ok {g : α → β} : ∀ {l : List α}, (∀ a ∈ l, f a = .ok (g a)) →
    l.mapM f = .ok (l.map g)
  | [], _ => rfl
  | a :: l, h => by
      rw [List.mapM_cons, h a (List.mem_cons_self ..),
        mapM_eq_ok fun b hb => h b (List.mem_cons_of_mem _ hb)]
      rfl

theorem forall₂_of_mapM_eq_ok : ∀ {l : List α} {r : List β}, l.mapM f = .ok r →
    List.Forall₂ (fun a b => f a = .ok b) l r
  | [], r, h => by
      cases h
      exact .nil
  | a :: l, r, h => by
      rw [List.mapM_cons] at h
      cases ha : f a with
      | error e =>
          rw [ha] at h
          cases h
      | ok b =>
          cases hl : l.mapM f with
          | error e =>
              rw [ha, hl] at h
              cases h
          | ok bs =>
              rw [ha, hl] at h
              cases h
              exact .cons ha (forall₂_of_mapM_eq_ok hl)

/-- An error of a list is one of an element. -/
theorem exists_of_mapM_eq_error {e : ε} : ∀ {l : List α}, l.mapM f = .error e →
    ∃ a ∈ l, f a = .error e
  | [], h => by cases h
  | a :: l, h => by
      rw [List.mapM_cons] at h
      cases ha : f a with
      | error e' =>
          rw [ha] at h
          cases h
          exact ⟨a, List.mem_cons_self .., ha⟩
      | ok b =>
          cases hl : l.mapM f with
          | error e' =>
              rw [ha, hl] at h
              cases h
              obtain ⟨a', ha', he⟩ := exists_of_mapM_eq_error hl
              exact ⟨a', List.mem_cons_of_mem _ ha', he⟩
          | ok bs =>
              rw [ha, hl] at h
              cases h

end

/-- The endpoint's axes at the places are as long as the net's. -/
def SameLengths (net endpoint : Expansion) (places : List Nat) : Prop :=
  List.Forall₂ (fun own other => own.length = other.length) net.axes (select places endpoint.axes)

/-- The endpoint's axes at the places have no values but those of the net's. -/
def SharedValues (net endpoint : Expansion) (places : List Nat) : Prop :=
  List.Forall₂ (fun own other => other.values ⊆ own.values) net.axes (select places endpoint.axes)

/-- The shared axes are of the same length, and all of the endpoint's values on them are the
net's. -/
structure Fits (net endpoint : Expansion) (places : List Nat) : Prop where
  lengths : SameLengths net endpoint places
  values : SharedValues net endpoint places

variable {net endpoint : Expansion} {places : List Nat}

/-- No problem is found exactly when the axes have the same lengths. -/
theorem lengthProblems_eq_nil_iff
    (hlt : ∀ k ∈ places, k < endpoint.axes.length) (hlen : places.length = net.axes.length) :
    lengthProblems net endpoint places = [] ↔ SameLengths net endpoint places := by
  rw [lengthProblems, SameLengths]
  generalize net.axes = axes at hlen ⊢
  induction places generalizing axes with
  | nil =>
      cases axes with
      | nil => simp
      | cons a axes => simp at hlen
  | cons k places ih =>
      cases axes with
      | nil => simp at hlen
      | cons a axes =>
          have hk := hlt k (List.mem_cons_self ..)
          have ih := ih (fun j hj => hlt j (List.mem_cons_of_mem _ hj)) axes (by simpa using hlen)
          rw [select_cons places hk, List.forall₂_cons, ← ih, List.zip_cons_cons,
            List.filterMap_cons]
          by_cases heq : a.length = endpoint.axes[k].length
          · simp [List.getElem?_eq_getElem hk, heq]
          · simp [List.getElem?_eq_getElem hk, heq]

/-- All that is found are mismatches of lengths. -/
theorem mem_lengthProblems {p : Problem}
    (h : p ∈ lengthProblems net endpoint places) : p.code = .axisLengthMismatch := by
  obtain ⟨⟨axis, place⟩, _, hp⟩ := List.mem_filterMap.mp h
  dsimp only at hp
  split at hp
  · cases hp
  · cases hp
    rfl

/-- Shared values in terms of the columns of the grids. -/
theorem sharedValues_iff_columns :
    SharedValues net endpoint places ↔ List.Forall₂ (fun own d => d ⊆ own) (valueColumns net)
      (select places (valueColumns endpoint)) := by
  rw [SharedValues, valueColumns, valueColumns, select_map, List.forall₂_map_left_iff,
    List.forall₂_map_right_iff]

theorem columns_ne_nil {x : Expansion} (hx : x.IsGrid) : ∀ c ∈ valueColumns x, c ≠ [] := by
  intro c hc
  obtain ⟨a, ha, rfl⟩ := List.mem_map.mp hc
  exact (hx.regular a ha).values_ne_nil

theorem columns_nodup {x : Expansion} (hx : x.IsGrid) : ∀ c ∈ valueColumns x, c.Nodup := by
  intro c hc
  obtain ⟨a, ha, rfl⟩ := List.mem_map.mp hc
  exact (hx.regular a ha).nodup

section

variable {net endpoint : Expansion} (hnet : net.IsGrid) (hep : endpoint.IsGrid)
  {places : List Nat} (hplaces : IsEmbedding net.axisNames endpoint.axisNames places)

include hplaces

theorem places_lt : ∀ k ∈ places, k < endpoint.axes.length := by
  simpa [Expansion.axisNames] using hplaces.lt

theorem places_length : places.length = net.axes.length := by
  simpa [Expansion.axisNames] using hplaces.length_eq

include hep

/-- All values of the endpoint occur at its atoms, so the values are shared exactly when every
atom has values of the net at the places. -/
theorem sharedValues_iff : SharedValues net endpoint places ↔
    ∀ a ∈ endpoint.atoms, List.Forall₂ (· ∈ ·) (select places a.parts) (valueColumns net) := by
  have hlt : ∀ k ∈ places, k < (valueColumns endpoint).length := by
    simpa [valueColumns] using places_lt hplaces
  have hlen : (valueColumns net).length = (select places (valueColumns endpoint)).length := by
    rw [length_select hlt, places_length hplaces, valueColumns, List.length_map]
  have hne : ∀ d ∈ select places (valueColumns endpoint), d ≠ [] :=
    fun d hd => columns_ne_nil hep d (select_subset _ _ hd)
  rw [sharedValues_iff_columns, ← forall_tuples_iff hlen hne]
  constructor
  · intro h a ha
    exact h _ (forall₂_select (mem_columns_of_mem hep ha) places)
  · intro h t ht
    obtain ⟨u, hu, rfl⟩ := exists_select_eq hplaces.ascending hlt (columns_nodup hep)
      (columns_ne_nil hep) ht
    rw [valueColumns, ← hep.parts_eq] at hu
    obtain ⟨a, ha, rfl⟩ := List.mem_map.mp hu
    exact h a ha

include hnet

/-- An endpoint atom with values of the net goes to the number they spell, another one
nowhere. -/
theorem project_eq {table : Std.HashMap (List Nat) (Nat × Atom)}
    (htable : ∀ t, List.Forall₂ (· ∈ ·) t (valueColumns net) →
      ∃ n, table[ordinals (valueColumns net) t]? = some (target net t, n))
    {a : Atom} (ha : a ∈ endpoint.atoms) :
    (List.Forall₂ (· ∈ ·) (select places a.parts) (valueColumns net) →
      project net (places.zip net.axes) table a = .ok (target net (select places a.parts))) ∧
    (¬ List.Forall₂ (· ∈ ·) (select places a.parts) (valueColumns net) →
      project net (places.zip net.axes) table a = .error (.unmatched a.literal net.raw)) := by
  have hlt : ∀ k ∈ places, k < a.parts.length := by
    rw [length_parts hep ha]
    exact places_lt hplaces
  have hcoord := coordinate_zip hnet.regular hlt (places_length hplaces)
  constructor
  · intro hmem
    obtain ⟨n, hn⟩ := htable _ hmem
    rw [project, (hcoord _).mpr ⟨hmem, rfl⟩, Option.bind_some]
    rw [valueColumns] at hn
    rw [hn]
  · intro hmem
    have hnone : coordinate a.parts (places.zip net.axes) = none := by
      refine Option.eq_none_iff_forall_ne_some.mpr fun key hkey => hmem ?_
      exact ((hcoord key).mp hkey).1
    rw [project, hnone, Option.bind_none]

end

section

variable {net endpoint : Expansion} {places : List Nat}
  (he : embed net.axisNames 0 endpoint.axisNames = .ok places)

include he

/-- Axes of different lengths are refused. -/
theorem align_of_lengthProblems_ne_nil (hne : lengthProblems net endpoint places ≠ []) :
    align net endpoint = .error (lengthProblems net endpoint places) := by
  rw [align, he]
  simp only [Bind.bind, Except.bind]

/-- With a table of coordinates, aligning is projecting every atom. -/
theorem align_of_table (hlengths : lengthProblems net endpoint places = [])
    {table : Std.HashMap (List Nat) (Nat × Atom)}
    (htable : coordinates (net.axes.zipIdx.map fun (axis, k) => (k, axis)) ∅ net.atoms.zipIdx =
      .ok table) :
    align net endpoint =
      match endpoint.atoms.mapM (project net (places.zip net.axes) table) with
      | .ok netIndex => .ok ⟨.axis, netIndex⟩
      | .error p => .error [p] := by
  rw [align, he]
  cases hprojected : endpoint.atoms.mapM (project net (places.zip net.axes) table) with
  | ok netIndex => simp only [Bind.bind, Except.bind, hlengths, htable, hprojected]
  | error p => simp only [Bind.bind, Except.bind, hlengths, htable, hprojected]

end

/-- What the alignment of two grids comes to: an axis is missing, lengths differ, an endpoint
atom has a value that is not the net's, or every endpoint atom goes to the number that its
values spell. -/
theorem align_cases {net endpoint : Expansion} (hnet : net.IsGrid) (hep : endpoint.IsGrid) :
    (∃ axis, embed net.axisNames 0 endpoint.axisNames = .error axis ∧
      align net endpoint =
        .error [.missingAxis axis net.raw endpoint.raw endpoint.axisNames]) ∨
    ∃ places, IsLeftmost net.axisNames endpoint.axisNames places ∧
      ((¬ SameLengths net endpoint places ∧
          align net endpoint = .error (lengthProblems net endpoint places)) ∨
        (¬ SharedValues net endpoint places ∧
          ∃ a ∈ endpoint.atoms, align net endpoint = .error [.unmatched a.literal net.raw]) ∨
        (Fits net endpoint places ∧
          align net endpoint = .ok ⟨.axis, endpoint.atoms.map fun a =>
            target net (select places a.parts)⟩)) := by
  cases he : embed net.axisNames 0 endpoint.axisNames with
  | error axis =>
      refine Or.inl ⟨axis, rfl, ?_⟩
      rw [align, he]
      rfl
  | ok places =>
      have hleft := isLeftmost_of_embed he
      have hplaces := hleft.toIsEmbedding
      have hlengths := lengthProblems_eq_nil_iff (places_lt hplaces) (places_length hplaces)
      refine Or.inr ⟨places, hleft, ?_⟩
      by_cases hsame : SameLengths net endpoint places
      · obtain ⟨table, htable, hspec⟩ := exists_table hnet
        have hproject := fun a (ha : a ∈ endpoint.atoms) => project_eq hnet hep hplaces hspec ha
        rw [align_of_table he (hlengths.mpr hsame) htable]
        by_cases hshared : SharedValues net endpoint places
        · have hall := (sharedValues_iff hep hplaces).mp hshared
          rw [mapM_eq_ok fun a ha => (hproject a ha).1 (hall a ha)]
          exact Or.inr (Or.inr ⟨⟨hsame, hshared⟩, rfl⟩)
        · refine Or.inr (Or.inl ⟨hshared, ?_⟩)
          cases hmapM : endpoint.atoms.mapM (project net (places.zip net.axes) table) with
          | ok netIndex =>
              -- every atom went somewhere, so each has values of the net
              refine absurd ((sharedValues_iff hep hplaces).mpr fun a ha => ?_) hshared
              by_contra hbad
              obtain ⟨j, _, hj⟩ := forall₂_exists_of_mem (forall₂_of_mapM_eq_ok hmapM) ha
              rw [(hproject a ha).2 hbad] at hj
              cases hj
          | error p =>
              obtain ⟨a, ha, hfail⟩ := exists_of_mapM_eq_error hmapM
              refine ⟨a, ha, ?_⟩
              by_cases hgood : List.Forall₂ (· ∈ ·) (select places a.parts) (valueColumns net)
              · rw [(hproject a ha).1 hgood] at hfail
                cases hfail
              · rw [(hproject a ha).2 hgood] at hfail
                cases hfail
                rfl
      · refine Or.inl ⟨hsame, ?_⟩
        exact align_of_lengthProblems_ne_nil he fun h => hsame (hlengths.mp h)

end Netlist.Axis
