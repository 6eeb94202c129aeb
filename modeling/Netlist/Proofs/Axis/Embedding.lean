import Mathlib
import Netlist.Axis.Bind

/-!
# Names in order among others

An embedding of some names among others gives each name a place, from left to right.
`embed` finds the leftmost one (`embed_eq_ok_iff`), and when there is none it names the
first name that cannot be placed after those before it (`of_embed_eq_error`).

`select` takes the things at some places of a list.
-/

namespace Netlist.Axis

/-! ## The things at some places -/

/-- The things of a list at some places. -/
def select {α : Type} (places : List Nat) (l : List α) : List α := places.filterMap (l[·]?)

section

variable {α β : Type}

@[simp] theorem select_nil (l : List α) : select [] l = [] := rfl

@[simp] theorem select_zero_cons (places : List Nat) (a : α) (l : List α) :
    select (0 :: places) (a :: l) = a :: select places (a :: l) := rfl

@[simp] theorem select_succ (places : List Nat) (a : α) (l : List α) :
    select (places.map (· + 1)) (a :: l) = select places l := by
  simp [select, List.filterMap_map]

theorem select_map (places : List Nat) (f : α → β) (l : List α) :
    select places (l.map f) = (select places l).map f := by
  simp only [select, List.getElem?_map, List.map_filterMap]

theorem select_cons {place : Nat} (places : List Nat) {l : List α} (h : place < l.length) :
    select (place :: places) l = l[place] :: select places l := by
  rw [select, List.filterMap_cons_some (List.getElem?_eq_getElem h), select]

/-- Every place gives an element. -/
theorem length_select : ∀ {places : List Nat} {l : List α}, (∀ k ∈ places, k < l.length) →
    (select places l).length = places.length
  | [], _, _ => rfl
  | k :: places, l, h => by
      rw [select_cons places (h k (List.mem_cons_self ..)), List.length_cons, List.length_cons,
        length_select fun j hj => h j (List.mem_cons_of_mem _ hj)]

theorem select_subset (places : List Nat) (l : List α) : select places l ⊆ l := by
  intro a ha
  obtain ⟨k, _, hk⟩ := List.mem_filterMap.mp ha
  exact List.mem_of_getElem? hk

/-- The element at a place of the selection. -/
theorem getElem?_select {places : List Nat} {l : List α} (h : ∀ k ∈ places, k < l.length)
    (n : Nat) : (select places l)[n]? = (places[n]?).bind (l[·]?) := by
  induction places generalizing n with
  | nil => rfl
  | cons k places ih =>
      have hk := h k (List.mem_cons_self ..)
      rw [select_cons places hk]
      cases n with
      | zero => simp [List.getElem?_eq_getElem hk]
      | succ n => simpa using ih (fun j hj => h j (List.mem_cons_of_mem _ hj)) n

end

/-! ## Ascending places -/

/-- Places from left to right. -/
def Ascending (places : List Nat) : Prop := places.Pairwise (· < ·)

variable {names among : List String} {places : List Nat} {n a : String}

theorem ascending_succ :
    Ascending (places.map (· + 1)) ↔ Ascending places := by
  simp [Ascending, List.pairwise_map]

theorem ascending_zero_cons :
    Ascending (0 :: places.map (· + 1)) ↔ Ascending places := by
  rw [Ascending, List.pairwise_cons, ← Ascending, ascending_succ]
  exact and_iff_right (by simp)

theorem exists_succ_of_pos : ∀ {places : List Nat}, (∀ k ∈ places, 0 < k) →
    ∃ ps : List Nat, places = ps.map (· + 1)
  | [], _ => ⟨[], rfl⟩
  | k :: places, h => by
      obtain ⟨ps, rfl⟩ := exists_succ_of_pos fun j hj => h j (List.mem_cons_of_mem _ hj)
      exact ⟨(k - 1) :: ps, by simp [Nat.sub_add_cancel (h k (List.mem_cons_self ..))]⟩

/-- Ascending places either start with the first one or leave it out. -/
theorem Ascending.cases (h : Ascending places) :
    (∃ ps, places = 0 :: ps.map (· + 1) ∧ Ascending ps) ∨
      ∃ ps, places = ps.map (· + 1) ∧ Ascending ps := by
  cases places with
  | nil => exact Or.inr ⟨[], rfl, List.Pairwise.nil⟩
  | cons k places =>
      obtain ⟨hk, hrest⟩ := List.pairwise_cons.mp h
      obtain ⟨ps, rfl⟩ := exists_succ_of_pos
        fun j (hj : j ∈ places) => Nat.lt_of_le_of_lt (Nat.zero_le k) (hk j hj)
      rcases Nat.eq_zero_or_pos k with rfl | hpos
      · exact Or.inl ⟨ps, rfl, ascending_succ.mp hrest⟩
      · refine Or.inr ⟨(k - 1) :: ps, by simp [Nat.sub_add_cancel hpos], ?_⟩
        refine ascending_succ.mp ?_
        simpa [Nat.sub_add_cancel hpos] using h

/-! ## Embeddings -/

/-- Places for names, from left to right, where they stand in a list. -/
structure IsEmbedding (names among : List String) (places : List Nat) : Prop where
  /-- The places go from left to right. -/
  ascending : Ascending places
  /-- Each name stands at its place. -/
  names_eq : places.map (among[·]?) = names.map some

/-- The embedding with every place as far left as in any other. -/
structure IsLeftmost (names among : List String) (places : List Nat) : Prop
    extends IsEmbedding names among places where
  /-- No embedding has a place further left. -/
  le : ∀ other, IsEmbedding names among other → List.Forall₂ (· ≤ ·) places other

theorem IsEmbedding.lt (h : IsEmbedding names among places) : ∀ k ∈ places, k < among.length := by
  intro k hk
  have hmem : among[k]? ∈ names.map some := h.names_eq ▸ List.mem_map_of_mem hk
  obtain ⟨n, _, hn⟩ := List.mem_map.mp hmem
  exact (List.getElem?_eq_some_iff.mp hn.symm).1

theorem IsEmbedding.length_eq
    (h : IsEmbedding names among places) : places.length = names.length := by
  simpa using congrArg List.length h.names_eq

/-- The names are what stands at the places. -/
theorem IsEmbedding.select_eq
    (h : IsEmbedding names among places) : select places among = names := by
  have hmap : select places among = (places.map (among[·]?)).filterMap id := by
    rw [select, List.filterMap_map]
    rfl
  rw [hmap, h.names_eq, List.filterMap_map]
  simp

/-- There is only one leftmost embedding. -/
theorem IsLeftmost.unique {p₁ p₂ : List Nat}
    (h₁ : IsLeftmost names among p₁) (h₂ : IsLeftmost names among p₂) : p₁ = p₂ := by
  have hle := h₁.le p₂ h₂.toIsEmbedding
  have hge := h₂.le p₁ h₁.toIsEmbedding
  clear h₁ h₂
  induction hle with
  | nil => rfl
  | cons hab _ ih =>
      cases hge with
      | cons hba hrest => rw [Nat.le_antisymm hab hba, ih hrest]

/-- An embedding that leaves out the first name. -/
theorem isEmbedding_succ {a : String} :
    IsEmbedding names (a :: among) (places.map (· + 1)) ↔ IsEmbedding names among places := by
  constructor
  · rintro ⟨h1, h2⟩
    exact ⟨ascending_succ.mp h1, by simpa [Function.comp_def] using h2⟩
  · rintro ⟨h1, h2⟩
    exact ⟨ascending_succ.mpr h1, by simpa [Function.comp_def] using h2⟩

/-- An embedding that begins with the first name. -/
theorem isEmbedding_zero_cons :
    IsEmbedding (n :: names) (a :: among) (0 :: places.map (· + 1)) ↔
      a = n ∧ IsEmbedding names among places := by
  constructor
  · rintro ⟨h1, h2⟩
    have h2 : a = n ∧ places.map (among[·]?) = names.map some := by
      simpa [Function.comp_def] using h2
    exact ⟨h2.1, ascending_zero_cons.mp h1, h2.2⟩
  · rintro ⟨rfl, h1, h2⟩
    exact ⟨ascending_zero_cons.mpr h1, by simpa [Function.comp_def] using h2⟩

/-- When the first name stands first, its leftmost place is the first one. -/
theorem IsLeftmost.zero_cons {n : String} (h : IsLeftmost names among places) :
    IsLeftmost (n :: names) (n :: among) (0 :: places.map (· + 1)) := by
  refine ⟨isEmbedding_zero_cons.mpr ⟨rfl, h.toIsEmbedding⟩, fun other ho => ?_⟩
  -- the places after the first one of any embedding are places among the rest
  obtain ⟨q, qs, rfl⟩ : ∃ q qs, other = q :: qs :=
    List.exists_cons_of_length_eq_add_one ho.length_eq
  obtain ⟨hq, hqs⟩ := List.pairwise_cons.mp ho.ascending
  obtain ⟨ps, rfl⟩ := exists_succ_of_pos
    fun j (hj : j ∈ qs) => Nat.lt_of_le_of_lt (Nat.zero_le q) (hq j hj)
  have hrest : IsEmbedding names among ps := by
    refine ⟨ascending_succ.mp hqs, ?_⟩
    have := ho.names_eq
    simp only [List.map_cons, List.cons.injEq] at this
    simpa [Function.comp_def] using this.2
  refine .cons (Nat.zero_le q) ?_
  simpa [List.forall₂_map_left_iff, List.forall₂_map_right_iff] using h.le ps hrest

/-- When the first name does not stand first, the first place is passed over. -/
theorem IsLeftmost.succ (hne : a ≠ n) (h : IsLeftmost (n :: names) among places) :
    IsLeftmost (n :: names) (a :: among) (places.map (· + 1)) := by
  refine ⟨isEmbedding_succ.mpr h.toIsEmbedding, fun other ho => ?_⟩
  rcases ho.ascending.cases with ⟨ps, rfl, _⟩ | ⟨ps, rfl, _⟩
  · exact absurd (isEmbedding_zero_cons.mp ho).1 hne
  · simpa [List.forall₂_map_left_iff, List.forall₂_map_right_iff]
      using h.le ps (isEmbedding_succ.mp ho)

/-! ## The search -/

@[simp] theorem embed_nil (k : Nat) (among : List String) : embed [] k among = .ok [] := by
  rw [embed]

/-- Searching from a later place on only moves the places. -/
theorem embed_from : ∀ (names : List String) (k : Nat) (among : List String),
    embed names k among = (embed names 0 among).map (List.map (· + k))
  | [], k, among => by
      rw [embed_nil, embed_nil]
      rfl
  | n :: names, k, [] => by
      rw [embed, embed]
      rfl
  | n :: names, k, a :: among => by
      rw [embed, embed]
      split
      · rw [embed_from names (k + 1), embed_from names (0 + 1)]
        cases embed names 0 among with
        | error e => rfl
        | ok ps => simp [Except.map, Nat.add_comm, Nat.add_left_comm]
      · rw [embed_from (n :: names) (k + 1), embed_from (n :: names) (0 + 1)]
        cases embed (n :: names) 0 among with
        | error e => rfl
        | ok ps => simp [Except.map, Nat.add_comm, Nat.add_left_comm]
termination_by names _ among => names.length + among.length

/-- The first name is placed at once where it is met. -/
theorem embed_cons_self (n : String) (names among : List String) :
    embed (n :: names) 0 (n :: among) =
      (embed names 0 among).map fun ps => 0 :: ps.map (· + 1) := by
  rw [embed, if_pos (by simp), embed_from]
  cases embed names 0 among <;> rfl

/-- Another name is passed over. -/
theorem embed_cons_ne (h : a ≠ n) (names among : List String) :
    embed (n :: names) 0 (a :: among) = (embed (n :: names) 0 among).map (List.map (· + 1)) := by
  rw [embed, if_neg (by simpa using h), embed_from]

/-- What the search finds is the leftmost embedding. -/
theorem isLeftmost_of_embed : ∀ {names among : List String} {places : List Nat},
    embed names 0 among = .ok places → IsLeftmost names among places
  | [], among, places, h => by
      rw [embed_nil] at h
      cases h
      refine ⟨⟨List.Pairwise.nil, rfl⟩, fun other ho => ?_⟩
      rw [List.length_eq_zero_iff.mp ho.length_eq]
      exact .nil
  | n :: names, [], places, h => by
      rw [embed] at h
      cases h
  | n :: names, a :: among, places, h => by
      by_cases hne : a = n
      · subst hne
        rw [embed_cons_self] at h
        cases he : embed names 0 among with
        | error e =>
            rw [he] at h
            cases h
        | ok ps =>
            rw [he] at h
            cases h
            exact (isLeftmost_of_embed he).zero_cons
      · rw [embed_cons_ne hne] at h
        cases he : embed (n :: names) 0 among with
        | error e =>
            rw [he] at h
            cases h
        | ok ps =>
            rw [he] at h
            cases h
            exact (isLeftmost_of_embed he).succ hne
termination_by names among => names.length + among.length

/-- When the search fails, the name it stops at cannot be placed after those before it. -/
theorem of_embed_eq_error : ∀ {names among : List String} {m : String},
    embed names 0 among = .error m →
    ∃ before after, names = before ++ m :: after ∧ before.Sublist among ∧
      ¬ (before ++ [m]).Sublist among
  | [], among, m, h => by
      rw [embed_nil] at h
      cases h
  | n :: names, [], m, h => by
      rw [embed] at h
      cases h
      exact ⟨[], names, rfl, List.nil_sublist _, by simp⟩
  | n :: names, a :: among, m, h => by
      by_cases hne : a = n
      · subst hne
        rw [embed_cons_self] at h
        cases he : embed names 0 among with
        | ok ps =>
            rw [he] at h
            cases h
        | error e =>
            rw [he] at h
            cases h
            obtain ⟨before, after, rfl, hsub, hnot⟩ := of_embed_eq_error he
            refine ⟨a :: before, after, rfl, hsub.cons_cons a, fun hs => hnot ?_⟩
            exact List.cons_sublist_cons.mp hs
      · rw [embed_cons_ne hne] at h
        cases he : embed (n :: names) 0 among with
        | ok ps =>
            rw [he] at h
            cases h
        | error e =>
            rw [he] at h
            cases h
            obtain ⟨before, after, heq, hsub, hnot⟩ := of_embed_eq_error he
            refine ⟨before, after, heq, hsub.cons a, fun hs => hnot ?_⟩
            -- what is placed starts with `n`, which is not the first name of the list
            rcases List.sublist_cons_iff.mp hs with hs | ⟨rest, hrest, _⟩
            · exact hs
            · cases before with
              | nil =>
                  simp only [List.nil_append, List.cons.injEq] at heq hrest
                  exact absurd (hrest.1.symm.trans heq.1.symm) hne
              | cons b before =>
                  simp only [List.cons_append, List.cons.injEq] at heq hrest
                  exact absurd (hrest.1.symm.trans heq.1.symm) hne
termination_by names among => names.length + among.length

/-- Embedded names are some of the others, in order. -/
theorem IsEmbedding.sublist (h : IsEmbedding names among places) : names.Sublist among := by
  induction among generalizing names places with
  | nil =>
      have hnil : places = [] := List.eq_nil_iff_forall_not_mem.mpr fun k hk => by
        simpa using h.lt k hk
      have hlen := h.length_eq
      rw [hnil] at hlen
      rw [List.length_eq_zero_iff.mp hlen.symm]
  | cons a among ih =>
      rcases h.ascending.cases with ⟨ps, rfl, _⟩ | ⟨ps, rfl, _⟩
      · obtain ⟨n, names, rfl⟩ : ∃ n ns, names = n :: ns :=
          List.exists_cons_of_length_eq_add_one h.length_eq.symm
        obtain ⟨rfl, hrest⟩ := isEmbedding_zero_cons.mp h
        exact (ih hrest).cons_cons a
      · exact (ih (isEmbedding_succ.mp h)).cons a

/-- There is an embedding exactly when the names are some of the others, in order. -/
theorem exists_embed_eq_ok_iff :
    (∃ places, embed names 0 among = .ok places) ↔ names.Sublist among := by
  constructor
  · rintro ⟨places, h⟩
    exact (isLeftmost_of_embed h).toIsEmbedding.sublist
  · intro hsub
    cases he : embed names 0 among with
    | ok places => exact ⟨places, rfl⟩
    | error m =>
        obtain ⟨before, after, rfl, _, hnot⟩ := of_embed_eq_error he
        have hfirst : (before ++ [m]).Sublist (before ++ m :: after) :=
          (List.append_sublist_append_left before).mpr (by simp)
        exact absurd (hfirst.trans hsub) hnot

/-- The search finds exactly the leftmost embedding. -/
theorem embed_eq_ok_iff :
    embed names 0 among = .ok places ↔ IsLeftmost names among places := by
  constructor
  · exact isLeftmost_of_embed
  · intro h
    obtain ⟨found, hf⟩ := exists_embed_eq_ok_iff.mpr h.toIsEmbedding.sublist
    rw [hf, (isLeftmost_of_embed hf).unique h]

end Netlist.Axis
