import Mathlib
import Netlist.Pattern.Expand

/-!
# Tuples and their places

`tuples` lists all choices of one value from each of some columns, the last column
running fastest.  A tuple is given by the ordinals of its values, and its place in
the list is the number that these ordinals spell in the mixed radix of the lengths
of the columns (`rank`).  `getElem?_tuples` says so, and `rank_eq_sum` writes
the number out.
-/

namespace Netlist.Pattern

variable {α : Type}

/-! ## Tuples -/

/-- All choices of one value from each column, the last column running fastest. -/
def tuples : List (List α) → List (List α)
  | [] => [[]]
  | c :: cs => c.flatMap fun a => (tuples cs).map (a :: ·)

theorem mem_tuples : ∀ {columns : List (List α)} {t : List α},
    t ∈ tuples columns ↔ List.Forall₂ (· ∈ ·) t columns
  | [], t => by simp [tuples]
  | c :: cs, [] => by simp [tuples]
  | c :: cs, a :: t => by simp [tuples, @mem_tuples cs t]

theorem length_tuples : ∀ columns : List (List α),
    (tuples columns).length = (columns.map List.length).prod
  | [] => rfl
  | c :: cs => by simp [tuples, List.length_flatMap, length_tuples cs]

theorem tuples_ne_nil {columns : List (List α)} (h : ∀ c ∈ columns, c ≠ []) :
    tuples columns ≠ [] := by
  rw [← List.length_pos_iff, length_tuples]
  refine List.prod_pos fun n hn => ?_
  obtain ⟨c, hc, rfl⟩ := List.mem_map.mp hn
  exact List.length_pos_iff.mpr (h c hc)

/-- When no tuple occurs twice, no column holds a value twice. -/
theorem nodup_of_nodup_tuples : ∀ {columns : List (List α)}, (∀ c ∈ columns, c ≠ []) →
    (tuples columns).Nodup → ∀ c ∈ columns, c.Nodup
  | [], _, _ => by simp
  | c :: cs, hne, hnd => by
      have hcs : ∀ c ∈ cs, c ≠ [] := fun d hd => hne d (List.mem_cons_of_mem _ hd)
      obtain ⟨hrows, hpw⟩ := List.nodup_flatMap.mp hnd
      obtain ⟨t, ht⟩ := List.exists_mem_of_ne_nil _ (tuples_ne_nil hcs)
      intro d hd
      rcases List.mem_cons.mp hd with rfl | hd
      · -- equal values would give the tuple `t` twice
        refine hpw.imp fun {a b} hdisj hab => ?_
        subst hab
        exact hdisj (List.mem_map_of_mem ht) (List.mem_map_of_mem ht)
      · obtain ⟨a, ha⟩ := List.exists_mem_of_ne_nil c (hne c (List.mem_cons_self ..))
        exact nodup_of_nodup_tuples hcs (hrows a ha).of_map d hd

/-! ## Ordinals and places -/

/-- The number that ordinals spell in the mixed radix of some lengths. -/
def rank : (lengths ordinals : List Nat) → Nat
  | _ :: lengths, o :: ordinals => o * lengths.prod + rank lengths ordinals
  | _, _ => 0

/-- Where the values of a tuple stand in their columns. -/
def ordinals [DecidableEq α] (columns : List (List α)) (t : List α) : List Nat :=
  List.zipWith (fun c a => c.idxOf a) columns t

/-- Written out: each ordinal times the lengths after it. -/
theorem rank_eq_sum : ∀ lengths ords : List Nat, lengths.length = ords.length →
    rank lengths ords =
      ∑ k ∈ Finset.range lengths.length, ords.getD k 0 * (lengths.drop (k + 1)).prod
  | [], _, _ => rfl
  | _ :: lengths, [], h => by simp at h
  | n :: lengths, o :: ords, h => by
      rw [rank, List.length_cons, Finset.sum_range_succ',
        rank_eq_sum lengths ords (by simpa using h), Nat.add_comm]
      rfl

/-- Blocks of one length: the place in the whole is the block's number times the length
plus the place in the block. -/
theorem getElem?_flatMap_block {β : Type} (f : α → List β) {n r : Nat} (hr : r < n) :
    ∀ (l : List α), (∀ a ∈ l, (f a).length = n) → ∀ (i : Nat),
      (l.flatMap f)[i * n + r]? = (l[i]?).bind fun a => (f a)[r]?
  | [], _, i => by simp
  | a :: l, h, 0 => by
      have ha := h a (List.mem_cons_self ..)
      rw [List.flatMap_cons, Nat.zero_mul, Nat.zero_add, List.getElem?_append_left (by omega)]
      simp
  | a :: l, h, i + 1 => by
      have ha := h a (List.mem_cons_self ..)
      have ih := getElem?_flatMap_block f hr l (fun b hb => h b (List.mem_cons_of_mem _ hb)) i
      have hle : (f a).length ≤ (i + 1) * n + r := by
        rw [ha, Nat.add_mul, Nat.one_mul]
        omega
      have hsub : (i + 1) * n + r - (f a).length = i * n + r := by
        rw [ha, Nat.add_mul, Nat.one_mul]
        omega
      rw [List.flatMap_cons, List.getElem?_append_right hle, hsub, ih]
      simp

section

variable [DecidableEq α]

theorem rank_lt : ∀ {columns : List (List α)} {t : List α}, List.Forall₂ (· ∈ ·) t columns →
    rank (columns.map List.length) (ordinals columns t) < (tuples columns).length
  | [], _, .nil => by simp [rank, tuples]
  | c :: cs, a :: t, .cons ha ht => by
      have ih := rank_lt ht
      have hidx : c.idxOf a < c.length := List.idxOf_lt_length_of_mem ha
      rw [length_tuples] at ih ⊢
      have hmul := Nat.mul_le_mul_right (cs.map List.length).prod (Nat.succ_le_of_lt hidx)
      rw [Nat.succ_mul] at hmul
      simp only [List.map_cons, ordinals, List.zipWith_cons_cons, rank, List.prod_cons]
      rw [ordinals] at ih
      omega

/-- A tuple stands at the number that its ordinals spell. -/
theorem getElem?_tuples_rank : ∀ {columns : List (List α)} {t : List α},
    List.Forall₂ (· ∈ ·) t columns →
    (tuples columns)[rank (columns.map List.length) (ordinals columns t)]? = some t
  | [], _, .nil => rfl
  | col :: cols, a :: t, .cons ha ht => by
      have hlt := rank_lt ht
      have hget : col[col.idxOf a]? = some a := by
        rw [List.getElem?_eq_getElem (List.idxOf_lt_length_of_mem ha), List.getElem_idxOf]
      have hblock := getElem?_flatMap_block (fun a => (tuples cols).map (a :: ·)) hlt col
        (fun b _ => by rw [List.length_map]) (col.idxOf a)
      simp only [List.map_cons, ordinals, List.zipWith_cons_cons, rank, tuples]
      rw [← length_tuples, ← ordinals, hblock, hget, Option.bind_some, List.getElem?_map,
        getElem?_tuples_rank ht, Option.map_some]

/-- When no tuple occurs twice, a tuple stands nowhere else. -/
theorem getElem?_tuples_iff {columns : List (List α)} (hnd : (tuples columns).Nodup) {t : List α}
    {i : Nat} : (tuples columns)[i]? = some t ↔ List.Forall₂ (· ∈ ·) t columns ∧
      i = rank (columns.map List.length) (ordinals columns t) := by
  constructor
  · intro h
    have ht := mem_tuples.mp (List.mem_of_getElem? h)
    refine ⟨ht, ?_⟩
    have hi := (List.getElem?_eq_some_iff.mp h).1
    exact (List.getElem?_inj hi hnd).mp (h.trans (getElem?_tuples_rank ht).symm)
  · rintro ⟨ht, rfl⟩
    exact getElem?_tuples_rank ht

/-- Different tuples have different ordinals. -/
theorem ordinals_inj : ∀ {columns : List (List α)} {t u : List α},
    List.Forall₂ (· ∈ ·) t columns → List.Forall₂ (· ∈ ·) u columns →
    ordinals columns t = ordinals columns u → t = u
  | [], _, _, .nil, .nil, _ => rfl
  | c :: cs, a :: t, b :: u, .cons ha ht, .cons hb hu, h => by
      simp only [ordinals, List.zipWith_cons_cons, List.cons.injEq] at h
      rw [(List.idxOf_inj ha).mp h.1, ordinals_inj ht hu h.2]

end

end Netlist.Pattern
