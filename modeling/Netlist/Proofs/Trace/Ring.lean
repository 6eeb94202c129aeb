import Mathlib
import Netlist.Trace.Ring

/-!
# What a ring holds

A ring that has been given events has the newest of those that its level records, as many as
it has slots (`Holds`).  One event keeps this: as long as there is a free slot it is added
behind the others, and afterwards it takes the slot of the oldest one (`Holds.emit`).  So it
holds after any number of events that 64 bits can count (`Holds.foldl_emit`).
-/

namespace Netlist.Trace.Ring

/-- The recorded events were `history`, oldest first, and the newest of them have a slot. -/
structure Holds (r : Ring) (history : List Event) : Prop where
  /-- There is a slot. -/
  capacity_pos : 0 < r.capacity
  total_eq : r.total.toNat = history.length
  /-- The slots are taken one after the other. -/
  size_eq : r.slots.size = min r.capacity history.length
  /-- The newest are kept. -/
  snapshot_eq : r.snapshot = history.drop (history.length - r.capacity)

theorem Holds.new (capacity : Int) (level : Level) : (new capacity level).Holds [] := by
  refine ⟨?_, rfl, ?_, ?_⟩
  · simp only [Ring.new]
    split
    · decide
    · omega
  · simp [Ring.new]
  · simp [snapshot, Ring.new]

/-! ## One event -/

@[simp] theorem capacity_emit (r : Ring) (e : Event) : (r.emit e).capacity = r.capacity := by
  rw [emit]
  split <;> rfl

@[simp] theorem level_emit (r : Ring) (e : Event) : (r.emit e).level = r.level := by
  rw [emit]
  split <;> rfl

theorem capacity_foldl_emit (events : List Event) (r : Ring) :
    (events.foldl emit r).capacity = r.capacity := by
  induction events generalizing r with
  | nil => rfl
  | cons e events ih => rw [List.foldl_cons, ih, capacity_emit]

theorem emit_of_records {r : Ring} {e : Event} (h : r.level.records e.scope = true) :
    r.emit e = { r with
      slots := if r.slots.size < r.capacity then r.slots.push e
        else r.slots.setIfInBounds (r.total.toNat % r.capacity) e
      total := r.total + 1 } := by
  rw [emit, if_pos h]

/-- Until a slot is taken twice, the slots have the order of the events. -/
theorem snapshot_of_total_le {r : Ring} (hsize : r.slots.size = r.total.toNat)
    (h : r.total.toNat ≤ r.capacity) : r.snapshot = r.slots.toList := by
  rw [snapshot]
  simp only [if_pos h]
  rw [← hsize, ← Array.length_toList, List.take_length]

/-- When all slots are taken, the oldest event is in the slot that the next one takes. -/
theorem snapshot_of_full {r : Ring} (hsize : r.slots.size = r.capacity)
    (h : r.capacity ≤ r.total.toNat) : r.snapshot = r.slots.toList.rotate r.total.toNat := by
  rw [List.rotate_eq_drop_append_take_mod, Array.length_toList, hsize]
  rcases Nat.eq_or_lt_of_le h with heq | hlt
  · rw [snapshot_of_total_le (hsize.trans heq) heq.ge, ← heq, Nat.mod_self, List.drop_zero,
      List.take_zero, List.append_nil]
  · rw [snapshot]
    simp only [if_neg (Nat.not_le.mpr hlt)]

/-- A value put where a turned list begins comes last after the next turn. -/
theorem rotate_set_succ {α : Type} {l : List α} (hne : l ≠ []) (n : Nat) (a : α) :
    (l.set (n % l.length) a).rotate (n + 1) = (l.rotate n).tail ++ [a] := by
  have hlt : n % l.length < l.length := Nat.mod_lt _ (List.length_pos_iff.mpr hne)
  have hset : (l.set (n % l.length) a).rotate n = a :: (l.rotate n).tail := by
    rw [List.rotate_eq_drop_append_take_mod, List.rotate_eq_drop_append_take_mod, List.length_set,
      List.take_set_of_le (le_refl _), List.drop_eq_getElem_cons (by rwa [List.length_set]),
      List.getElem_set_self, List.drop_set_of_lt (Nat.lt_succ_self _),
      List.drop_eq_getElem_cons hlt]
    rfl
  rw [← List.rotate_rotate, hset, List.rotate_cons_succ, List.rotate_zero]

/-! ## Any number of events -/

namespace Holds

variable {r : Ring} {history : List Event} {e : Event}

theorem emit (h : r.Holds history) (hlimit : history.length + 1 < 2 ^ 64)
    (hrecords : r.level.records e.scope = true) : (r.emit e).Holds (history ++ [e]) := by
  have htotal : (r.total + 1).toNat = history.length + 1 := by
    rw [UInt64.toNat_add, UInt64.toNat_one, h.total_eq, Nat.mod_eq_of_lt hlimit]
  have hlength : (history ++ [e]).length = history.length + 1 := List.length_append
  rw [emit_of_records hrecords]
  rcases Nat.lt_or_ge history.length r.capacity with hfree | hfull
  · have hsize : r.slots.size = history.length := by
      rw [h.size_eq, Nat.min_eq_right hfree.le]
    have hslots : r.slots.toList = history := by
      rw [← snapshot_of_total_le (hsize.trans h.total_eq.symm) (h.total_eq ▸ hfree.le),
        h.snapshot_eq, Nat.sub_eq_zero_of_le hfree.le, List.drop_zero]
    rw [if_pos (hsize ▸ hfree)]
    refine ⟨h.capacity_pos, htotal.trans hlength.symm, ?_, ?_⟩
    · rw [Array.size_push, hsize, hlength, Nat.min_eq_right hfree]
    · rw [snapshot_of_total_le (by rw [Array.size_push, hsize, htotal]) (htotal ▸ hfree),
        Array.toList_push, hslots, hlength, Nat.sub_eq_zero_of_le hfree, List.drop_zero]
  · have hsize : r.slots.size = r.capacity := by rw [h.size_eq, Nat.min_eq_left hfull]
    have hlist : r.slots.toList.length = r.capacity := Array.length_toList.trans hsize
    have hne : r.slots.toList ≠ [] := List.length_pos_iff.mp (hlist ▸ h.capacity_pos)
    have hold : r.snapshot = r.slots.toList.rotate history.length := by
      rw [snapshot_of_full hsize (h.total_eq ▸ hfull), h.total_eq]
    rw [if_neg (hsize ▸ lt_irrefl _)]
    refine ⟨h.capacity_pos, htotal.trans hlength.symm, ?_, ?_⟩
    · rw [Array.size_setIfInBounds, hsize, hlength, Nat.min_eq_left (Nat.le_succ_of_le hfull)]
    · -- the oldest event gives its slot away
      rw [snapshot_of_full (by rwa [Array.size_setIfInBounds]) (htotal ▸ Nat.le_succ_of_le hfull)]
      calc (r.slots.setIfInBounds (r.total.toNat % r.capacity) e).toList.rotate (r.total + 1).toNat
          = (r.slots.toList.set (history.length % r.slots.toList.length) e).rotate
              (history.length + 1) := by
            rw [htotal, h.total_eq, Array.toList_setIfInBounds, hlist]
        _ = (history.drop (history.length - r.capacity)).tail ++ [e] := by
            rw [rotate_set_succ hne, ← hold, h.snapshot_eq]
        _ = (history ++ [e]).drop ((history ++ [e]).length - r.capacity) := by
            rw [List.tail_drop, hlength, Nat.sub_add_comm hfull,
              List.drop_append_of_le_length (by have := h.capacity_pos; omega)]

theorem foldl_emit : ∀ (events : List Event) {r : Ring} {history : List Event}, r.Holds history →
    history.length + events.length < 2 ^ 64 →
    (events.foldl Ring.emit r).Holds (history ++ events.filter (r.level.records ·.scope))
  | [], r, history, h, _ => by simpa using h
  | e :: events, r, history, h, hlimit => by
      rw [List.length_cons] at hlimit
      rw [List.foldl_cons, List.filter_cons]
      by_cases hrecords : r.level.records e.scope = true
      · have hstep := foldl_emit events (h.emit (e := e) (by omega) hrecords)
          (by rw [List.length_append, List.length_singleton]; omega)
        rw [if_pos hrecords]
        rwa [level_emit, List.append_assoc] at hstep
      · rw [if_neg hrecords, Ring.emit, if_neg hrecords]
        exact foldl_emit events h (by omega)

end Holds

/-- A ring keeps the newest of the events that its level records, and counts the others. -/
theorem snapshot_keeps_newest (capacity : Int) (level : Level) (events : List Event)
    (hlimit : events.length < 2 ^ 64) :
    let slots := if capacity ≤ 0 then 4096 else capacity.toNat
    let recorded := events.filter (level.records ·.scope)
    let ring := events.foldl emit (new capacity level)
    ring.snapshot = recorded.drop (recorded.length - min slots recorded.length) ∧
      ring.snapshot.length = min slots recorded.length ∧
      ring.overwritten = recorded.length - ring.snapshot.length := by
  intro slots recorded ring
  have hholds : ring.Holds recorded :=
    (Holds.new capacity level).foldl_emit events (by simpa using hlimit)
  have hslots : ring.capacity = slots := capacity_foldl_emit events _
  have hsnapshot : ring.snapshot = recorded.drop (recorded.length - slots) :=
    hslots ▸ hholds.snapshot_eq
  have hlength : ring.snapshot.length = min slots recorded.length := by
    rw [hsnapshot, List.length_drop]
    omega
  refine ⟨?_, hlength, ?_⟩
  · rw [hsnapshot]
    congr 1
    omega
  · rw [hlength, overwritten, hholds.total_eq, hslots]
    omega

/-- Of four events one is not recorded, and the oldest has lost its slot. -/
theorem snapshot_keeps_newest_twoSlots :
    let event (seq : UInt64) (scope : Scope) : Event :=
      ⟨0, seq, .point, scope, 0, 0, 0, "p", "p", "", []⟩
    let events := [event 1 .run, event 2 .stage, event 3 .file, event 4 .stage]
    let ring := events.foldl emit (new 2 .stage)
    events.length < 2 ^ 64 ∧ ring.snapshot = [event 2 .stage, event 4 .stage] ∧
      ring.snapshot.length = 2 ∧ ring.overwritten = 1 := by
  intro event events ring
  obtain ⟨hsnapshot, hlength, hlost⟩ := snapshot_keeps_newest 2 .stage events (by decide)
  rw [hlength] at hlost
  exact ⟨by decide, hsnapshot, hlength, hlost⟩

end Netlist.Trace.Ring
