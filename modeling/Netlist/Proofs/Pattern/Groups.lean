import Netlist.Pattern.Expand
import Netlist.Proofs.Pattern.Range

/-!
# The groups of an expression that was read

Every group of an expression that was read has a value, its numbers have 64 bits
(`Group.Proper`), and a group that refers to a named pattern has the values of its
definition (`Group.Meant`).  One lexeme keeps this of the reading so far, so the whole
reading has it (`meant_of_read`).
-/

namespace Netlist

/-- The part is a text or a number of 64 bits. -/
def Part.Storable : Part → Prop
  | .literal _ => True
  | .number n => -2 ^ 63 ≤ n ∧ n < 2 ^ 63
  | .unset => False

namespace Pattern

/-- A group with a value, all of whose values can be stored. -/
structure Group.Proper (g : Group) : Prop where
  /-- There is a value. -/
  items_ne_nil : g.items ≠ []
  /-- The numbers have 64 bits. -/
  storable : ∀ p ∈ g.items, p.Storable

/-- A proper group; when it refers to a named pattern, with the values of its definition. -/
structure Group.Meant (lookup : String → NamedPattern) (g : Group) : Prop extends g.Proper where
  /-- The values of a named pattern are those of its definition. -/
  named : ∀ name, g.axis = some name → ∃ d, lookup name = .group d ∧ g.items = d.items

/-! ## One group -/

theorem rangeItems_ne_nil (hi lo : Nat) : rangeItems hi lo ≠ [] := by
  rw [rangeItems]
  split <;> simp

/-- The numbers of a range lie between its bounds. -/
theorem exists_of_mem_rangeItems {hi lo : Nat} {p : Part} (h : p ∈ rangeItems hi lo) :
    ∃ n : Nat, p = .number n ∧ n ≤ max hi lo := by
  rw [rangeItems] at h
  split at h
  · obtain ⟨k, hk, rfl⟩ := List.mem_map.mp h
    rw [List.mem_range] at hk
    exact ⟨hi - k, by simp only [Int.ofNat_eq_natCast, Part.number.injEq]; omega, by omega⟩
  · obtain ⟨k, hk, rfl⟩ := List.mem_map.mp h
    rw [List.mem_range] at hk
    exact ⟨hi + k, by simp only [Int.ofNat_eq_natCast, Part.number.injEq]; omega, by omega⟩

/-- The values of a range lie between its ends. -/
theorem storable_of_mem_rangeItems {hi lo : Nat} (hhi : hi < 2 ^ 63) (hlo : lo < 2 ^ 63) {p : Part}
    (h : p ∈ rangeItems hi lo) : p.Storable := by
  obtain ⟨n, rfl, hn⟩ := exists_of_mem_rangeItems h
  simp only [Part.Storable]
  omega

theorem proper_of_readEnumeration {raw : String} {content : List Char} {start stop : Nat}
    {g : Group} (h : (readEnumeration raw content start stop).1 = some g) :
    g.Proper ∧ g.axis = none := by
  rw [readEnumeration] at h
  split at h
  · cases h
  · simp only at h
    split at h
    · cases h
    · cases h
      refine ⟨⟨by simp [List.splitOn_ne_nil], fun p hp => ?_⟩, rfl⟩
      obtain ⟨item, _, rfl⟩ := List.mem_map.mp hp
      trivial

/-- A range that is read has values, and no name. -/
theorem proper_of_readRange {raw : String} {limit : Nat} {content : List Char}
    {start stop : Nat} {g : Group} (h : (readRange raw limit content start stop).1 = some g) :
    g.Proper ∧ g.axis = none := by
  rw [readRange] at h
  split at h
  · cases h
  · split at h
    · split at h
      · cases h
      · next hi lo hbounds =>
        obtain ⟨hhi, hlo⟩ := lt_of_readBounds? hbounds
        rw [countRange_eq hhi hlo] at h
        split at h
        · cases h
        · cases h
          exact ⟨⟨rangeItems_ne_nil _ _, fun p hp => storable_of_mem_rangeItems hhi hlo hp⟩, rfl⟩
    · cases h

section

variable {lookup : String → NamedPattern} (hl : ∀ name d, lookup name = .group d → d.Proper)

include hl

theorem meant_of_readNamed {name : List Char} {start stop : Nat} {g : Group}
    (h : (readNamed lookup name start stop).1 = some g) : g.Meant lookup := by
  rw [readNamed] at h
  split at h
  · cases h
  · split at h
    · cases h
    · cases h
    · rename_i d hd
      cases h
      refine ⟨⟨(hl _ d hd).items_ne_nil, (hl _ d hd).storable⟩, fun n hn => ⟨d, ?_, rfl⟩⟩
      rw [← Option.some.inj hn]
      exact hd

/-- A group that is read is proper, and a named one has the values of its definition. -/
theorem meant_of_readGroup {raw : String} {limit : Nat} {delimiter : Delimiter}
    {content : List Char} {start : Nat} {g : Group}
    (h : (readGroup lookup raw limit delimiter content start).1 = some g) : g.Meant lookup := by
  have hplain : g.Proper ∧ g.axis = none → g.Meant lookup := by
    rintro ⟨hproper, hax⟩
    refine ⟨hproper, fun name hn => ?_⟩
    rw [hax] at hn
    cases hn
  unfold readGroup at h
  split at h
  · exact hplain (proper_of_readRange h)
  · exact meant_of_readNamed hl h
  · exact hplain (proper_of_readEnumeration h)

/-! ## The whole reading -/

omit hl in
/-- The groups read so far are meant as the names say. -/
def Reading.Meant (lookup : String → NamedPattern) (r : Reading) : Prop :=
  (∀ g, .group g ∈ r.pieces → g.Meant lookup) ∧
    ∀ s ∈ r.segments, ∀ g, .group g ∈ s.pieces → g.Meant lookup

omit hl in
theorem Reading.Meant.note {r : Reading} (h : r.Meant lookup) (fs : List Finding) :
    (r.note fs).Meant lookup := h

omit hl in
theorem Reading.Meant.addPiece {r : Reading} (h : r.Meant lookup) {piece : Piece}
    (hp : ∀ g, piece = .group g → g.Meant lookup) :
    Reading.Meant lookup { r with pieces := piece :: r.pieces } := by
  refine ⟨fun g hg => ?_, h.2⟩
  rcases List.mem_cons.mp hg with heq | hg
  · exact hp g heq.symm
  · exact h.1 g hg

omit hl in
theorem Reading.Meant.finish {r : Reading} (h : r.Meant lookup) (raw : String) (stop : Nat) :
    (r.finish raw stop).Meant lookup := by
  have hseg : (r.finish raw stop).segments = ⟨r.pieces.reverse, r.start, stop⟩ :: r.segments := by
    rw [Reading.finish]
    split <;> rfl
  have hpieces : (r.finish raw stop).pieces = [] := by
    rw [Reading.finish]
  refine ⟨fun g hg => ?_, fun s hs g hg => ?_⟩
  · rw [hpieces] at hg
    cases hg
  · rw [hseg] at hs
    rcases List.mem_cons.mp hs with rfl | hs
    · exact h.1 g (List.mem_reverse.mp hg)
    · exact h.2 s hs g hg

omit hl in
theorem Reading.run_group {raw : String} {limit : Nat} {noSplice : Bool} (r : Reading)
    (start : Nat) (delimiter : Delimiter) (content : List Char) (rest : List Lexeme) :
    Reading.run lookup raw limit noSplice r (.group start delimiter content :: rest) =
      Reading.run lookup raw limit noSplice
        (match (readGroup lookup raw limit delimiter content start).1 with
          | some g =>
            { r.note (readGroup lookup raw limit delimiter content start).2 with
              pieces := .group g :: r.pieces }
          | none => r.note (readGroup lookup raw limit delimiter content start).2) rest := rfl

/-- By induction on the lexemes. -/
theorem Reading.Meant.run {raw : String} {limit : Nat} {noSplice : Bool} :
    ∀ (lexemes : List Lexeme) {r : Reading}, r.Meant lookup →
      (Reading.run lookup raw limit noSplice r lexemes).Meant lookup
  | [], r, h => by
      rw [Reading.run]
      split
      · exact (h.finish raw _).note _
      · exact h.finish raw _
  | lexeme :: rest, r, h => by
      cases lexeme with
      | text _ chars => exact Reading.Meant.run rest (h.addPiece fun g hg => by cases hg)
      | separator pos => exact Reading.Meant.run rest (h.finish raw pos)
      | group start delimiter content =>
          rw [Reading.run_group]
          cases hg : (readGroup lookup raw limit delimiter content start).1 with
          | none => exact Reading.Meant.run rest (h.note _)
          | some g =>
              refine Reading.Meant.run rest ((h.note _).addPiece fun g' hg' => ?_)
              cases hg'
              exact meant_of_readGroup hl hg
      | stray pos c => exact Reading.Meant.run rest h
      | nested start stop => exact h.note _
      | unclosed start stop d => exact h.note _

theorem meant_of_readWith {limit : Nat} {noSplice : Bool} {raw : String} {e : Expression}
    (h : (readWith lookup limit noSplice raw).1 = some e) :
    ∀ s ∈ e.segments, ∀ g ∈ s.groups, g.Meant lookup := by
  rw [readWith] at h
  split at h
  · cases h
  · simp only at h
    split at h
    · cases h
    · cases h
      have hstart : Reading.Meant lookup {} := ⟨by simp, by simp⟩
      have hrun : (Reading.run lookup raw limit noSplice {} (lexemes raw)).Meant lookup :=
        Reading.Meant.run hl (lexemes raw) hstart
      intro s hs g hg
      obtain ⟨piece, hp, hpg⟩ := List.mem_filterMap.mp hg
      have hpiece : piece = .group g := by
        cases piece with
        | text t => cases hpg
        | group g' => rw [← Option.some.inj hpg]
      exact hrun.2 s (List.mem_reverse.mp hs) g (hpiece ▸ hp)

end

/-! ## Named patterns -/

theorem proper_of_definitionGroup? {limit : Nat} {definition : String} {g : Group}
    (h : definitionGroup? limit definition = some g) : g.Proper := by
  rw [definitionGroup?] at h
  split at h
  · rename_i raw g' start stop heq
    split at h
    · cases h
      exact (meant_of_readWith (fun _ _ hd => by cases hd) heq _ (List.mem_singleton.mpr rfl) _
        (by simp [Segment.groups, Piece.group?])).toProper
    · cases h
  · cases h

/-- Named patterns are proper groups. -/
theorem Options.proper_of_lookup {o : Options} {name : String} {d : Group}
    (h : o.lookup name = .group d) : d.Proper := by
  rw [Options.lookup] at h
  split at h
  · cases h
  · split at h
    · rename_i g hg
      cases h
      exact proper_of_definitionGroup? hg
    · cases h

/-- The groups of an expression that was read are meant as the named patterns say. -/
theorem meant_of_read {o : Options} {raw : String} {e : Expression}
    (h : (read o raw).1 = some e) : ∀ s ∈ e.segments, ∀ g ∈ s.groups, g.Meant o.lookup :=
  meant_of_readWith (fun _ _ hd => Options.proper_of_lookup hd) h

/-- What names stand for depends on the named patterns and the limit only. -/
theorem Options.lookup_congr {o₁ o₂ : Options} (hn : o₁.named = o₂.named)
    (hl : o₁.limit = o₂.limit) : o₁.lookup = o₂.lookup := by
  funext name
  simp only [Options.lookup, hn, hl]

end Pattern

end Netlist
