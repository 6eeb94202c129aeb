import Netlist.Pattern.Render
import Netlist.Proofs.Related

/-!
# Runs of atoms

Two neighbouring atoms join when they end in parts of one kind after the same text.  Cut
where neighbours do not join, a list of atoms falls into runs, and each of these is written
by itself (`renderRuns_eq_map`): a single atom as it is, and any other run as the text that
its atoms share with a group for their last parts.  The group is a range when the parts are
consecutive numbers (`eq_map_range`) and an enumeration of the parts otherwise.
-/

namespace Netlist

theorem Part.sameKind_comm (p q : Part) : p.sameKind q = q.sameKind p := by
  cases p <;> cases q <;> rfl

theorem Part.sameKind_trans {p q r : Part} (h : p.sameKind q = true) (h' : q.sameKind r = true) :
    p.sameKind r = true := by
  cases p <;> cases q <;> cases r <;> simp_all [Part.sameKind]

theorem Part.sameKind_self (p : Part) : p.sameKind p = true := by
  cases p <;> rfl

namespace Pattern

/-! ## Atoms that join -/

/-- Whether two atoms end in parts of one kind after the same text. -/
def joins (a b : Atom) : Bool :=
  (splitLast? a).any fun x => (splitLast? b).any fun y => x.1 == y.1 && x.2.sameKind y.2

/-- The longest runs of neighbours that join. -/
def runs (atoms : List Atom) : List (List Atom) := atoms.splitBy joins

/-- The last parts of atoms. -/
def lastParts (run : List Atom) : List Part := run.filterMap fun a => (splitLast? a).map Prod.snd

/-- The text before the last part of the first of some atoms. -/
def runStem (run : List Atom) : List Char := ((run.head?.bind splitLast?).map Prod.fst).getD []

/-- The parts of each group that atoms are folded into: those of the runs with more than one
atom. -/
def foldedGroups (atoms : List Atom) : List (List Part) :=
  ((runs atoms).filter (1 < ·.length)).map lastParts

/-- The atom ends in a part of some kind after a text. -/
def EndsIn (stem : List Char) (kind : Part) (a : Atom) (p : Part) : Prop :=
  splitLast? a = some (stem, p) ∧ p.sameKind kind = true

variable {stem : List Char} {parts : List Part} {run : List Atom} {kind : Part} {a b : Atom}

theorem joins_eq_true_iff : joins a b = true ↔
    ∃ stem p, splitLast? a = some (stem, p) ∧ ∃ q, EndsIn stem p b q := by
  simp only [joins, Option.any_eq_true, Bool.and_eq_true, beq_iff_eq, Prod.exists, EndsIn]
  constructor
  · rintro ⟨stem, p, ha, _, q, hb, rfl, hkind⟩
    exact ⟨stem, p, ha, q, hb, by rwa [Part.sameKind_comm]⟩
  · rintro ⟨stem, p, ha, q, hb, hkind⟩
    exact ⟨stem, p, ha, stem, q, hb, rfl, by rwa [Part.sameKind_comm]⟩

/-- What an atom joins with ends as the atom does. -/
theorem EndsIn.joins_iff {kind p : Part}
    (h : EndsIn stem kind a p) : joins a b = true ↔ ∃ q, EndsIn stem kind b q := by
  rw [joins_eq_true_iff]
  constructor
  · rintro ⟨stem', p', ha, q, hb, hkind⟩
    cases h.1.symm.trans ha
    exact ⟨q, hb, Part.sameKind_trans hkind h.2⟩
  · rintro ⟨q, hb, hkind⟩
    refine ⟨stem, p, h.1, q, hb, Part.sameKind_trans hkind ?_⟩
    rw [Part.sameKind_comm]
    exact h.2

theorem isChain_of_endsIn (h : List.Forall₂ (EndsIn stem kind) run parts) :
    run.IsChain fun a b => joins a b = true := by
  induction h with
  | nil => exact .nil
  | @cons a p run parts hfirst hrest ih =>
      cases hrest with
      | nil => exact .singleton a
      | cons hnext _ => exact .cons_cons (hfirst.joins_iff.mpr ⟨_, hnext⟩) ih

theorem exists_endsIn_of_isChain : ∀ {run : List Atom} {a : Atom}
    {p : Part}, EndsIn stem kind a p → (a :: run).IsChain (fun a b => joins a b = true) →
    ∃ parts, List.Forall₂ (EndsIn stem kind) (a :: run) (p :: parts)
  | [], a, p, h, _ => ⟨[], .cons h .nil⟩
  | b :: run, a, p, h, hchain => by
      obtain ⟨hjoins, hrest⟩ := List.isChain_cons_cons.mp hchain
      obtain ⟨q, hq⟩ := h.joins_iff.mp hjoins
      obtain ⟨parts, hparts⟩ := exists_endsIn_of_isChain hq hrest
      exact ⟨q :: parts, .cons h hparts⟩

/-- The atoms of a run end in parts of one kind after the same text. -/
theorem exists_endsIn_of_mem_runs {atoms : List Atom}
    (h : a :: b :: run ∈ runs atoms) : ∃ stem first parts,
      List.Forall₂ (EndsIn stem first) (a :: b :: run) (first :: parts) := by
  have hchain := List.isChain_of_mem_splitBy h
  obtain ⟨stem, first, ha, -⟩ := joins_eq_true_iff.mp (List.isChain_cons_cons.mp hchain).1
  obtain ⟨parts, hparts⟩ := exists_endsIn_of_isChain ⟨ha, first.sameKind_self⟩ hchain
  exact ⟨stem, first, parts, hparts⟩

theorem lastParts_eq (h : List.Forall₂ (EndsIn stem kind) run parts) : lastParts run = parts := by
  induction h with
  | nil => rfl
  | cons hfirst _ ih =>
      rw [lastParts, List.filterMap_cons, hfirst.1]
      exact congrArg _ ih

theorem runStem_eq {a : Atom}
    (h : List.Forall₂ (EndsIn stem kind) (a :: run) parts) : runStem (a :: run) = stem := by
  cases h with
  | cons hfirst _ => rw [runStem, List.head?_cons, Option.bind_some, hfirst.1]; rfl

/-- A run ends where an atom does not end as its atoms do. -/
theorem runs_append {run left : List Atom}
    (hne : run ≠ []) (h : List.Forall₂ (EndsIn stem kind) run parts)
    (hleft : ∀ a ∈ left.head?, ∀ p, ¬ EndsIn stem kind a p) :
    runs (run ++ left) = run :: runs left := by
  have hcut : ∀ a ∈ run.getLast?, ∀ b ∈ left.head?, joins a b = false := by
    intro a ha b hb
    obtain ⟨p, -, hp⟩ := forall₂_exists_of_mem h (List.mem_of_getLast? ha)
    rw [← Bool.not_eq_true, hp.joins_iff]
    rintro ⟨q, hq⟩
    exact hleft b hb q hq
  rw [runs, List.splitBy_append hcut, List.splitBy_of_isChain hne (isChain_of_endsIn h)]
  rfl

/-- An atom that does not end in its last part joins with none. -/
theorem runs_cons {a : Atom} (h : splitLast? a = none) (rest : List Atom) :
    runs (a :: rest) = [a] :: runs rest := by
  have hcut : ∀ x ∈ [a].getLast?, ∀ b ∈ rest.head?, joins x b = false := by
    intro x hx b _
    obtain rfl : a = x := Option.some.inj hx
    rw [joins, h]
    rfl
  rw [runs, ← List.singleton_append, List.splitBy_append hcut,
    List.splitBy_of_isChain (List.cons_ne_nil a []) (.singleton a)]
  rfl

/-! ## What is written for a run -/

/-- A run in pattern notation. -/
def renderRun (run : List Atom) : String :=
  match run with
  | [a] => a.literal
  | run => String.ofList (runStem run) ++ renderGroup (lastParts run)

theorem renderRun_of_endsIn (h : List.Forall₂ (EndsIn stem kind) (a :: b :: run) parts) :
    renderRun (a :: b :: run) = String.ofList stem ++ renderGroup parts := by
  have hrun : renderRun (a :: b :: run) =
    String.ofList (runStem (a :: b :: run)) ++ renderGroup (lastParts (a :: b :: run)) := rfl
  rw [hrun, runStem_eq h, lastParts_eq h]

/-- The atoms that continue a run are taken, up to the first that does not. -/
theorem takeRun_spec (stem : List Char) (kind : Part) : ∀ atoms : List Atom,
    ∃ front, atoms = front ++ (takeRun stem kind atoms).2 ∧
      List.Forall₂ (EndsIn stem kind) front (takeRun stem kind atoms).1 ∧
      ∀ a ∈ (takeRun stem kind atoms).2.head?, ∀ p, ¬ EndsIn stem kind a p
  | [] => ⟨[], rfl, .nil, by simp [takeRun]⟩
  | a :: rest => by
      rw [takeRun]
      split
      · next hnone =>
        refine ⟨[], rfl, .nil, ?_⟩
        intro x hx p hp
        cases hx
        cases hnone.symm.trans hp.1
      · next s p hsome =>
        split
        · next hcontinues =>
          rw [Bool.and_eq_true, beq_iff_eq] at hcontinues
          obtain ⟨rfl, hkind⟩ := hcontinues
          obtain ⟨front, hrest, hfront, hleft⟩ := takeRun_spec s kind rest
          exact ⟨a :: front, congrArg (a :: ·) hrest, .cons ⟨hsome, hkind⟩ hfront, hleft⟩
        · next hstops =>
          refine ⟨[], rfl, .nil, ?_⟩
          intro x hx q hq
          cases hx
          cases hsome.symm.trans hq.1
          exact hstops (by simpa using hq.2)

/-- Rendering writes the runs one after the other. -/
theorem renderRuns_eq_map (atoms : List Atom) : renderRuns atoms = (runs atoms).map renderRun := by
  fun_induction renderRuns atoms with
  | case1 => rfl
  | case2 a rest hnone ih => rw [runs_cons hnone, List.map_cons, ih]; rfl
  | case3 a rest stem first hsome left htake ih =>
      -- nothing continues the run, so it is the atom alone
      obtain ⟨front, hrest, hfront, hleft⟩ := takeRun_spec stem first rest
      rw [htake] at hrest hfront hleft
      cases hfront
      have hcut := runs_append (List.cons_ne_nil a [])
        (.cons (⟨hsome, first.sameKind_self⟩ : EndsIn stem first a first) .nil) hleft
      rw [List.nil_append] at hrest
      rw [ih, hrest]
      rw [List.singleton_append] at hcut
      rw [hcut, List.map_cons]
      rfl
  | case4 a rest stem first hsome p parts left htake ih =>
      obtain ⟨front, hrest, hfront, hleft⟩ := takeRun_spec stem first rest
      rw [htake] at hrest hfront hleft
      have hrun : List.Forall₂ (EndsIn stem first) (a :: front) (first :: p :: parts) :=
        .cons ⟨hsome, first.sameKind_self⟩ hfront
      rw [hrest, ← List.cons_append, runs_append (List.cons_ne_nil _ _) hrun hleft, List.map_cons,
        ih]
      cases hfront with
      | cons hnext hmore => rw [renderRun_of_endsIn hrun]

/-! ## Consecutive numbers -/

theorem wrap64_eq_self {n : Int} (h : -2 ^ 63 < n ∧ n < 2 ^ 63) : Decimal.wrap64 n = n := by
  rw [Decimal.wrap64]
  exact Int.bmod_eq_of_le (by omega) (by omega)

/-- Numbers that follow one another by a step. -/
theorem eq_map_range {step : Int} : ∀ {rest : List Part} {p : Part},
    (∀ q ∈ p :: rest, q.isNumber = true ∧ 0 ≤ q.value ∧ q.value < 2 ^ 63) →
    stepsBy step (p :: rest) = true →
    p :: rest = (List.range (rest.length + 1)).map fun k => .number (p.value + step * (k : Nat))
  | [], p, h, _ => by
      have hp := (h p (List.mem_cons_self ..)).1
      cases p <;> simp_all [Part.isNumber, Part.value]
  | q :: rest, p, h, hsteps => by
      have hp := h p (List.mem_cons_self ..)
      have hq := h q (by simp)
      -- the difference of two numbers below 2⁶³ does not wrap around
      rw [stepsBy, Bool.and_eq_true, beq_iff_eq, wrap64_eq_self (by omega)] at hsteps
      have ih := eq_map_range (fun r hr => h r (List.mem_cons_of_mem _ hr)) hsteps.2
      have hnumber : p = .number p.value := by
        cases p with
        | number n => rfl
        | literal _ => cases hp.1
        | unset => cases hp.1
      rw [List.length_cons, List.range_succ_eq_map, List.map_cons, List.map_map]
      congr 1
      · simpa using hnumber
      · rw [ih]
        refine List.map_congr_left fun k _ => ?_
        simp only [Function.comp_apply, Part.number.injEq, Nat.cast_succ, Int.mul_add]
        omega

end Pattern

end Netlist
