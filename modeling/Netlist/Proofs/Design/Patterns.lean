import Netlist.Design.Build
import Netlist.Proofs.Diagnostic.Reports
import Netlist.Proofs.Pattern.Grammar

/-!
# Named patterns, as they are checked and as they are used

The definitions of named patterns are checked when a module is built, and read again where an
expression refers to them.  The check goes by the limit for expressions without one of their own,
the use by the limit of the session.  The limit concerns ranges only, so a definition that the
session takes passes the check unless it is a range with more values than the check allows
(`validateNamed_eq_true_iff`).  With a session whose limit is not above that of the check, the two
agree (`patterns_checked_as_used`); `longRange_refused` is a definition that they differ on.
-/

namespace Netlist

namespace Pattern

/-! ## Limits -/

/-- A group that a limit does not refuse. -/
def FitsLimit (limit : Nat) (kind : GroupKind) (items : List Part) : Prop :=
  kind = .enumeration ∨ items.length ≤ limit

section

variable {limit limit' : Nat} {cs : List Char} {kind : GroupKind} {items : List Part}

theorem PlainGroup.fitsLimit (h : PlainGroup limit cs kind items) : FitsLimit limit kind items := by
  cases h with
  | enumeration => exact .inl rfl
  | range _ _ hlimit =>
      refine .inr ?_
      rw [length_rangeItems]
      exact hlimit

/-- A text of a group is one with any other limit that does not refuse the group. -/
theorem PlainGroup.relimit (h : PlainGroup limit cs kind items)
    (hfits : FitsLimit limit' kind items) : PlainGroup limit' cs kind items := by
  cases h with
  | enumeration hplain hname hitems => exact .enumeration hplain hname hitems
  | range hfirst hsecond =>
      rcases hfits with hkind | hlength
      · cases hkind
      · rw [length_rangeItems] at hlength
        exact .range hfirst hsecond hlength

theorem FitsLimit.mono (h : FitsLimit limit kind items) (hle : limit ≤ limit') :
    FitsLimit limit' kind items :=
  h.imp_right fun hlength => hlength.trans hle

end

/-- A definition that is a group with one limit is a group with another one exactly if that limit
does not refuse it. -/
theorem isSome_definitionGroup?_iff {limit limit' : Nat} {definition : String} {g : Group}
    (h : definitionGroup? limit definition = some g) :
    (definitionGroup? limit' definition).isSome = true ↔ FitsLimit limit' g.kind g.items := by
  have hplain := definitionGroup?_iff.mp ⟨g, h, rfl, rfl⟩
  rw [Option.isSome_iff_exists]
  constructor
  · rintro ⟨g', h'⟩
    have hplain' := definitionGroup?_iff.mp ⟨g', h', rfl, rfl⟩
    -- with the larger limit both are read from the same text
    obtain ⟨a, ha, hkind, hitems⟩ := definitionGroup?_iff.mpr
      (hplain.relimit (hplain.fitsLimit.mono (Nat.le_max_left limit limit')))
    obtain ⟨b, hb, hkind', hitems'⟩ := definitionGroup?_iff.mpr
      (hplain'.relimit (hplain'.fitsLimit.mono (Nat.le_max_right limit limit')))
    obtain rfl : a = b := Option.some.inj (ha.symm.trans hb)
    rw [← hkind, ← hitems, hkind', hitems']
    exact hplain'.fitsLimit
  · intro hfits
    obtain ⟨g', h', _⟩ := definitionGroup?_iff.mpr (hplain.relimit hfits)
    exact ⟨g', h'⟩

/-! ## References -/

/-- The options of a session with a limit and one named pattern. -/
def Options.naming (maxAtoms : Int) (name definition : String) : Options :=
  { maxAtoms := maxAtoms, named := [(name, definition)] }

variable {name definition : String} {maxAtoms : Int}

theorem Options.lookup_naming {name name' definition : String} {g : Group}
    (h : (naming maxAtoms name definition).lookup name' = .group g) :
    name' = name ∧
      definitionGroup? (naming maxAtoms name definition).limit definition = some g := by
  rw [lookup] at h
  split at h
  · cases h
  · next key definition' hentry =>
    have hname := List.find?_some hentry
    obtain ⟨rfl, rfl⟩ := Prod.mk.inj (List.mem_singleton.mp (List.mem_of_find?_eq_some hentry))
    split at h
    · next g' hg' =>
      cases h
      exact ⟨(beq_iff_eq.mp hname).symm, hg'⟩
    · cases h

/-- What a reference starts with is read as the reference to a named pattern. -/
theorem named_of_readGroup {lookup : String → NamedPattern} {raw : String} {limit start : Nat}
    {name : List Char} {g : Group}
    (h : (readGroup lookup raw limit .angle ('@' :: name) start).1 = some g) :
    isAxisName (String.ofList name) = true ∧ ∃ d, lookup (String.ofList name) = .group d ∧
      g.kind = d.kind ∧ g.items = d.items := by
  rw [readGroup, readNamed] at h
  split at h
  · cases h
  · next hname =>
    split at h
    · cases h
    · cases h
    · next d hd =>
      cases h
      exact ⟨by simpa using hname, d, hd, rfl, rfl⟩

theorem Lexed.eq_nil {pos : Nat} {ls : List Lexeme} (h : Lexed pos [] ls) : ls = [] := by
  generalize hcs : [] = cs at h
  cases h with
  | nil => rfl
  | text hne => exact absurd (List.append_eq_nil_iff.mp hcs.symm).1 hne
  | group => cases hcs
  | separator => cases hcs

/-- A reference that was read is a single group, that of the definition.  A name that holds a
bracket would be cut there, and what is left of it is not the name of the pattern. -/
theorem definition_of_parse {e : Expression}
    (h : (parse (.naming maxAtoms name definition) ("<@" ++ name ++ ">")).value = some e) :
    isAxisName name = true ∧ ∃ g d, e.segments.flatMap Segment.groups = [g] ∧
      definitionGroup? (Options.naming maxAtoms name definition).limit definition = some d ∧
      g.kind = d.kind ∧ g.items = d.items := by
  obtain ⟨_, _, _, hassembled⟩ := readWith_eq_some_iff.mp h
  have hlexed := lexed_lexemes hassembled.isProper
  have hraw : ("<@" ++ name ++ ">").toList = '<' :: '@' :: (name.toList ++ ['>']) := by simp
  rw [hraw] at hlexed
  generalize hcs : '<' :: '@' :: (name.toList ++ ['>']) = cs at hlexed
  generalize lexemes ("<@" ++ name ++ ">") = ls at hlexed hassembled
  generalize 0 = pos at hlexed
  generalize e.segments = segments at hassembled ⊢
  cases hlexed with
  | nil => cases hcs
  | @text _ run _ _ hne hplain =>
      obtain ⟨c, run, rfl⟩ := List.exists_cons_of_ne_nil hne
      obtain ⟨rfl, _⟩ := List.cons.inj hcs
      exact absurd (hplain '<' (List.mem_cons_self ..)) (by decide)
  | separator => exact absurd (List.cons.inj hcs).1 (by decide)
  | @group _ d content rest ls _ hrest =>
      obtain ⟨hopening, hcs⟩ := List.cons.inj hcs
      obtain rfl : d = .angle := by
        cases d with
        | angle => rfl
        | square => exact absurd hopening (by decide)
      cases content with
      | nil => exact absurd (List.cons.inj hcs).1 (by decide)
      | cons c content =>
          obtain ⟨rfl, hcs⟩ := List.cons.inj hcs
          cases hassembled with
          | group hg hassembled =>
              obtain ⟨hname, d, hd, hkind, hitems⟩ := named_of_readGroup hg
              obtain ⟨rfl, hdefinition⟩ := Options.lookup_naming hd
              refine ⟨hname, _, d, ?_, hdefinition, hkind, hitems⟩
              rw [String.toList_ofList] at hcs
              obtain ⟨_, rfl⟩ : '>' = Delimiter.angle.closing ∧ rest = [] := by simpa using hcs
              cases hrest.eq_nil
              cases hassembled
              rfl

/-- A definition that a session takes passes the check exactly if the limit of the check does not
refuse it. -/
theorem validateNamed_eq_true_iff {e : Expression}
    (h : (parse (.naming maxAtoms name definition) ("<@" ++ name ++ ">")).value = some e)
    (span : Span) : ∃ g, e.segments.flatMap Segment.groups = [g] ∧
      ((validateNamed name definition span).value = true ↔
        FitsLimit defaultMaxAtoms g.kind g.items) := by
  obtain ⟨hname, g, d, hg, hd, hkind, hitems⟩ := definition_of_parse h
  refine ⟨g, hg, ?_⟩
  rw [hkind, hitems, ← isSome_definitionGroup?_iff hd, validateNamed, hname]
  cases definitionGroup? defaultMaxAtoms definition with
  | none => simp
  | some d' => simp

theorem log_validateNamed (name definition : String) (span : Span) :
    (validateNamed name definition span).log = [] ↔
      (validateNamed name definition span).value = true := by
  unfold validateNamed
  split
  · simp
  · split
    · simp
    · simp

/-- A limit that is not above that of the check. -/
theorem Options.limit_le {o : Options} (h : o.maxAtoms ≤ defaultMaxAtoms) :
    o.limit ≤ defaultMaxAtoms := by
  rw [limit]
  split
  · exact Nat.le_refl _
  · omega

theorem validateNamed_of_parse
    (h : (parse (.naming maxAtoms name definition) ("<@" ++ name ++ ">")).value.isSome = true)
    (hle : maxAtoms ≤ defaultMaxAtoms) (span : Span) :
    (validateNamed name definition span).value = true := by
  obtain ⟨e, he⟩ := Option.isSome_iff_exists.mp h
  obtain ⟨g, hg, hiff⟩ := validateNamed_eq_true_iff he span
  obtain ⟨_, g', d, hg', hd, hkind, hitems⟩ := definition_of_parse he
  obtain rfl : g = g' := List.singleton_inj.mp (hg.symm.trans hg')
  rw [hiff, hkind, hitems]
  exact (definitionGroup?_iff.mp ⟨d, hd, rfl, rfl⟩).fitsLimit.mono (Options.limit_le hle)

end Pattern

/-! ## Modules -/

theorem Build.forIn_logged {α β : Type} (x : α → Logged β) : ∀ (l : List α) (state : BuildState),
    (forIn l PUnit.unit fun a _ => do
      let _ ← Build.logged (x a)
      pure (ForInStep.yield PUnit.unit) : Build PUnit) state =
        ⟨(PUnit.unit, state), l.flatMap fun a => (x a).log⟩
  | [], _ => rfl
  | a :: l, state => by
      have ih := Build.forIn_logged x l state
      have hfirst : (do
          let _ ← Build.logged (x a)
          pure (ForInStep.yield PUnit.unit) : Build (ForInStep PUnit)) state =
            ⟨(ForInStep.yield PUnit.unit, state), (x a).log⟩ := by
        refine Logged.ext rfl ?_
        rw [Logged.log_bind_run, Logged.pure_run, Build.logged, Logged.log_bind, Logged.log_pure,
          List.append_nil, List.append_nil]
      rw [List.forIn_cons]
      refine Logged.ext ?_ ?_
      · have hvalue := congrArg Logged.value ih
        rw [Logged.value_bind_run, hfirst]
        exact hvalue
      · have hlog := congrArg Logged.log ih
        rw [Logged.log_bind_run, hfirst, List.flatMap_cons]
        exact congrArg ((x a).log ++ ·) hlog

theorem log_buildModule (input : BuildInput) (s : Symbol) (m : ModuleDecl) (state : BuildState) :
    (buildModule input s m state).log =
      (m.patterns.flatMap fun p =>
        (Pattern.validateNamed p.key.text p.value.text p.value.span).log) ++
      (buildModule input s { m with patterns := [] } state).log := by
  unfold buildModule
  have hname : (Build.addExpression .moduleName m.name state).log = [] := rfl
  simp only [Logged.log_bind_run, Build.forIn_logged, Logged.pure_run, hname, List.flatMap_nil,
    List.nil_append]

/-- A session with a limit takes the named patterns of a module. -/
def ModuleDecl.PatternsTaken (m : ModuleDecl) (maxAtoms : Int) : Prop :=
  ∀ p ∈ m.patterns, (Pattern.parse (.naming maxAtoms p.key.text p.value.text)
    ("<@" ++ p.key.text ++ ">")).value.isSome = true

/-- Whatever the limit of the session, a definition that it takes passes the check exactly if it is
not a range with more values than the check allows; building a module reports what the check of its
patterns does, and then what it reports without patterns.  So a session whose limit is not above
that of the check takes no definition that the check refuses, and building a module whose patterns
it takes reports nothing about them. -/
theorem patterns_checked_as_used (maxAtoms : Int) :
    (∀ name definition span, ∀ e ∈ (Pattern.parse (.naming maxAtoms name definition)
      ("<@" ++ name ++ ">")).value, ∃ g, e.segments.flatMap Pattern.Segment.groups = [g] ∧
        ((Pattern.validateNamed name definition span).value = true ↔
          g.kind = .enumeration ∨ g.items.length ≤ Pattern.defaultMaxAtoms)) ∧
    (∀ input s m state, (buildModule input s m state).log =
      (m.patterns.flatMap fun p =>
        (Pattern.validateNamed p.key.text p.value.text p.value.span).log) ++
      (buildModule input s { m with patterns := [] } state).log) ∧
    (maxAtoms ≤ Pattern.defaultMaxAtoms →
      (∀ name definition span, (Pattern.parse (.naming maxAtoms name definition)
        ("<@" ++ name ++ ">")).value.isSome = true →
          (Pattern.validateNamed name definition span).value = true) ∧
      ∀ input s m state, ModuleDecl.PatternsTaken m maxAtoms →
        (buildModule input s m state).log =
          (buildModule input s { m with patterns := [] } state).log) := by
  refine ⟨fun name definition span e he => Pattern.validateNamed_eq_true_iff he span,
    log_buildModule, fun hle =>
    ⟨fun name definition span h => Pattern.validateNamed_of_parse h hle span, ?_⟩⟩
  intro input s m state htaken
  have hnone : (m.patterns.flatMap fun p =>
      (Pattern.validateNamed p.key.text p.value.text p.value.span).log) = [] :=
    List.flatMap_eq_nil_iff.mpr fun p hp =>
      (Pattern.log_validateNamed _ _ _).mpr (Pattern.validateNamed_of_parse (htaken p hp) hle _)
  rw [log_buildModule, hnone, List.nil_append]

/-- A session with a higher limit takes a range that the check refuses. -/
theorem longRange_refused :
    (Pattern.parse (.naming 20000 "r" "[10000:0]") "<@r>").value.isSome = true ∧
      (Pattern.validateNamed "r" "[10000:0]" Span.nowhere).value = false := by
  constructor
  · decide +kernel
  · decide +kernel

end Netlist
