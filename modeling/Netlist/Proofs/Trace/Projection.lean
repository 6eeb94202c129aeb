import Netlist.Proofs.Trace.Ring
import Netlist.Trace.Tracer

/-!
# A level shows a part of the trace

`Calls` are calls to a tracer in which every step ends after all that began inside it.  A
tracer does the same for all calls as for those of the scopes that its level records, with
what is inside a step left out moved to the step around it (`run_restrict`).  If all scopes
are recorded, the events do not depend on the level: they are the `transcript` of the calls,
in which the begin and the end of a step say the same about its place (`run_eq_after`).
-/

namespace Netlist.Trace

/-- The event without its time. -/
def Event.untimed (e : Event) : Event := { e with time := 0 }

/-- The ring has the slots for some events, and 64 bits are enough to count them. -/
def Ring.LargeEnough (r : Ring) (count : Nat) : Prop := count ≤ r.capacity ∧ count < 2 ^ 64

/-- What a call says, with the remark at the end of a step. -/
structure Label where
  scope : Scope
  name : String
  detail : String

/-- Calls to a tracer, well nested. -/
inductive Calls where
  | done
  /-- An instant, and the calls after it. -/
  | point (l : Label) (rest : Calls)
  /-- A step, the calls inside it and the calls after it. -/
  | span (l : Label) (inner rest : Calls)

namespace Calls

/-- Makes the calls at a place.  `clock n` is the time of event number `n`. -/
def run (clock : UInt64 → Int) : Calls → Place → Tracer → Tracer
  | done, _, t => t
  | point l rest, p, t => rest.run clock p (t.point (clock (t.seq + 1)) l.scope l.name l.detail p)
  | span l inner rest, p, t =>
      let begun := t.start (clock (t.seq + 1)) l.scope l.name p
      let t := inner.run clock begun.1.place begun.2
      rest.run clock p (t.finish (clock (t.seq + 1)) begun.1 l.detail)

/-- Calls and then others. -/
def append : Calls → Calls → Calls
  | done, after => after
  | point l rest, after => point l (rest.append after)
  | span l inner rest, after => span l inner (rest.append after)

/-- The calls of some scopes.  What is inside a step of another scope moves to the step
around it. -/
def restrict (keep : Scope → Bool) : Calls → Calls
  | done => done
  | point l rest =>
      if keep l.scope then point l (rest.restrict keep) else rest.restrict keep
  | span l inner rest =>
      if keep l.scope then span l (inner.restrict keep) (rest.restrict keep)
      else (inner.restrict keep).append (rest.restrict keep)

/-- All calls have a property. -/
def All (P : Label → Prop) : Calls → Prop
  | done => True
  | point l rest => P l ∧ rest.All P
  | span l inner rest => P l ∧ inner.All P ∧ rest.All P

/-- How many events there are when all scopes are recorded. -/
def eventCount : Calls → Nat
  | done => 0
  | point _ rest => rest.eventCount + 1
  | span _ inner rest => inner.eventCount + rest.eventCount + 2

/-- How many steps there are. -/
def spanCount : Calls → Nat
  | done => 0
  | point _ rest => rest.spanCount
  | span _ inner rest => 1 + inner.spanCount + rest.spanCount

theorem All.append {P : Label → Prop} {a b : Calls} (ha : a.All P) (hb : b.All P) :
    (a.append b).All P := by
  induction a with
  | done => exact hb
  | point l rest ih => exact ⟨ha.1, ih ha.2⟩
  | span l inner rest _ ih => exact ⟨ha.1, ha.2.1, ih ha.2.2⟩

/-- What is left has the scopes that are kept. -/
theorem All.restrict {P Q : Label → Prop} {keep : Scope → Bool} {c : Calls} (h : c.All P)
    (hQ : ∀ l, keep l.scope = true → P l → Q l) : (c.restrict keep).All Q := by
  induction c with
  | done => trivial
  | point l rest ih =>
      rw [Calls.restrict]
      split
      · next hkeep => exact ⟨hQ l hkeep h.1, ih h.2⟩
      · exact ih h.2
  | span l inner rest ihInner ihRest =>
      rw [Calls.restrict]
      split
      · next hkeep => exact ⟨hQ l hkeep h.1, ihInner h.2.1, ihRest h.2.2⟩
      · exact (ihInner h.2.1).append (ihRest h.2.2)

end Calls

/-! ## What is left out -/

namespace Tracer

variable {t : Tracer} {now : Int} {scope : Scope} {name detail : String} {p : Place}

@[simp] theorem level_start : (t.start now scope name p).2.level = t.level := by
  rw [start]
  split <;> rfl

@[simp] theorem level_finish {s : Span} : (t.finish now s detail).level = t.level := by
  rw [finish]
  split <;> rfl

@[simp] theorem level_point : (t.point now scope name detail p).level = t.level := by
  rw [point]
  split <;> rfl

/-- A step that is not recorded leaves the tracer alone. -/
theorem start_of_not_records (h : t.level.records scope = false) :
    t.start now scope name p = ({ recorded := false, own := p, place := p }, t) := by
  rw [start, h, Bool.and_false]
  rfl

theorem point_of_not_records (h : t.level.records scope = false) :
    t.point now scope name detail p = t := by
  rw [point, h, Bool.and_false]
  rfl

/-- A tracer that is off records nothing. -/
theorem enabled_and_records (h : t.level.records scope = true) :
    (t.enabled && t.level.records scope) = true := by
  rw [h, Bool.and_true, enabled, bne_iff_ne]
  intro hoff
  rw [hoff] at h
  cases h

end Tracer

namespace Calls

section

variable {clock : UInt64 → Int} (c : Calls) (p : Place) (t : Tracer)

/-- Calls one after the other. -/
theorem run_append (after : Calls) :
    (c.append after).run clock p t = after.run clock p (c.run clock p t) := by
  induction c generalizing p t with
  | done => rfl
  | point l rest ih => exact ih p _
  | span l inner rest _ ih => exact ih p _

@[simp] theorem level_run : (c.run clock p t).level = t.level := by
  induction c generalizing p t with
  | done => rfl
  | point l rest ih => rw [run, ih, Tracer.level_point]
  | span l inner rest ihInner ihRest =>
      rw [run, ihRest, Tracer.level_finish, ihInner, Tracer.level_start]

/-- Calls of scopes that the level does not record leave no trace. -/
theorem run_restrict {keep : Scope → Bool} (hkeep : t.level.records = keep) :
    (c.restrict keep).run clock p t = c.run clock p t := by
  induction c generalizing p t with
  | done => rfl
  | point l rest ih =>
      rw [restrict, run]
      split
      · rw [run, ih _ _ (by simpa using hkeep)]
      · next h =>
        rw [Tracer.point_of_not_records (by simpa [hkeep] using h), ih _ _ hkeep]
  | span l inner rest ihInner ihRest =>
      rw [restrict, run]
      split
      · rw [run, ihInner _ _ (by simpa using hkeep), ihRest _ _ (by simpa using hkeep)]
      · -- the step is passed over, and so are its begin and its end
        next h =>
        rw [Tracer.start_of_not_records (by simpa [hkeep] using h), run_append, ihInner _ _ hkeep,
          ihRest _ _ (by simpa using hkeep)]
        rfl

end

/-! ## What is recorded -/

/-- An event inside steps, each with its number and its name, the outermost first. -/
def eventIn (around : List (UInt64 × String)) (time : Int) (seq : UInt64) (kind : Kind)
    (id : UInt64) (l : Label) : Event where
  time := time
  seq := seq
  kind := kind
  scope := l.scope
  spanId := id
  parentId := (around.getLast?.map (·.1)).getD 0
  depth := around.length
  path := "/".intercalate (around.map (·.2) ++ [l.name])
  name := l.name
  detail := l.detail
  extra := []

/-- The steps around what is inside a step.  A step whose number has come round to zero does
not count among them. -/
def within (around : List (UInt64 × String)) (id : UInt64) (name : String) :
    List (UInt64 × String) :=
  if id == 0 then around else around ++ [(id, name)]

/-- The events of the calls inside some steps, when all scopes are recorded.  Events and
steps are numbered on from `seq` and `spans`. -/
def transcript (clock : UInt64 → Int) :
    Calls → List (UInt64 × String) → UInt64 → UInt64 → List Event
  | done, _, _, _ => []
  | point l rest, around, seq, spans =>
      eventIn around (clock (seq + 1)) (seq + 1) .point 0 l ::
        rest.transcript clock around (seq + 1) spans
  | span l inner rest, around, seq, spans =>
      let id := spans + 1
      let last := seq + 1 + UInt64.ofNat inner.eventCount + 1
      eventIn around (clock (seq + 1)) (seq + 1) .start id { l with detail := "" } ::
        (inner.transcript clock (within around id l.name) (seq + 1) id ++
          eventIn around (clock last) last .finish id l ::
            rest.transcript clock around last (id + UInt64.ofNat inner.spanCount))

section

variable {clock : UInt64 → Int} (c : Calls) (around : List (UInt64 × String)) (seq spans : UInt64)

theorem length_transcript : (c.transcript clock around seq spans).length = c.eventCount := by
  induction c generalizing around seq spans with
  | done => rfl
  | point l rest ih => rw [transcript, List.length_cons, ih, eventCount]
  | span l inner rest ihInner ihRest =>
      rw [transcript, List.length_cons, List.length_append, List.length_cons, ihInner, ihRest,
        eventCount]
      omega

/-- Without times, the clock does not matter. -/
theorem untimed_transcript : (c.transcript clock around seq spans).map Event.untimed =
    c.transcript (fun _ => 0) around seq spans := by
  induction c generalizing around seq spans with
  | done => rfl
  | point l rest ih =>
      rw [transcript, List.map_cons, ih]
      rfl
  | span l inner rest ihInner ihRest =>
      rw [transcript, List.map_cons, List.map_append, List.map_cons, ihInner, ihRest]
      rfl

variable {c}

/-- Only scopes of the calls occur. -/
theorem All.scope_transcript {keep : Scope → Bool} (h : c.All fun l => keep l.scope = true) :
    ∀ e ∈ c.transcript clock around seq spans, keep e.scope = true := by
  induction c generalizing around seq spans with
  | done => simp [transcript]
  | point l rest ih => exact List.forall_mem_cons.mpr ⟨h.1, ih _ _ _ h.2⟩
  | span l inner rest ihInner ihRest =>
      exact List.forall_mem_cons.mpr ⟨h.1, List.forall_mem_append.mpr
        ⟨ihInner _ _ _ h.2.1, List.forall_mem_cons.mpr ⟨h.1, ihRest _ _ _ h.2.2⟩⟩⟩

end

end Calls

/-- The place inside steps. -/
def Place.inside (around : List (UInt64 × String)) : Place where
  spanId := (around.getLast?.map (·.1)).getD 0
  path := "/".intercalate (around.map (·.2))
  depth := around.length

section

variable {around : List (UInt64 × String)} (haround : ∀ s ∈ around, s.2 ≠ "")
include haround

theorem Place.childPath_inside (name : String) :
    (inside around).childPath name = "/".intercalate (around.map (·.2) ++ [name]) := by
  rw [childPath]
  cases around with
  | nil => rfl
  | cons s rest =>
      have hne : (inside (s :: rest)).path ≠ "" := by
        rw [inside, List.map_cons]
        cases rest with
        | nil => simpa using haround s (List.mem_cons_self ..)
        | cons r rest => simp [String.intercalate_cons_cons]
      rw [if_neg (by simpa using hne), String.intercalate_append_of_ne_nil (by simp) (by simp),
        String.intercalate_singleton]
      rfl

/-- A step inside others is the innermost of them. -/
theorem Place.child_inside (id : UInt64) (name : String) :
    (inside around).child id name = inside (around ++ [(id, name)]) := by
  rw [child, childPath_inside haround]
  simp [inside]

end

namespace Tracer

/-- The tracer after it has recorded events, some of them begins of steps. -/
def after (t : Tracer) (events : List Event) (steps : Nat) : Tracer :=
  { t with
    ring := t.ring.map fun r => events.foldl Ring.emit r
    seq := t.seq + UInt64.ofNat events.length
    spans := t.spans + UInt64.ofNat steps }

variable {t : Tracer}

@[simp] theorem seq_after {events : List Event} {steps : Nat} :
    (t.after events steps).seq = t.seq + UInt64.ofNat events.length := rfl

@[simp] theorem spans_after {events : List Event} {steps : Nat} :
    (t.after events steps).spans = t.spans + UInt64.ofNat steps := rfl

/-- Events one after the other. -/
theorem after_after (a b : List Event) (m n : Nat) :
    (t.after a m).after b n = t.after (a ++ b) (m + n) := by
  simp [after, Function.comp_def, UInt64.add_assoc]

variable {now : Int} {l : Label} {around : List (UInt64 × String)} (hstream : t.stream = .none)
include hstream

theorem emit_eq_after (event : UInt64 → Event) : t.emit event = t.after [event (t.seq + 1)] 0 := by
  simp [emit, after, hstream]

theorem finish_eq_after {id : UInt64} {p : Place} :
    t.finish now ⟨true, .inside (around ++ [(id, l.name)]), p, (Place.inside around).spanId,
        l.scope, l.name, []⟩ l.detail =
      t.after [Calls.eventIn around now (t.seq + 1) .finish id l] 0 := by
  rw [finish, if_pos rfl, emit_eq_after hstream]
  simp [Place.inside, Calls.eventIn]

variable (hrecords : t.level.records l.scope = true) (haround : ∀ s ∈ around, s.2 ≠ "")
include hrecords haround

theorem point_eq_after : t.point now l.scope l.name l.detail (.inside around) =
    t.after [Calls.eventIn around now (t.seq + 1) .point 0 l] 0 := by
  rw [point, if_pos (enabled_and_records hrecords), emit_eq_after hstream,
    Place.childPath_inside haround]
  rfl

/-- A step leaves an event and has the next number. -/
theorem start_eq_after : t.start now l.scope l.name (.inside around) =
    (⟨true, .inside (around ++ [(t.spans + 1, l.name)]),
        .inside (Calls.within around (t.spans + 1) l.name), (Place.inside around).spanId, l.scope,
        l.name, []⟩,
      t.after [Calls.eventIn around now (t.seq + 1) .start (t.spans + 1)
        { l with detail := "" }] 1) := by
  rw [start, if_pos (enabled_and_records hrecords)]
  simp only [Place.child_inside haround, emit_eq_after hstream, Calls.within,
    apply_ite Place.inside]
  simp [Place.inside, Calls.eventIn, after]

end Tracer

namespace Calls

/-- The steps around what is inside a step have names if it has one. -/
theorem forall_mem_within {around : List (UInt64 × String)} (haround : ∀ s ∈ around, s.2 ≠ "")
    {name : String} (hname : name ≠ "") (id : UInt64) : ∀ s ∈ within around id name, s.2 ≠ "" := by
  unfold within
  split
  · exact haround
  · exact List.forall_mem_append.mpr ⟨haround, by simpa using hname⟩

/-- When all scopes are recorded, the transcript is what is recorded. -/
theorem run_eq_after {clock : UInt64 → Int} (c : Calls) (around : List (UInt64 × String))
    (t : Tracer) (hstream : t.stream = none) (haround : ∀ s ∈ around, s.2 ≠ "")
    (hscopes : c.All fun l => t.level.records l.scope = true) (hnames : c.All (·.name ≠ "")) :
    c.run clock (.inside around) t =
      t.after (c.transcript clock around t.seq t.spans) c.spanCount := by
  induction c generalizing around t with
  | done => simp [run, transcript, spanCount, Tracer.after]
  | point l rest ih =>
      rw [run, Tracer.point_eq_after hstream hscopes.1 haround,
        ih _ (t.after _ 0) hstream haround hscopes.2 hnames.2, Tracer.after_after, Nat.zero_add,
        Tracer.spans_after]
      simp [transcript, spanCount]
  | span l inner rest ihInner ihRest =>
      have hinner := forall_mem_within haround hnames.1 (t.spans + 1)
      simp only [run]
      rw [Tracer.start_eq_after hstream hscopes.1 haround]
      simp only
      rw [ihInner _ (t.after _ _) hstream hinner hscopes.2.1 hnames.2.1, Tracer.after_after,
        Tracer.finish_eq_after (t := t.after _ _) hstream, Tracer.after_after,
        ihRest _ (t.after _ _) hstream haround hscopes.2.2 hnames.2.2, Tracer.after_after]
      simp only [Tracer.seq_after, Tracer.spans_after, List.length_append, List.length_singleton,
        length_transcript, Nat.add_zero, UInt64.ofNat_add, ← UInt64.add_assoc]
      simp [transcript, spanCount]

/-! ## Rings that are large enough -/

/-- The events that a ring keeps of the calls, with the counters started anywhere. -/
def recorded (clock : UInt64 → Int) (level : Level) (capacity : Int) (seq spans : UInt64)
    (c : Calls) : List Event :=
  (c.run clock {} { Tracer.withRing level capacity with seq := seq, spans := spans }).events

variable {clock : UInt64 → Int} {level : Level} {capacity : Int} {seq spans : UInt64} {c : Calls}

/-- A ring that is large enough keeps the transcript. -/
theorem recorded_eq_transcript (hscopes : c.All fun l => level.records l.scope = true)
    (hnames : c.All (·.name ≠ "")) (hlarge : (Ring.new capacity level).LargeEnough c.eventCount) :
    c.recorded clock level capacity seq spans = c.transcript clock [] seq spans := by
  obtain ⟨hslots, hcount⟩ := hlarge
  rw [← length_transcript c [] seq spans] at hslots hcount
  have hfilter : (c.transcript clock [] seq spans).filter
      ((Ring.new capacity level).level.records ·.scope) = c.transcript clock [] seq spans :=
    List.filter_eq_self.mpr (hscopes.scope_transcript [] seq spans)
  have hholds := (Ring.Holds.new capacity level).foldl_emit (c.transcript clock [] seq spans)
    (by simpa using hcount)
  calc c.recorded clock level capacity seq spans
      = ((c.transcript clock [] seq spans).foldl Ring.emit (Ring.new capacity level)).snapshot :=
        congrArg Tracer.events (run_eq_after c [] _ rfl (by simp) hscopes hnames)
    _ = c.transcript clock [] seq spans := by
        rw [hholds.snapshot_eq, Ring.capacity_foldl_emit, List.nil_append, hfilter,
          Nat.sub_eq_zero_of_le hslots, List.drop_zero]

/-- Levels are projections: a ring that is large enough keeps at a level what it keeps of the
calls of the scopes that the level records when everything is recorded. -/
theorem recorded_is_projection (c : Calls) (hnames : c.All (·.name ≠ "")) (level : Level)
    (capacity capacity' : Int)
    (hlarge : (Ring.new capacity level).LargeEnough (c.restrict level.records).eventCount)
    (hlarge' : (Ring.new capacity' .debug).LargeEnough (c.restrict level.records).eventCount)
    (clock clock' : UInt64 → Int) (seq spans : UInt64) :
    (c.recorded clock level capacity seq spans).map Event.untimed =
        ((c.restrict level.records).recorded clock' .debug capacity' seq spans).map Event.untimed ∧
      c.recorded clock level capacity seq spans =
        (c.restrict level.records).transcript clock [] seq spans := by
  have hnamed : (c.restrict level.records).All (·.name ≠ "") := hnames.restrict fun _ _ h => h
  have hlevel : c.recorded clock level capacity seq spans =
      (c.restrict level.records).transcript clock [] seq spans := by
    rw [← recorded_eq_transcript (hnames.restrict fun _ h _ => h) hnamed hlarge]
    exact congrArg Tracer.events (run_restrict c _ _ rfl).symm
  have hdebug : (c.restrict level.records).recorded clock' .debug capacity' seq spans =
      (c.restrict level.records).transcript clock' [] seq spans :=
    recorded_eq_transcript (hnames.restrict fun _ _ _ => rfl) hnamed hlarge'
  refine ⟨?_, hlevel⟩
  rw [hlevel, hdebug, untimed_transcript, untimed_transcript]

/-- A file inside a run is passed over, and the stage inside the file is found below the run. -/
theorem recorded_is_projection_stage :
    let c := span ⟨.run, "r", ""⟩
      (span ⟨.file, "f", ""⟩ (span ⟨.stage, "s", "ok"⟩ done done) done) done
    let events := c.recorded (fun n => n.toNat) .stage 4 0 0
    events.map Event.untimed =
        ((c.restrict Level.stage.records).recorded (fun _ => 0) .debug 0 0 0).map Event.untimed ∧
      events.map (fun e => (e.kind, e.spanId, e.parentId, e.depth, e.path)) =
        [(.start, 1, 0, 0, "r"), (.start, 2, 1, 1, "r/s"), (.finish, 2, 1, 1, "r/s"),
          (.finish, 1, 0, 0, "r")] := by
  intro c events
  have hnames : c.All (·.name ≠ "") :=
    ⟨by decide, ⟨by decide, ⟨by decide, trivial, trivial⟩, trivial⟩, trivial⟩
  have hproj := recorded_is_projection c hnames .stage 4 0 ⟨by decide, by decide⟩
    ⟨by decide, by decide⟩ (fun n => n.toNat) (fun _ => 0) 0 0
  exact ⟨hproj.1, congrArg (List.map _) hproj.2⟩

end Calls

end Netlist.Trace
