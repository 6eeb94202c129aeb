import Netlist.Proofs.Atomize.Connectivity

/-!
# Atomized designs

A design that is atomized to a program was atomized without errors, one module after another, and
the result is sound.  So each module of the program is what a clean run of its declaration
made, and its connections are the declared ones (`Design.atomize_connected`).
-/

namespace Netlist

open Atomizing

/-! ## One module -/

/-- The state that a module starts in. -/
def Atomizing.start (i : AtomizeInput) (alloc : Allocator) : Atomizing :=
  { alloc := alloc
    modul :=
      { id := i.decl.id, name := i.decl.name, file := i.decl.file, span := i.decl.span,
        parameters := if i.decl.parameters.isEmpty then none else some i.decl.parameters } }

theorem Atomizing.start_consistent (i : AtomizeInput) (alloc : Allocator) :
    (start i alloc).Consistent := by
  refine ⟨⟨_, .empty _ _⟩, ⟨_, .empty _ _⟩, ⟨_, .empty _ _⟩, ?_, ?_, ?_, ?_, ?_, ?_⟩ <;>
    simp [start]

theorem Atomizing.Step.id_eq {s s' : Atomizing} {e : Event} (h : Step s e s') :
    s'.modul.id = s.modul.id := by
  cases h <;> rfl

theorem Atomizing.Trace.id_eq {s s' : Atomizing} {es : List Event} (h : Trace s es s') :
    s'.modul.id = s.modul.id := by
  induction h with
  | nil => rfl
  | cons hstep _ ih => rw [ih, hstep.id_eq]

variable {alloc : Allocator} {i : AtomizeInput} {s' : Atomizing} {maxAtoms : Int}

/-- A module made without errors is what a clean run ends with. -/
theorem clean_of_atomizeModule (h : (atomizeModule i alloc).hasErrors = false) :
    ∃ s', Clean (atomizeAll i) (start i alloc) () s' ∧
      s'.modul = (atomizeModule i alloc).value.1 ∧ s'.alloc = (atomizeModule i alloc).value.2 := by
  rw [atomizeModule, Logged.hasErrors_bind, Bool.or_eq_false_iff] at h
  exact ⟨_, ⟨rfl, h.1⟩, rfl, rfl⟩

theorem atomizeModule_of_clean (h : Clean (atomizeAll i) (start i alloc) () s') :
    (atomizeModule i alloc).value = (s'.modul, s'.alloc) ∧
      (atomizeModule i alloc).hasErrors = false := by
  constructor
  · exact congrArg (fun r => (r.2.modul, r.2.alloc)) h.value_eq
  · rw [atomizeModule, Logged.hasErrors_bind, Bool.or_eq_false_iff]
    exact ⟨h.no_errors, rfl⟩

theorem id_of_clean (h : Clean (atomizeAll i) (start i alloc) () s') : s'.modul.id = i.decl.id := by
  obtain ⟨s₁, _, _, _, _, _, hfirst, _, hlast⟩ := clean_atomizeAll h
  exact hlast.id_eq.trans hfirst.id_eq

/-- A sound module made without errors is connected as declared. -/
theorem connected_of_clean {p : Program}
    (h : Clean (atomizeAll i) (start i alloc) () s') (hsmall : s'.modul.Small)
    (hsound : s'.modul.Sound p) : s'.modul.Connected i := by
  obtain ⟨s₁, iss, ess, es, resolved, hdecl, hfirst, hresolves, hlast⟩ := clean_atomizeAll h
  have hrun : Run i (start i alloc) s₁ s' es resolved :=
    ⟨⟨start_consistent i alloc, rfl⟩, ⟨iss, ess, hdecl⟩, hfirst, hresolves, hlast, hsmall,
      hsound.instance_name⟩
  exact hrun.connected hsound

/-! ## All modules -/

/-- Modules made without errors are those of their declarations, in order. -/
theorem forall₂_atomizeModules {design : Design} :
    ∀ {decls : List DesignModule} {alloc : Allocator},
      (atomizeModules design maxAtoms alloc decls).hasErrors = false →
      List.Forall₂ (fun decl m => ∃ alloc' s', s'.modul = m ∧ Clean
          (atomizeAll ⟨design.expressions, decl, maxAtoms⟩)
          (start ⟨design.expressions, decl, maxAtoms⟩ alloc') () s')
        decls (atomizeModules design maxAtoms alloc decls).value.1
  | [], alloc, _ => .nil
  | decl :: decls, alloc, h => by
      rw [atomizeModules, Logged.hasErrors_bind, Bool.or_eq_false_iff] at h
      obtain ⟨hone, hrest⟩ := h
      obtain ⟨s', hclean, hmodul, _⟩ := clean_of_atomizeModule hone
      refine .cons ⟨alloc, s', hmodul, hclean⟩ (forall₂_atomizeModules ?_)
      exact (Bool.or_eq_false_iff.mp (Logged.hasErrors_bind .. ▸ hrest)).1

/-- The program that modules and devices make up. -/
def Design.programOf (design : Design) (modules : List Module) : Program :=
  { top := design.top
    modules := IdMap.ofItems Module.id modules
    devices := IdMap.ofItems Device.id design.devices }

/-- A design is atomized to a program exactly when no error was reported and its modules make up
a sound program. -/
theorem Design.atomize_eq_some_iff {design : Design}
    {p : Program} : (design.atomize alloc maxAtoms).value = some p ↔
      (atomizeModules design maxAtoms alloc design.modules).hasErrors = false ∧
      (design.programOf (atomizeModules design maxAtoms alloc design.modules).value.1).Sound ∧
      p = (design.programOf
        (atomizeModules design maxAtoms alloc design.modules).value.1).ordered := by
  rw [← Program.violations_eq_nil_iff, ← List.isEmpty_iff, atomize, Logged.value_bind]
  cases (atomizeModules design maxAtoms alloc design.modules).hasErrors with
  | true => simp
  | false =>
      simp only [Bool.false_eq_true, if_false, Logged.value_bind, true_and]
      change (Logged.value (if (design.programOf _).violations.isEmpty = true then _ else _)) =
        some p ↔ _
      split
      · rename_i hsound
        constructor
        · intro h
          exact ⟨hsound, (Option.some.inj h).symm⟩
        · rintro ⟨_, rfl⟩
          rfl
      · rename_i hsound
        exact iff_of_false (by simp) fun h => hsound h.1

/-! ## Designs of one module -/

theorem Design.getElem?_programOf_singleton {design : Design} {m m' : Module} {id : Ident} :
    (design.programOf [m]).modules[id]? = some m' ↔ m.id = id ∧ m = m' := by
  rw [programOf, IdMap.getElem?_ofItems, List.reverse_singleton]
  by_cases h : m.id = id <;> simp [h]

/-- A module that only has instances of devices makes up a sound program. -/
theorem Design.sound_programOf_singleton {design : Design} {m : Module} (htop : m.id = design.top)
    (hsound : m.Sound (design.programOf [m]))
    (hleaf : ∀ (k : Ident) (i : Instance), m.instances[k]? = some i → i.ref.kind ≠ .module_) :
    (design.programOf [m]).Sound := by
  constructor
  · exact Std.ExtTreeMap.mem_iff_isSome_getElem?.mpr
      (Option.isSome_of_eq_some (getElem?_programOf_singleton.mpr ⟨htop, rfl⟩))
  · intro k m' h
    rw [← (getElem?_programOf_singleton.mp h).2]
    exact hsound
  · intro a h
    obtain ⟨b, ⟨m', hm, _, k, i, hi, hkind, _⟩, _⟩ := Relation.TransGen.head'_iff.mp h
    rw [← (getElem?_programOf_singleton.mp hm).2] at hi
    exact hleaf k i hi hkind

theorem Design.atomize_of_clean {design : Design} {decl : DesignModule}
    (hone : design.modules = [decl])
    (hclean : Clean (atomizeAll ⟨design.expressions, decl, maxAtoms⟩)
      (start ⟨design.expressions, decl, maxAtoms⟩ alloc) () s')
    (hsound : (design.programOf [s'.modul]).Sound) :
    (design.atomize alloc maxAtoms).value = some (design.programOf [s'.modul]).ordered := by
  obtain ⟨hvalue, herrors⟩ := atomizeModule_of_clean hclean
  have hmodules : (atomizeModules design maxAtoms alloc design.modules).value.1 = [s'.modul] := by
    rw [hone]
    exact congrArg (fun r : Module × Allocator => [r.1]) hvalue
  refine atomize_eq_some_iff.mpr ⟨?_, hmodules ▸ hsound, by rw [hmodules]⟩
  rw [hone, atomizeModules, Logged.hasErrors_bind, Bool.or_eq_false_iff]
  exact ⟨herrors, rfl⟩

/-- An expression of one segment whose atoms differ. -/
theorem Pattern.expand_of_segment {o : Options} {raw : String} {s : Segment} {atoms : List Atom}
    (hread : read o raw = (some ⟨raw, [s]⟩, []))
    (hatoms : expandSegments o.limit 0 [s] = some atoms) (hnodup : (atoms.map (·.literal)).Nodup) :
    expand o raw = ⟨some ⟨raw, false, s.groups.isEmpty, atoms, s.groups.map axisOf⟩, []⟩ := by
  have hparse : parse o raw = ⟨some ⟨raw, [s]⟩, []⟩ := by
    rw [parse, hread]
    rfl
  rw [expand, hparse]
  simp only [Bind.bind, Logged.andThen, expandParsed, hatoms, (repeated_eq_nil_iff _).mpr hnodup,
    List.append_nil]
  rfl

/-! ## A design with one instance

The module of this design has one instance `u` of a device with the ports `p` and `q`.  Its net
`n` connects `u.p`, and a default binding joins `q` to `n`.  Its run is followed step by step,
since a look-up by a text does not compute. -/

namespace OneInstance

/-- What `u` is an instance of. -/
def ref : Ref := ⟨.device, .ofText "d1", "d"⟩

/-- The default binding of `q`. -/
def binding : DesignBinding := ⟨"q", .ofText "x3", .fileStart 0⟩

def nameText : DesignExpression := ⟨.ofText "x1", .moduleName, "top", .fileStart 0⟩

def instanceText : DesignExpression := ⟨.ofText "x2", .instance_, "u", .fileStart 0⟩

def netText : DesignExpression := ⟨.ofText "x3", .net, "n", .fileStart 0⟩

def endpointText : DesignExpression := ⟨.ofText "x4", .endpoint, "u.p", .fileStart 0⟩

/-- The declaration of the module. -/
def decl : DesignModule :=
  { id := .ofText "m1", name := "top", nameExpression := nameText.id, file := 0,
    span := .fileStart 0
    patterns := [], parameters := []
    nets := [⟨netText.id, false, [⟨endpointText.id, false⟩]⟩]
    instances := [⟨instanceText.id, ref, []⟩]
    defaults := [⟨ref, .fileStart 0, [binding]⟩] }

/-- The device. -/
def device : Device := { id := ref.id, name := "d", ports := some ["p", "q"] }

/-- The design. -/
def design : Design :=
  { top := decl.id
    modules := [decl]
    devices := [device]
    expressions := IdMap.ofItems DesignExpression.id
      [nameText, instanceText, netText, endpointText] }

/-- What its module is atomized with. -/
def input : AtomizeInput := ⟨design.expressions, decl, 0⟩

/-- The instance `u` of the result. -/
def inst : Instance := { id := .ofNumber .instance_ 1, name := "u", ref := ref }

/-- The net `n` of the result. -/
def net : Net := { id := .ofNumber .net 1, name := "n" }

/-- The binding of `u.p`, which an endpoint asks for. -/
def explicit : Bound :=
  ⟨{ id := .ofNumber .endpoint 1, net := net.id, inst := inst.id, port := "p" }, false⟩

/-- The binding of `u.q`, which the default makes. -/
def implicit : Bound :=
  ⟨{ id := .ofNumber .endpoint 2, net := net.id, inst := inst.id, port := "q",
     isDefault := true }, false⟩

/-! ### Its states -/

/-- After the instances. -/
def withInst : Atomizing := (start input {}).withInstance inst

/-- After the net, and before its endpoint. -/
def withBoth : Atomizing := withInst.withNet net

/-- After the endpoint. -/
def connected : Atomizing := withBoth.withEndpoint explicit

/-- At the end. -/
def final : Atomizing := connected.withEndpoint implicit

theorem getElem?_instances : withBoth.instances["u"]? = some inst :=
  Std.HashMap.getElem?_insertIfNew.trans (by simp [inst, start])

theorem getElem?_nets : connected.nets[netText.raw]? = some net :=
  Std.HashMap.getElem?_insertIfNew.trans (by simp [net, netText, start, withInst, withInstance])

theorem getElem?_bound : connected.bound[(inst.id, "q")]? = none :=
  Std.HashMap.getElem?_insert.trans
    (by simp [explicit, start, withInst, withBoth, withNet, withInstance])

/-! ### Its expressions -/

/-- The expressions of the design are in an input, and are read there as in this one. -/
structure Reads (i : AtomizeInput) : Prop where
  options_eq : i.options = input.options
  getElem?_eq : ∀ e ∈ [nameText, instanceText, netText, endpointText],
    i.expressions[e.id]? = some e

theorem reads_input : Reads input := by
  refine ⟨rfl, fun e he => ?_⟩
  rw [input, design, IdMap.getElem?_ofItems]
  fin_cases he <;> decide +kernel

/-- An expression without groups stands for its own text. -/
theorem expand_literal {o : Pattern.Options} {raw : String}
    (hread : Pattern.read o raw = (some ⟨raw, [⟨[.text raw], 0, raw.utf8ByteSize⟩]⟩, []))
    (hatoms : Pattern.expandSegments o.limit 0 [⟨[.text raw], 0, raw.utf8ByteSize⟩] =
      some [⟨raw, raw, 0, []⟩]) :
    Pattern.expand o raw = ⟨some ⟨raw, false, true, [⟨raw, raw, 0, []⟩], []⟩, []⟩ :=
  Pattern.expand_of_segment hread hatoms (List.nodup_singleton raw)

theorem clean_expand {i : AtomizeInput} {e : DesignExpression} {noSplice : Bool} {s : Atomizing}
    (he : i.expressions[e.id]? = some e) (hread : Pattern.read (i.options e noSplice) e.raw =
      (some ⟨e.raw, [⟨[.text e.raw], 0, e.raw.utf8ByteSize⟩]⟩, []))
    (hatoms : Pattern.expandSegments (i.options e noSplice).limit 0
      [⟨[.text e.raw], 0, e.raw.utf8ByteSize⟩] = some [⟨e.raw, e.raw, 0, []⟩]) :
    Clean (Atomize.logged (i.expand e.id noSplice)) s
      (some (e, ⟨e.raw, false, true, [⟨e.raw, e.raw, 0, []⟩], []⟩)) s := by
  have hexpand : i.expand e.id noSplice =
      ⟨some (e, ⟨e.raw, false, true, [⟨e.raw, e.raw, 0, []⟩], []⟩), []⟩ := by
    simp only [AtomizeInput.expand, AtomizeInput.expression, he, pure_bind,
      expand_literal hread hatoms]
    rfl
  rw [hexpand]
  exact clean_logged.mpr ⟨rfl, rfl, rfl⟩

/-! ### Its run -/

section

variable {i : AtomizeInput} (hi : Reads i)

include hi

theorem clean_name (hname : i.decl.nameExpression = nameText.id) :
    Clean (atomizeName i) (start input {}) () (start input {}) := by
  have htext : Clean (Atomize.logged (i.expand i.decl.nameExpression true)) (start input {}) _ _ :=
    hname ▸ clean_expand (hi.getElem?_eq nameText (by simp))
      (by rw [hi.options_eq]; decide +kernel) (by rw [hi.options_eq]; decide +kernel)
  exact clean_bind.mpr ⟨_, _, htext, clean_modify.mpr rfl⟩

theorem clean_instance : Clean (atomizeInstance i ⟨instanceText.id, ref, []⟩) (start input {})
    () withInst :=
  clean_bind.mpr ⟨_, _, clean_expand (hi.getElem?_eq instanceText (by simp))
    (by rw [hi.options_eq]; decide +kernel) (by rw [hi.options_eq]; decide +kernel), ⟨rfl, rfl⟩⟩

/-- The endpoint expression is connected as its only atom is. -/
theorem clean_endpoint {isSuppressed : Bool} {s s' : Atomizing}
    (h : Clean (connect endpointText isSuppressed ⟨⟨"u.p", "u.p", 0, []⟩, "u", "p"⟩ net) s () s') :
    Clean (atomizeEndpoint i ⟨"n", false, true, [⟨"n", "n", 0, []⟩], []⟩ #[net]
      ⟨endpointText.id, isSuppressed⟩) s () s' := by
  have hexpression : i.expression endpointText.id = ⟨some endpointText, []⟩ := by
    rw [AtomizeInput.expression, hi.getElem?_eq endpointText (by simp)]
    rfl
  have hexpand : Pattern.expandEndpoint (i.options endpointText false) "u.p" =
      ⟨some (⟨"u.p", false, true, [⟨"u.p", "u.p", 0, []⟩], []⟩,
        [⟨⟨"u.p", "u.p", 0, []⟩, "u", "p"⟩]), []⟩ := by
    rw [hi.options_eq, Pattern.expandEndpoint,
      expand_literal (by decide +kernel) (by decide +kernel)]
    rfl
  refine clean_bind.mpr ⟨some endpointText, s, ?_, ?_⟩
  · rw [hexpression]
    exact clean_logged.mpr ⟨rfl, rfl, rfl⟩
  · refine clean_bind.mpr ⟨_, s, clean_logged.mpr ⟨congrArg Logged.value hexpand, rfl,
      congrArg Logged.hasErrors hexpand⟩, ?_⟩
    refine clean_bind.mpr ⟨some ⟨.scalar, [0]⟩, s, clean_logged.mpr ⟨rfl, rfl, rfl⟩, ?_⟩
    exact clean_bind.mpr ⟨_, _, clean_forIn_singleton (clean_yield.mpr ⟨rfl, h⟩),
      clean_pure.mpr ⟨rfl, rfl⟩⟩

/-- The net is made before its endpoint expressions are expanded. -/
theorem clean_net {eps : List DesignEndpoint} {s' : Atomizing}
    (h : Clean (forIn eps PUnit.unit fun ep _ => do
      atomizeEndpoint i ⟨"n", false, true, [⟨"n", "n", 0, []⟩], []⟩ #[net] ep
      pure (ForInStep.yield PUnit.unit)) withBoth ⟨⟩ s') :
    Clean (atomizeNet i ⟨netText.id, false, eps⟩) withInst () s' := by
  have htext : Clean (Atomize.logged (i.expand netText.id false)) withInst _ _ :=
    clean_expand (hi.getElem?_eq netText (by simp)) (by rw [hi.options_eq]; decide +kernel)
      (by rw [hi.options_eq]; decide +kernel)
  refine clean_bind.mpr ⟨_, _, htext, ?_⟩
  refine clean_bind.mpr ⟨[net], withBoth, ⟨rfl, rfl⟩, ?_⟩
  exact clean_bind.mpr ⟨_, _, h, clean_pure.mpr ⟨rfl, rfl⟩⟩

end

theorem clean_connect :
    Clean (connect endpointText false ⟨⟨"u.p", "u.p", 0, []⟩, "u", "p"⟩ net) withBoth ()
      connected := by
  have hbound : withBoth.bound[(inst.id, "p")]? = none := Std.HashMap.getElem?_empty
  refine clean_bind.mpr ⟨_, _, clean_get.mpr ⟨rfl, rfl⟩, ?_⟩
  rw [getElem?_instances]
  dsimp only
  rw [hbound]
  exact ⟨rfl, rfl⟩

theorem clean_defaultNet : Clean (defaultNet input binding) connected (some net) connected := by
  refine clean_bind.mpr ⟨_, _, clean_expand (reads_input.getElem?_eq netText (by simp))
    (by decide +kernel) (by decide +kernel), ?_⟩
  refine clean_bind.mpr ⟨_, _, clean_get.mpr ⟨rfl, rfl⟩, ?_⟩
  dsimp only
  rw [getElem?_nets]
  exact clean_pure.mpr ⟨rfl, rfl⟩

theorem clean_resolve : Clean (input.decl.defaults.mapM fun d =>
    resolveBindings input d.ref.id d.bindings) connected
    [[⟨ref.id, "q", net, .fileStart 0⟩]] connected := by
  have hone : Clean (resolveBindings input ref.id [binding]) connected
      [⟨ref.id, "q", net, .fileStart 0⟩] connected :=
    clean_bind.mpr ⟨_, _, clean_defaultNet,
      clean_bind.mpr ⟨_, _, clean_pure.mpr ⟨rfl, rfl⟩, clean_pure.mpr ⟨rfl, rfl⟩⟩⟩
  change Clean ([_].mapM _) _ _ _
  rw [List.mapM_cons]
  exact clean_bind.mpr ⟨_, _, hone,
    clean_bind.mpr ⟨_, _, clean_pure.mpr ⟨rfl, rfl⟩, clean_pure.mpr ⟨rfl, rfl⟩⟩⟩

theorem clean_default :
    Clean (applyDefault inst ⟨ref.id, "q", net, .fileStart 0⟩) connected () final := by
  refine clean_bind.mpr ⟨_, _, clean_get.mpr ⟨rfl, rfl⟩, ?_⟩
  rw [getElem?_bound]
  exact ⟨rfl, rfl⟩

theorem clean_all : Clean (atomizeAll input) (start input {}) () final := by
  refine clean_bind.mpr ⟨_, _, clean_name reads_input rfl, ?_⟩
  refine clean_bind.mpr ⟨_, _,
    clean_forIn_singleton (clean_yield.mpr ⟨rfl, clean_instance reads_input⟩), ?_⟩
  refine clean_bind.mpr ⟨_, _, clean_forIn_singleton (clean_yield.mpr ⟨rfl, clean_net reads_input
    (clean_forIn_singleton (clean_yield.mpr ⟨rfl, clean_endpoint reads_input clean_connect⟩))⟩), ?_⟩
  refine clean_bind.mpr ⟨_, _, clean_resolve, ?_⟩
  refine clean_bind.mpr ⟨_, _, clean_get.mpr ⟨rfl, rfl⟩, ?_⟩
  refine clean_bind.mpr ⟨_, _, clean_forIn_singleton (clean_yield.mpr ⟨rfl, ?_⟩),
    clean_pure.mpr ⟨rfl, rfl⟩⟩
  refine clean_forIn_singleton ?_
  rw [if_pos (show (ref.id == inst.ref.id) = true from beq_iff_eq.mpr rfl)]
  exact clean_yield.mpr ⟨rfl, clean_default⟩

/-! ### Its program -/

theorem eq_inst {k : Ident} {x : Instance} (h : final.modul.instances[k]? = some x) :
    k = inst.id ∧ x = inst := by
  rcases IdMap.of_getElem?_insert h with h | h
  · exact h
  · simp [start] at h

theorem eq_net {k : Ident} {x : Net} (h : final.modul.nets[k]? = some x) :
    k = net.id ∧ x = net := by
  rcases IdMap.of_getElem?_insert h with h | h
  · exact h
  · simp [start, withInst, withInstance] at h

theorem eq_endpoint {k : Ident} {x : Endpoint} (h : final.modul.endpoints[k]? = some x) :
    x = explicit.endpoint ∨ x = implicit.endpoint := by
  rcases IdMap.of_getElem?_insert h with ⟨_, rfl⟩ | h
  · exact .inr rfl
  · rcases IdMap.of_getElem?_insert h with ⟨_, rfl⟩ | h
    · exact .inl rfl
    · simp [start, withInst, withInstance, withBoth, withNet] at h

theorem size_instances : final.modul.instances.size = 1 := by
  change (Std.ExtTreeMap.insert ∅ inst.id inst : IdMap Instance).size = 1
  simp [Std.ExtTreeMap.size_insert]

theorem size_nets : final.modul.nets.size = 1 := by
  change (Std.ExtTreeMap.insert ∅ net.id net : IdMap Net).size = 1
  simp [Std.ExtTreeMap.size_insert]

theorem size_endpoints : final.modul.endpoints.size = 2 := by
  change ((Std.ExtTreeMap.insert ∅ explicit.endpoint.id explicit.endpoint : IdMap Endpoint).insert
    implicit.endpoint.id implicit.endpoint).size = 2
  have hne : Ident.compare explicit.endpoint.id implicit.endpoint.id ≠ .eq := by decide +kernel
  simp [Std.ExtTreeMap.size_insert, hne]

theorem small : final.modul.Small := by
  refine ⟨?_, ?_, ?_⟩
  · rw [size_instances]
    decide
  · rw [size_nets]
    decide
  · rw [size_endpoints]
    decide

theorem sound_module : final.modul.Sound (design.programOf [final.modul]) := by
  have hinst : final.modul.instances[inst.id]? = some inst :=
    Std.ExtTreeMap.getElem?_insert_self
  have hnet : net.id ∈ final.modul.nets := Std.ExtTreeMap.mem_insert_self
  have hdevice : (design.programOf [final.modul]).devices[ref.id]? = some device := by
    rw [Design.programOf, IdMap.getElem?_ofItems]
    decide +kernel
  constructor
  · intro k₁ k₂ _ _ h₁ h₂ _
    rw [(eq_net h₁).1, (eq_net h₂).1]
  · intro k₁ k₂ _ _ h₁ h₂ _
    rw [(eq_inst h₁).1, (eq_inst h₂).1]
  · intro k x h
    obtain ⟨-, rfl⟩ := eq_inst h
    exact .inr ⟨rfl, Std.ExtTreeMap.mem_iff_isSome_getElem?.mpr (Option.isSome_of_eq_some hdevice)⟩
  · intro k x h
    rcases eq_endpoint h with rfl | rfl
    · exact ⟨hnet, _, hinst, .inr ⟨rfl, _, hdevice, by decide⟩⟩
    · exact ⟨hnet, _, hinst, .inr ⟨rfl, _, hdevice, by decide⟩⟩
  · intro k₁ k₂ _ _ h₁ h₂ _ _
    rcases eq_endpoint h₁ with rfl | rfl <;> rcases eq_endpoint h₂ with rfl | rfl <;> rfl
  · exact List.nodup_nil
  · intro port h
    cases h

theorem getElem?_modules :
    (design.programOf [final.modul]).modules[decl.id]? = some final.modul :=
  Design.getElem?_programOf_singleton.mpr ⟨rfl, rfl⟩

theorem sound_program : (design.programOf [final.modul]).Sound := by
  refine Design.sound_programOf_singleton rfl sound_module fun k x hx => ?_
  obtain ⟨-, rfl⟩ := eq_inst hx
  exact RefKind.device_ne_module

theorem atomize_eq : (design.atomize {} 0).value = some (design.programOf [final.modul]).ordered :=
  Design.atomize_of_clean rfl clean_all sound_program

end OneInstance

/-! ## Connections -/

/-- Every module of an atomized program is connected as its declaration says.  Of several
declarations with the same identifier the last one counts. -/
theorem Design.atomize_connected {design : Design} {alloc : Allocator} {maxAtoms : Int}
    {p : Program} (h : (design.atomize alloc maxAtoms).value = some p) {id : Ident} {m : Module}
    (hm : p.modules[id]? = some m) (hsmall : m.Small) :
    ∃ decl, design.modules.reverse.find? (·.id == id) = some decl ∧
      m.Connected ⟨design.expressions, decl, maxAtoms⟩ := by
  obtain ⟨hclean, hsound, rfl⟩ := atomize_eq_some_iff.mp h
  have hget : (design.programOf
      (atomizeModules design maxAtoms alloc design.modules).value.1).modules[id]? = some m := hm
  have hlast := hget
  rw [programOf, IdMap.getElem?_ofItems] at hlast
  have hid : ∀ decl m', (∃ alloc' s', s'.modul = m' ∧ Clean
      (atomizeAll ⟨design.expressions, decl, maxAtoms⟩)
      (start ⟨design.expressions, decl, maxAtoms⟩ alloc') () s') →
      (decl.id == id) = (m'.id == id) := by
    rintro decl m' ⟨alloc', s', rfl, hrun⟩
    rw [id_of_clean hrun]
  rcases forall₂_find? (List.forall₂_reverse_iff.mpr (forall₂_atomizeModules hclean)) hid with
    ⟨_, hnone⟩ | ⟨decl, m', hdecl, hm', alloc', s', rfl, hrun⟩
  · rw [hnone] at hlast
    cases hlast
  · obtain rfl := Option.some.inj (hm'.symm.trans hlast)
    exact ⟨decl, hdecl, connected_of_clean hrun hsmall (hsound.modules id _ hget)⟩

theorem Design.atomize_connected_one_instance :
    (OneInstance.design.atomize {} 0).value =
        some (OneInstance.design.programOf [OneInstance.final.modul]).ordered ∧
      OneInstance.final.modul.Small ∧ OneInstance.final.modul.endpoints.size = 2 ∧
      ∃ decl, OneInstance.design.modules.reverse.find? (·.id == OneInstance.decl.id) = some decl ∧
        OneInstance.final.modul.Connected ⟨OneInstance.design.expressions, decl, 0⟩ :=
  ⟨OneInstance.atomize_eq, OneInstance.small, OneInstance.size_endpoints,
    atomize_connected OneInstance.atomize_eq OneInstance.getElem?_modules OneInstance.small⟩

end Netlist
