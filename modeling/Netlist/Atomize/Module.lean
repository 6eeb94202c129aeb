import Netlist.Axis.Bind
import Netlist.Design.Basic
import Netlist.Pattern.Endpoint

/-!
# Atomizing a module

The expressions of a module are expanded in order: its name, its instances, its
nets with their endpoints, and last the default bindings.  Each atom becomes a
thing of the module with an identifier of its own.  What is wrong with one
expression is reported, and the expression is left out.
-/

namespace Netlist

/-- What can be wrong while a module is atomized. -/
inductive AtomizeProblem where
  | unknownExpression (modul : String) (id : Ident)
  | notOneModuleName (raw : String) (count : Nat)
  | paramLength (param raw : String) (count : Nat) (inst : String) (instCount : Nat)
  | unknownInstance (atom inst : String)
  | portBoundTwice (inst port firstNet secondNet : String) (first : Span)
  | notOneDefaultNet (port raw : String)
  | unknownDefaultNet (port net modul : String)
  | defaultOverride (inst port net defaultNet : String) (declared : Span)

namespace AtomizeProblem

def at_ (span : Span) : AtomizeProblem → Diagnostic
  | unknownExpression modul id =>
    .error .internalError span
      ("module " ++ Text.quoted modul ++ " refers to unknown expression " ++ id.text)
  | notOneModuleName raw count =>
    .error .notOneName span
      ("module name " ++ Text.quoted raw ++ " must expand to a single name, got " ++
        Decimal.ofNat count)
  | paramLength param raw count inst instCount =>
    .error .parameterLengthMismatch span
      ("parameter " ++ param ++ "=" ++ Text.quoted raw ++ " expands to " ++ Decimal.ofNat count ++
        " values but instance " ++ Text.quoted inst ++ " expands to " ++ Decimal.ofNat instCount)
  | unknownInstance atom inst =>
    .error .danglingInstance span
      ("endpoint " ++ Text.quoted atom ++ " references unknown instance " ++ Text.quoted inst)
  | portBoundTwice inst port firstNet secondNet first =>
    .error .portBoundTwice span
      ("port " ++ inst ++ "." ++ port ++ " is bound to " ++ Text.quoted firstNet ++ " and " ++
        Text.quoted secondNet)
      [⟨first, "first bound here"⟩]
  | notOneDefaultNet port raw =>
    .error .notOneName span
      ("default binding " ++ port ++ "=" ++ Text.quoted raw ++ " must name a single net")
  | unknownDefaultNet port net modul =>
    .error .unknownDefaultNet span
      ("default binding " ++ port ++ "=" ++ Text.quoted net ++ " names a net that module " ++
        Text.quoted modul ++ " does not declare")
  | defaultOverride inst port net defaultNet declared =>
    .warning .defaultOverride span
      (inst ++ "." ++ port ++ " is bound to " ++ Text.quoted net ++ ", overriding the default " ++
        Text.quoted defaultNet)
      [⟨declared, "default declared here"⟩]

end AtomizeProblem

/-- The binding of a port of an instance. -/
structure Bound where
  endpoint : Endpoint
  /-- Whether overriding a default here is intended. -/
  isSuppressed : Bool

/-- A module in the making. -/
structure Atomizing where
  /-- The identifiers given out. -/
  alloc : Allocator
  modul : Module
  /-- The instances made so far, last one first. -/
  made : List Instance := []
  /-- The first instance of each name. -/
  instances : Std.HashMap String Instance := ∅
  /-- The first net of each name. -/
  nets : Std.HashMap String Net := ∅
  /-- The bindings of ports so far. -/
  bound : Std.HashMap (Ident × String) Bound := ∅

abbrev Atomize := StateT Atomizing Logged

/-- What a module is atomized with. -/
structure AtomizeInput where
  expressions : IdMap DesignExpression
  decl : DesignModule
  maxAtoms : Int

namespace Atomize

/-- A step that only reports. -/
def logged {α : Type} (x : Logged α) : Atomize α := fun s => do
  let a ← x
  return (a, s)

def report (span : Span) (p : AtomizeProblem) : Atomize Unit :=
  logged (Logged.report (p.at_ span))

def newId (kind : IdKind) : Atomize Ident := do
  let s ← get
  let (id, alloc) := s.alloc.next kind
  set { s with alloc := alloc }
  return id

end Atomize

namespace AtomizeInput

def options (i : AtomizeInput) (e : DesignExpression) (noSplice : Bool) : Pattern.Options :=
  { maxAtoms := i.maxAtoms, noSplice := noSplice, named := i.decl.named, span := e.span }

/-- Looks up an expression. -/
def expression (i : AtomizeInput) (id : Ident) : Logged (Option DesignExpression) := do
  match i.expressions[id]? with
  | some e => return some e
  | none =>
    Logged.report ((AtomizeProblem.unknownExpression i.decl.name id).at_ i.decl.span)
    return none

/-- Looks up an expression and expands it. -/
def expand (i : AtomizeInput) (id : Ident) (noSplice : Bool) :
    Logged (Option (DesignExpression × Pattern.Expansion)) := do
  match ← i.expression id with
  | none => return none
  | some e => return (← Pattern.expand (i.options e noSplice) e.raw).map fun x => (e, x)

end AtomizeInput

/-- Where an atom comes from, unless its expression is literal. -/
def originOf (e : DesignExpression) (x : Pattern.Expansion) (a : Pattern.Atom) : Option Origin :=
  if x.isLiteral then none
  else some ⟨e.id, a.segment, a.base, if a.parts.isEmpty then none else some a.parts⟩

/-! ## The name -/

/-- Expands the name of the module, which has to be a single one. -/
def atomizeName (i : AtomizeInput) : Atomize Unit := do
  match ← Atomize.logged (i.expand i.decl.nameExpression true) with
  | none => pure ()
  | some (e, x) =>
    match x.atoms with
    | [a] => modify fun s => { s with modul := { s.modul with name := a.literal } }
    | atoms => Atomize.report e.span (.notOneModuleName e.raw atoms.length)

/-! ## Instances -/

/-- The values of the parameters of an instance declaration: one for all instances or
one for each. -/
def paramValues (i : AtomizeInput) (inst : DesignExpression) (count : Nat) :
    List DesignParam → Logged (List (String × List String))
  | [] => pure []
  | p :: rest => do
    let found ← i.expand p.expression false
    let own ← match found with
      | none => pure []
      | some (e, x) =>
        if x.length != 1 && x.length != count then do
          Logged.report
            ((AtomizeProblem.paramLength p.name e.raw x.length inst.raw count).at_ e.span)
          pure []
        else pure [(p.name, x.literals)]
    return own ++ (← paramValues i inst count rest)

def paramRows (count : Nat) (values : List (String × List String)) : List (List Param) :=
  let columns := values.map fun (name, vs) =>
    match vs with
    | [v] => List.replicate count (Param.mk name v)
    | vs => vs.map (Param.mk name)
  columns.foldr (fun column rows => List.zipWith List.cons column rows) (List.replicate count [])

def addInstance (ref : Ref) (e : DesignExpression) (x : Pattern.Expansion) (a : Pattern.Atom)
    (params : List Param) : Atomize Unit := do
  let id ← Atomize.newId .instance_
  let inst : Instance :=
    { id := id, name := a.literal, ref := ref,
      params := if params.isEmpty then none else some params, origin := originOf e x a,
      span := e.span }
  modify fun s => { s with
    modul := { s.modul with instances := s.modul.instances.insert id inst }
    made := inst :: s.made
    instances := s.instances.insertIfNew a.literal inst }

/-- Expands an instance declaration. -/
def atomizeInstance (i : AtomizeInput) (d : DesignInstance) : Atomize Unit := do
  match ← Atomize.logged (i.expand d.expression false) with
  | none => pure ()
  | some (e, x) =>
    let values ← Atomize.logged (paramValues i e x.length d.params)
    for (a, params) in x.atoms.zip (paramRows x.length values) do
      addInstance d.ref e x a params

/-! ## Nets and endpoints -/

def addNet (isPort : Bool) (e : DesignExpression) (x : Pattern.Expansion) (a : Pattern.Atom) :
    Atomize Net := do
  let id ← Atomize.newId .net
  let net : Net :=
    { id := id, name := a.literal, isPort := isPort, origin := originOf e x a, span := e.span }
  modify fun s => { s with
    modul := { s.modul with nets := s.modul.nets.insert id net }
    nets := s.nets.insertIfNew a.literal net }
  return net

/-- Adds the binding of a port of an instance to a net. -/
def bindPort (net inst : Ident) (port : String) (span : Span) (isDefault isSuppressed : Bool) :
    Atomize Unit := do
  let id ← Atomize.newId .endpoint
  let e : Endpoint :=
    { id := id, net := net, inst := inst, port := port, isDefault := isDefault, span := span }
  modify fun s => { s with
    modul := { s.modul with endpoints := s.modul.endpoints.insert id e }
    bound := s.bound.insert (inst, port) ⟨e, isSuppressed⟩ }

def netName (m : Module) (id : Ident) : String := ((m.nets[id]?).map (·.name)).getD ""

/-- Connects an endpoint atom to a net.  A port that is bound already stays with its
net. -/
def connect (e : DesignExpression) (isSuppressed : Bool) (a : Pattern.EndpointAtom) (net : Net) :
    Atomize Unit := do
  let s ← get
  match s.instances[a.inst]? with
  | none => Atomize.report e.span (.unknownInstance a.atom.literal a.inst)
  | some inst =>
    match s.bound[(inst.id, a.port)]? with
    | none => bindPort net.id inst.id a.port e.span false isSuppressed
    | some b =>
      if b.endpoint.net != net.id then
        Atomize.report e.span
          (.portBoundTwice inst.name a.port (netName s.modul b.endpoint.net) net.name
            b.endpoint.span)

/-- Expands an endpoint expression of a net declaration and connects its atoms. -/
def atomizeEndpoint (i : AtomizeInput) (netExpansion : Pattern.Expansion) (nets : Array Net)
    (d : DesignEndpoint) : Atomize Unit := do
  match ← Atomize.logged (i.expression d.expression) with
  | none => pure ()
  | some e =>
    match ← Atomize.logged (Pattern.expandEndpoint (i.options e false) e.raw) with
    | none => pure ()
    | some (x, atoms) =>
      match ← Atomize.logged (Axis.bindOrPair netExpansion x e.span) with
      | none => pure ()
      | some b =>
        for (a, k) in atoms.zip b.netIndex do
          match nets[k]? with
          | some net => connect e d.isSuppressed a net
          | none => pure ()

/-- Expands a net declaration and its endpoints. -/
def atomizeNet (i : AtomizeInput) (d : DesignNet) : Atomize Unit := do
  match ← Atomize.logged (i.expand d.expression d.isPort) with
  | none => pure ()
  | some (e, x) =>
    let nets ← x.atoms.mapM (addNet d.isPort e x)
    if d.isPort then
      modify fun s =>
        { s with modul := { s.modul with
            ports := some (s.modul.portList ++ nets.map (·.name)) } }
    for ep in d.endpoints do
      atomizeEndpoint i x nets.toArray ep

/-! ## Default bindings -/

/-- A default binding whose net is known. -/
structure ResolvedDefault where
  definition : Ident
  port : String
  net : Net
  /-- Where the binding is declared. -/
  span : Span

def defaultNet (i : AtomizeInput) (b : DesignBinding) : Atomize (Option Net) := do
  match ← Atomize.logged (i.expand b.net true) with
  | none => return none
  | some (e, x) =>
    match x.atoms with
    | [a] =>
      let s ← get
      match s.nets[a.literal]? with
      | some net => return some net
      | none =>
        Atomize.report e.span (.unknownDefaultNet b.port a.literal s.modul.name)
        return none
    | _ =>
      Atomize.report e.span (.notOneDefaultNet b.port e.raw)
      return none

/-- The default bindings whose nets are known. -/
def resolveBindings (i : AtomizeInput) (definition : Ident) :
    List DesignBinding → Atomize (List ResolvedDefault)
  | [] => pure []
  | b :: rest => do
    let net ← defaultNet i b
    let more ← resolveBindings i definition rest
    return (net.map fun n => ⟨definition, b.port, n, b.span⟩).toList ++ more

/-- Applies a default binding to an instance.  A port that is bound already keeps its
net, with a warning when that is another one and the override is not marked. -/
def applyDefault (inst : Instance) (d : ResolvedDefault) : Atomize Unit := do
  let s ← get
  match s.bound[(inst.id, d.port)]? with
  | none => bindPort d.net.id inst.id d.port d.span true false
  | some b =>
    if !b.isSuppressed && b.endpoint.net != d.net.id then
      Atomize.report b.endpoint.span
        (.defaultOverride inst.name d.port (netName s.modul b.endpoint.net) d.net.name d.span)

/-- Applies the default bindings to all instances, in the order in which they were made. -/
def applyDefaults (i : AtomizeInput) : Atomize Unit := do
  let resolved ← i.decl.defaults.mapM fun d => resolveBindings i d.ref.id d.bindings
  let defaults := resolved.flatten
  for inst in (← get).made.reverse do
    for d in defaults do
      if d.definition == inst.ref.id then applyDefault inst d

/-! ## Modules -/

/-- Expands everything in a module. -/
def atomizeAll (i : AtomizeInput) : Atomize Unit := do
  atomizeName i
  for d in i.decl.instances do
    atomizeInstance i d
  for d in i.decl.nets do
    atomizeNet i d
  applyDefaults i

def atomizeModule (i : AtomizeInput) (alloc : Allocator) : Logged (Module × Allocator) := do
  let m := i.decl
  let empty : Module :=
    { id := m.id, name := m.name, file := m.file, span := m.span,
      parameters := if m.parameters.isEmpty then none else some m.parameters }
  let (_, s) ← (atomizeAll i).run { alloc := alloc, modul := empty }
  return (s.modul, s.alloc)

end Netlist
