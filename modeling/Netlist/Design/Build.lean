import Netlist.Design.Basic
import Netlist.Symbol.Resolve
import Netlist.Symbol.Substitute

/-!
# From documents to a design

References are resolved, placeholders replaced, and every expression is put into
the table of the design.  Files, modules and declarations are taken in order, so
the same documents always give the same identifiers.  There is a design only if
nothing is wrong.
-/

namespace Netlist

/-- What can be wrong with a declaration. -/
inductive BuildProblem where
  | noFiles
  | noTable (path : String)
  | emptyReference (inst : String)
  | malformedParameter (text : String)
  | unknownParameter (definition : Definition) (ref name : String)
  | unknownDefaultPort (definition : Definition) (ref port : String)
  | unresolvedTop (top : String)
  | deviceAsTop (top : String)
  | noModule (path : String)
  | severalModules (path : String) (count : Nat)

namespace BuildProblem

def code : BuildProblem → Code
  | noFiles => .noTop
  | noTable _ => .internalError
  | emptyReference _ => .malformedInstance
  | malformedParameter _ => .malformedInstance
  | unknownParameter _ _ _ => .malformedParameter
  | unknownDefaultPort _ _ _ => .unknownDefaultPort
  | unresolvedTop _ => .unresolvedTop
  | deviceAsTop _ => .unresolvedTop
  | noModule _ => .noTop
  | severalModules _ _ => .noTop

def message : BuildProblem → String
  | noFiles => "no design files"
  | noTable path => "file " ++ path ++ " has no symbol table"
  | emptyReference inst => "instance " ++ Text.quoted inst ++ " has an empty reference"
  | malformedParameter text =>
    "instance parameter " ++ Text.quoted text ++ " must be written as key=value"
  | unknownParameter d ref name =>
    d.kindName ++ " " ++ Text.quoted ref ++ " has no parameter " ++ Text.quoted name
  | unknownDefaultPort d ref port =>
    d.kindName ++ " " ++ Text.quoted ref ++ " has no port " ++ Text.quoted port
  | unresolvedTop top => "top module " ++ Text.quoted top ++ " cannot be resolved"
  | deviceAsTop top => "top " ++ Text.quoted top ++ " is a device, not a module"
  | noModule path => path ++ " declares no module to elaborate"
  | severalModules path count =>
    path ++ " declares " ++ Decimal.ofNat count ++ " modules; set \"top\" to choose one"

def at_ (p : BuildProblem) (span : Span) : Diagnostic := .error p.code span p.message

end BuildProblem

/-- What the documents of a design are built with. -/
structure BuildInput where
  /-- The documents, the entry first. -/
  documents : List Document
  symbols : SymbolBase
  bindings : Bindings

/-- The state of building. -/
structure BuildState where
  /-- The identifiers given out. -/
  alloc : Allocator
  expressions : IdMap DesignExpression := ∅

abbrev Build := StateT BuildState Logged

namespace Build

/-- A step that only reports. -/
def logged {α : Type} (x : Logged α) : Build α := fun s => do
  let a ← x
  return (a, s)

def report (span : Span) (p : BuildProblem) : Build Unit := logged (Logged.report (p.at_ span))

/-- Puts an expression into the table. -/
def addExpression (kind : ExpressionKind) (l : Located) : Build Ident := do
  let s ← get
  let (id, alloc) := s.alloc.next .expression
  set ({ alloc := alloc, expressions := s.expressions.insert id ⟨id, kind, l.text, l.span⟩ } :
    BuildState)
  return id

end Build

def paramsOf (entries : List Entry) : List Param :=
  entries.map fun e => ⟨e.key.text, e.value.text⟩

/-- A list, missing when it is empty. -/
def nonEmpty {α : Type} (items : List α) : Option (List α) :=
  if items.isEmpty then none else some items

/-- A declared device with its identifier. -/
def deviceOf (s : Symbol) (d : DeviceDecl) : Device :=
  { id := s.id, name := d.name.text, ports := nonEmpty (d.ports.map (·.text)),
    parameters := nonEmpty (paramsOf d.parameters),
    backends := nonEmpty (d.backends.map fun b => ⟨b.name.text, nonEmpty (paramsOf b.fields)⟩),
    file := s.file, span := d.name.span }

def refOf (s : Symbol) (token : String) : Ref :=
  ⟨if s.definition.isModule then .module_ else .device, s.id, token⟩

/-! ## Instances -/

/-- A word of a text with its byte range. -/
structure Field where
  text : String
  start : Nat
  /-- The byte past the last one. -/
  stop : Nat
  deriving DecidableEq, Repr

/-- The words of a text, divided by spaces and tabs.  `word` holds the word that is
being read, last character first. -/
def fieldsFrom : (offset : Nat) → (word : List Char) → (start : Nat) → List Char → List Field
  | offset, word, start, [] =>
    if word.isEmpty then [] else [⟨String.ofList word.reverse, start, offset⟩]
  | offset, word, start, c :: rest =>
    if c == ' ' || c == '\t' then
      let more := fieldsFrom (offset + 1) [] (offset + 1) rest
      if word.isEmpty then more else ⟨String.ofList word.reverse, start, offset⟩ :: more
    else fieldsFrom (offset + c.utf8Size) (c :: word) start rest

/-- The words of a text, divided by spaces and tabs. -/
def fields (s : String) : List Field := fieldsFrom 0 [] 0 s.toList

/-- The two sides of the first equals sign. -/
def splitAssignment (s : String) : Option (String × String) :=
  let chars := s.toList
  match chars.dropWhile (· != '=') with
  | _ :: value => some (String.ofList (chars.takeWhile (· != '=')), String.ofList value)
  | [] => none

/-- Builds the parameters of an instance.  The flag says whether all are right. -/
def buildParams (target : Symbol) (ref : String) (tokenSpan : Span) :
    Variables → List Field → Build (List DesignParam × Bool × Variables)
  | vars, [] => pure ([], true, vars)
  | vars, f :: rest => do
    let span := tokenSpan.slice f.start f.stop
    let skip (vars : Variables) : Build (List DesignParam × Bool × Variables) := do
      let (params, _, vars) ← buildParams target ref tokenSpan vars rest
      return (params, false, vars)
    match splitAssignment f.text with
    | none =>
      Build.report span (.malformedParameter f.text)
      skip vars
    | some (key, value) =>
      if key.isEmpty then
        Build.report span (.malformedParameter f.text)
        skip vars
      else if !target.definition.hasParameter key then
        Build.report span (.unknownParameter target.definition ref key)
        skip vars
      else
        let valueSpan := span.slice (key.utf8ByteSize + 1) f.text.utf8ByteSize
        let ((out, ok), vars) ← Build.logged ((substitute value valueSpan).run vars)
        if ok then
          let id ← Build.addExpression .param ⟨out, valueSpan⟩
          let (params, good, vars) ← buildParams target ref tokenSpan vars rest
          return (⟨key, id⟩ :: params, good, vars)
        else skip vars

/-- Builds an instance declaration: a reference and parameters. -/
def buildInstance (input : BuildInput) (file : FileId) (vars : Variables) (e : Entry) :
    Build (Option DesignInstance × Variables) := do
  match fields e.value.text with
  | [] =>
    Build.report e.value.span (.emptyReference e.key.text)
    return (none, vars)
  | ref :: rest =>
    let found ← Build.logged
      (input.symbols.resolve input.bindings file ref.text (e.value.span.slice ref.start ref.stop))
    match found with
    | none => return (none, vars)
    | some target =>
      let id ← Build.addExpression .instance_ e.key
      let (params, good, vars) ← buildParams target ref.text e.value.span vars rest
      return (if good then some ⟨id, refOf target ref.text, params⟩ else none, vars)

/-- Builds instance declarations in order. -/
def buildInstances (input : BuildInput) (file : FileId) :
    Variables → List Entry → Build (List DesignInstance)
  | _, [] => pure []
  | vars, e :: rest => do
    let (inst, vars) ← buildInstance input file vars e
    let more ← buildInstances input file vars rest
    return inst.toList ++ more

/-! ## Nets and defaults -/

def buildNet (n : NetDecl) : Build DesignNet := do
  let id ← Build.addExpression .net n.name
  let endpoints ← n.endpoints.mapM fun e => do
    return (⟨← Build.addExpression .endpoint e.expression, e.isSuppressed⟩ : DesignEndpoint)
  return ⟨id, n.isPort, endpoints⟩

def buildBindings (target : Symbol) (ref : String) : List Entry → Build (List DesignBinding)
  | [] => pure []
  | e :: rest => do
    if target.definition.mayHavePort e.key.text then
      let id ← Build.addExpression .default_ e.value
      let more ← buildBindings target ref rest
      return ⟨e.key.text, id, e.key.span⟩ :: more
    else
      Build.report e.key.span (.unknownDefaultPort target.definition ref e.key.text)
      buildBindings target ref rest

/-- Builds default bindings, unless their definition is not known. -/
def buildDefault (input : BuildInput) (file : FileId) (d : DefaultDecl) :
    Build (Option DesignDefault) := do
  match ← Build.logged (input.symbols.resolve input.bindings file d.ref.text d.ref.span) with
  | none => return none
  | some target =>
    return some ⟨refOf target d.ref.text, d.ref.span, ← buildBindings target d.ref.text d.bindings⟩

/-! ## Modules and files -/

/-- Finds the values of all variables. -/
def resolveVariables (entries : List Entry) : Logged Variables := do
  let (_, vars) ←
    (entries.forM fun e => discard (variableValue e.key.text)).run (Variables.ofEntries entries)
  return vars

def buildModule (input : BuildInput) (s : Symbol) (m : ModuleDecl) : Build DesignModule := do
  let nameId ← Build.addExpression .moduleName m.name
  for p in m.patterns do
    let _ ← Build.logged (Pattern.validateNamed p.key.text p.value.text p.value.span)
  let vars ← Build.logged (resolveVariables m.vars)
  let instances ← buildInstances input s.file vars m.instances
  let nets ← m.nets.mapM buildNet
  let defaults ← m.defaults.mapM (buildDefault input s.file)
  return {
    id := s.id, name := m.name.text, nameExpression := nameId, file := s.file,
    span := m.name.span, patterns := paramsOf m.patterns, parameters := paramsOf m.parameters,
    nets := nets, instances := instances, defaults := defaults.filterMap fun d => d }

/-- Builds symbols in order. -/
def buildSymbols (input : BuildInput) : List Symbol → Build (List DesignModule × List Device)
  | [] => pure ([], [])
  | s :: rest => do
    match s.definition with
    | .module_ m =>
      let modul ← buildModule input s m
      let (modules, devices) ← buildSymbols input rest
      return (modul :: modules, devices)
    | .device d =>
      let (modules, devices) ← buildSymbols input rest
      return (modules, deviceOf s d :: devices)

/-- Builds documents in order. -/
def buildDocuments (input : BuildInput) : List Document → Build (List DesignModule × List Device)
  | [] => pure ([], [])
  | d :: rest => do
    let (modules, devices) ← match input.symbols.table? d.file with
      | none => do
        Build.report Span.nowhere (.noTable d.path)
        pure ([], [])
      | some t => buildSymbols input t.symbols
    let (moreModules, moreDevices) ← buildDocuments input rest
    return (modules ++ moreModules, devices ++ moreDevices)

/-- Finds the top module: the one that the entry names, or its only one. -/
def findTop (input : BuildInput) (entry : Document) : Logged (Option Ident) := do
  match entry.top with
  | some top =>
    match ← input.symbols.resolve input.bindings entry.file top.text top.span with
    | none =>
      Logged.report ((BuildProblem.unresolvedTop top.text).at_ top.span)
      return none
    | some s =>
      if s.definition.isModule then return some s.id
      else
        Logged.report ((BuildProblem.deviceAsTop top.text).at_ top.span)
        return none
  | none =>
    let symbols := ((input.symbols.table? entry.file).map (·.symbols)).getD []
    match symbols.filter (·.definition.isModule) with
    | [s] => return some s.id
    | [] =>
      Logged.report ((BuildProblem.noModule entry.path).at_ (Span.fileStart entry.file))
      return none
    | several =>
      Logged.report
        ((BuildProblem.severalModules entry.path several.length).at_ (Span.fileStart entry.file))
      return none

/-- Builds the design of some documents and gives the identifiers given out.  There is
none if an error was reported. -/
def buildDesign (input : BuildInput) (alloc : Allocator) : Logged (Option Design × Allocator) :=
  match input.documents with
  | [] => ⟨(none, alloc), [BuildProblem.noFiles.at_ Span.nowhere]⟩
  | entry :: _ =>
    let r : Logged ((Option Ident × List DesignModule × List Device) × BuildState) := do
      let ((modules, devices), s) ← (buildDocuments input input.documents).run { alloc := alloc }
      let top ← findTop input entry
      return ((top, modules, devices), s)
    let ((top, modules, devices), s) := r.value
    let design := if r.hasErrors then none
      else top.map fun id => (⟨id, modules, devices, s.expressions⟩ : Design)
    ⟨(design, s.alloc), r.log⟩

end Netlist
