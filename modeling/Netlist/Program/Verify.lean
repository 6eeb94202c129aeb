import Netlist.Diagnostic.Basic
import Netlist.Hierarchy.Order
import Std.Data.HashMap

/-!
# Verifying programs

A program is sound when its top module exists; when in every module names are
unique, endpoints stay inside the module and name ports that exist, no port is
bound to two nets, and ports are nets; when references lead somewhere; and when
no module contains itself.  Every violation is listed.
-/

namespace Netlist

/-- A violation of the rules for programs. -/
inductive Violation where
  | missingTop (top : Ident)
  | duplicateNet (net modul : String) (first : Span)
  | duplicateInstance (inst modul : String) (first : Span)
  | unknownDefinition (inst : String) (ref : Ref)
  | danglingNet (endpoint net : Ident) (modul : String)
  | danglingInstance (endpoint inst : Ident) (modul : String)
  | undeclaredPort (ref : Ref) (port inst : String)
  | portBoundTwice (inst port firstNet secondNet : String) (first : Span)
  | duplicatePort (port modul : String)
  | unbackedPort (port modul : String)
  | recursive (modul : String) (cycle : List String)

namespace Violation

def code : Violation → Code
  | missingTop _ => .danglingDefinition
  | duplicateNet _ _ _ => .duplicateNet
  | duplicateInstance _ _ _ => .duplicateInstance
  | unknownDefinition _ _ => .danglingDefinition
  | danglingNet _ _ _ => .danglingNet
  | danglingInstance _ _ _ => .danglingInstance
  | undeclaredPort _ _ _ => .undeclaredPort
  | portBoundTwice _ _ _ _ _ => .portBoundTwice
  | duplicatePort _ _ => .duplicatePort
  | unbackedPort _ _ => .unbackedPort
  | recursive _ _ => .recursiveInstance

def message : Violation → String
  | missingTop top => "top module " ++ Text.quoted top.text ++ " is not part of the program"
  | duplicateNet net modul _ =>
    "net " ++ Text.quoted net ++ " is declared more than once in module " ++ Text.quoted modul
  | duplicateInstance inst modul _ =>
    "instance " ++ Text.quoted inst ++ " is declared more than once in module " ++ Text.quoted modul
  | unknownDefinition inst ref =>
    "instance " ++ Text.quoted inst ++ " references unknown " ++ ref.kind.name ++ " " ++
      ref.id.text ++ " (" ++ Text.quoted ref.token ++ ")"
  | danglingNet endpoint net modul =>
    "endpoint " ++ endpoint.text ++ " references net " ++ net.text ++ ", which module " ++
      Text.quoted modul ++ " does not have"
  | danglingInstance endpoint inst modul =>
    "endpoint " ++ endpoint.text ++ " references instance " ++ inst.text ++ ", which module " ++
      Text.quoted modul ++ " does not have"
  | undeclaredPort ref port inst =>
    ref.kind.name ++ " " ++ Text.quoted ref.token ++ " has no port " ++ Text.quoted port ++
      " (instance " ++ Text.quoted inst ++ ")"
  | portBoundTwice inst port firstNet secondNet _ =>
    "port " ++ inst ++ "." ++ port ++ " is bound to " ++ Text.quoted firstNet ++ " and " ++
      Text.quoted secondNet
  | duplicatePort port modul =>
    "port " ++ Text.quoted port ++ " is listed twice in module " ++ Text.quoted modul
  | unbackedPort port modul =>
    "port " ++ Text.quoted port ++ " of module " ++ Text.quoted modul ++ " is not one of its nets"
  | recursive modul cycle =>
    "module " ++ Text.quoted modul ++ " instantiates itself through " ++ ", ".intercalate cycle

def notes : Violation → List Note
  | duplicateNet _ _ first => [⟨first, "previous declaration"⟩]
  | duplicateInstance _ _ first => [⟨first, "previous declaration"⟩]
  | portBoundTwice _ _ _ _ first => [⟨first, "first bound here"⟩]
  | _ => []

def at_ (v : Violation) (span : Span) : Diagnostic := .error v.code span v.message v.notes

end Violation

abbrev Finding := Violation × Span

namespace Module

/-- The nets whose names have come before.  `seen` holds the first net of each
name. -/
def netViolations (modul : String) : (seen : Std.HashMap String Net) → List Net → List Finding
  | _, [] => []
  | seen, n :: rest =>
    match seen[n.name]? with
    | some first => (.duplicateNet n.name modul first.span, n.span) :: netViolations modul seen rest
    | none => netViolations modul (seen.insert n.name n) rest

/-- The instances whose names have come before, and those of unknown definitions.  `seen`
holds the first instance of each name. -/
def instanceViolations (p : Program) (modul : String) :
    (seen : Std.HashMap String Instance) → List Instance → List Finding
  | _, [] => []
  | seen, i :: rest =>
    match seen[i.name]? with
    | some first =>
      (.duplicateInstance i.name modul first.span, i.span) ::
        instanceViolations p modul seen rest
    | none =>
      let unknown := if (p.portsOf? i.ref).isSome then []
        else [(Violation.unknownDefinition i.name i.ref, i.span)]
      unknown ++ instanceViolations p modul (seen.insert i.name i) rest

/-- The endpoints that lead nowhere or bind a port to a second net.  `bound` holds the
last good binding of each port of an instance. -/
def endpointViolations (p : Program) (m : Module) :
    (bound : Std.HashMap (Ident × String) Endpoint) → List Endpoint → List Finding
  | _, [] => []
  | bound, e :: rest =>
    match m.nets[e.net]?, m.instances[e.inst]? with
    | none, _ =>
      (.danglingNet e.id e.net m.name, e.span) :: endpointViolations p m bound rest
    | _, none =>
      (.danglingInstance e.id e.inst m.name, e.span) :: endpointViolations p m bound rest
    | some net, some inst =>
      let undeclared := match p.portsOf? inst.ref with
        | some ports => if ports.contains e.port then []
          else [(Violation.undeclaredPort inst.ref e.port inst.name, e.span)]
        | none => []
      match (bound[(e.inst, e.port)]?).filter (·.net != e.net) with
      | some first =>
        let firstNet := ((m.nets[first.net]?).map (·.name)).getD ""
        undeclared ++
          (.portBoundTwice inst.name e.port firstNet net.name first.span, e.span) ::
            endpointViolations p m bound rest
      | none => undeclared ++ endpointViolations p m (bound.insert (e.inst, e.port) e) rest

/-- The ports that are listed twice or are not nets.  `names` holds the names of the nets,
and `seen` the ports so far. -/
def portViolations (m : Module) (names : Std.HashSet String) :
    (seen : Std.HashSet String) → List String → List Finding
  | _, [] => []
  | seen, port :: rest =>
    if seen.contains port then
      (.duplicatePort port m.name, m.span) :: portViolations m names seen rest
    else
      let unbacked := if names.contains port then []
        else [(Violation.unbackedPort port m.name, m.span)]
      unbacked ++ portViolations m names (seen.insert port) rest

def violations (p : Program) (m : Module) : List Finding :=
  netViolations m.name ∅ m.nets.items ++ instanceViolations p m.name ∅ m.instances.items ++
    endpointViolations p m ∅ m.endpoints.items ++
    portViolations m (Std.HashSet.ofList (m.nets.items.map (·.name))) ∅ m.portList

end Module

namespace Program

/-- A violation for every module that is left on a cycle. -/
def cycleViolations (p : Program) : List Finding :=
  let modules := p.modules.items
  let cycle := (Hierarchy.order (Hierarchy.graph p)).cycles.filterMap (modules[·]?)
  cycle.map fun m => (.recursive m.name (cycle.map (·.name)), m.span)

def violations (p : Program) : List Finding :=
  (if p.modules.contains p.top then [] else [(.missingTop p.top, Span.nowhere)]) ++
    p.modules.items.flatMap (Module.violations p) ++ p.cycleViolations

/-- Verifies a program and reports its violations. -/
def verify (p : Program) : Logged Bool :=
  let found := p.violations
  ⟨found.isEmpty, found.map fun f => f.1.at_ f.2⟩

end Program

end Netlist
