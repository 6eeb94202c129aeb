import Netlist.Program.Basic
import Netlist.Text.Quoted
import Std.Data.HashSet

/-!
# A second look at programs

`Program.fault?` looks for the first thing that is wrong with a program, without
going through the verifier.  For `checkProgram` it is wrong, too, when there is no
program.
-/

namespace Netlist

/-- The first name that occurs again. -/
def firstRepeat? : (seen : Std.HashSet String) → (names : List String) → Option String
  | _, [] => none
  | seen, n :: rest => if seen.contains n then some n else firstRepeat? (seen.insert n) rest

namespace Module

def netFault? (m : Module) : Option String :=
  let misplaced := m.nets.toList.findSome? fun (id, n) =>
    if n.id == id then none
    else some (m.name ++ ": net " ++ n.id.text ++ " stored under " ++ id.text)
  let duplicate := (firstRepeat? ∅ (m.nets.items.map (·.name))).map fun n =>
    m.name ++ ": duplicate net " ++ Text.quoted n
  misplaced <|> duplicate

def instanceFault? (p : Program) (m : Module) : Option String :=
  let duplicate := (firstRepeat? ∅ (m.instances.items.map (·.name))).map fun n =>
    m.name ++ ": duplicate instance " ++ Text.quoted n
  let unknown := m.instances.items.findSome? fun i =>
    if p.modules.contains i.ref.id || p.devices.contains i.ref.id then none
    else some (m.name ++ ": instance " ++ Text.quoted i.name ++ " references unknown " ++
      i.ref.id.text)
  duplicate <|> unknown

def endpointFault? (m : Module) : Option String :=
  m.endpoints.toList.findSome? fun (id, e) =>
    if !m.nets.contains e.net then
      some (m.name ++ ": endpoint " ++ id.text ++ " has dangling net " ++ e.net.text)
    else if !m.instances.contains e.inst then
      some (m.name ++ ": endpoint " ++ id.text ++ " has dangling instance " ++ e.inst.text)
    else none

/-- What is wrong with the ports, given the names of the nets. -/
def portFault? (m : Module) (names : Std.HashSet String) :
    (seen : Std.HashSet String) → (ports : List String) → Option String
  | _, [] => none
  | seen, port :: rest =>
    if seen.contains port || !names.contains port then
      some (m.name ++ ": bad port " ++ Text.quoted port)
    else portFault? m names (seen.insert port) rest

/-- What is wrong with a module that is stored under an identifier. -/
def fault? (p : Program) (id : Ident) (m : Module) : Option String :=
  if m.id != id then some ("module " ++ m.id.text ++ " stored under " ++ id.text)
  else
    let names := Std.HashSet.ofList (m.nets.items.map (·.name))
    m.netFault? <|> m.instanceFault? p <|> m.endpointFault? <|> m.portFault? names ∅ m.portList

end Module

/-- The first thing that is wrong with a program. -/
def Program.fault? (p : Program) : Option String :=
  if !p.modules.contains p.top then
    some ("top " ++ Text.quoted p.top.text ++ " is not a module")
  else p.modules.toList.findSome? fun (id, m) => Module.fault? p id m

/-- The first thing that is wrong with a program that may be missing. -/
def checkProgram : Option Program → Option String
  | none => some "nil program"
  | some p => p.fault?

end Netlist
