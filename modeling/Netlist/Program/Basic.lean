import Netlist.Ident
import Netlist.Pattern.Part
import Netlist.Source.Span

/-!
# Programs

A program is a netlist whose names are literal: modules with nets, instances and
endpoints, and devices.  Everything is found by its identifier.  A list that is
missing is kept apart from an empty one, because stored programs tell them
apart.
-/

namespace Netlist

/-- The expression that a name comes from, and the name's place in it. -/
structure Origin where
  expression : Ident
  segment : Int
  /-- The text of the segment before its first group. -/
  base : String
  /-- The values of the groups. -/
  parts : Option (List Part)
  deriving DecidableEq, Repr

/-- What an instance is an instance of, as a number. -/
structure RefKind where
  byte : UInt8
  deriving DecidableEq, Repr, Hashable

namespace RefKind

def module_ : RefKind := ⟨1⟩

def device : RefKind := ⟨2⟩

def name (k : RefKind) : String :=
  if k == module_ then "module" else if k == device then "device" else "unknown"

end RefKind

/-- A reference to a module or a device. -/
structure Ref where
  /-- What it refers to. -/
  kind : RefKind
  id : Ident
  /-- The text that the reference was written as. -/
  token : String
  deriving DecidableEq, Repr

/-- A name and its value. -/
structure Param where
  name : String
  value : String
  deriving DecidableEq, Repr

/-- A net of a module. -/
structure Net where
  id : Ident
  name : String
  isPort : Bool := false
  /-- The expression that it comes from, unless that is literal. -/
  origin : Option Origin := none
  /-- Where it is declared. -/
  span : Span := ⟨0, 0, 0⟩
  deriving DecidableEq, Repr

/-- An instance of a module or a device. -/
structure Instance where
  id : Ident
  name : String
  ref : Ref
  params : Option (List Param) := none
  /-- The expression that it comes from, unless that is literal. -/
  origin : Option Origin := none
  /-- Where it is declared. -/
  span : Span := ⟨0, 0, 0⟩
  deriving DecidableEq, Repr

/-- A connection of a port of an instance to a net of the same module. -/
structure Endpoint where
  id : Ident
  net : Ident
  inst : Ident
  port : String
  /-- Whether the connection comes from a default binding. -/
  isDefault : Bool := false
  /-- Where it is declared. -/
  span : Span := ⟨0, 0, 0⟩
  deriving DecidableEq, Repr

/-- A module of a program. -/
structure Module where
  id : Ident
  name : String
  file : FileId := 0
  /-- Where it is declared. -/
  span : Span := ⟨0, 0, 0⟩
  /-- The names of the nets that are ports, in the order of their declaration. -/
  ports : Option (List String) := none
  parameters : Option (List Param) := none
  nets : IdMap Net := ∅
  instances : IdMap Instance := ∅
  endpoints : IdMap Endpoint := ∅

/-- The fields that one back end needs to know about a device. -/
structure Backend where
  /-- The name of the back end. -/
  name : String
  fields : Option (List Param)
  deriving DecidableEq, Repr

/-- A device of a program. -/
structure Device where
  id : Ident
  name : String
  ports : Option (List String) := none
  parameters : Option (List Param) := none
  /-- What back ends need to know. -/
  backends : Option (List Backend) := none
  file : FileId := 0
  /-- Where it is declared. -/
  span : Span := ⟨0, 0, 0⟩
  deriving DecidableEq, Repr

/-- A netlist with literal names. -/
structure Program where
  top : Ident
  modules : IdMap Module := ∅
  devices : IdMap Device := ∅
  /-- All modules, each after those it instantiates. -/
  emitOrder : Option (List Ident) := none

/-- The things of a map in the order of their identifiers. -/
def IdMap.items {α : Type} (m : IdMap α) : List α := m.toList.map (·.2)

/-- A map of things by their own identifiers.  Of several with the same identifier
the last one counts. -/
def IdMap.ofItems {α : Type} (id : α → Ident) (items : List α) : IdMap α :=
  items.foldl (fun m a => m.insert (id a) a) ∅

namespace Module

def portList (m : Module) : List String := m.ports.getD []

/-- The first net with a name. -/
def netByName? (m : Module) (name : String) : Option Net := m.nets.items.find? (·.name == name)

/-- The first instance with a name. -/
def instanceByName? (m : Module) (name : String) : Option Instance :=
  m.instances.items.find? (·.name == name)

def endpointsOf (m : Module) (inst : Ident) : List Endpoint :=
  m.endpoints.items.filter (·.inst == inst)

end Module

namespace Device

def portList (d : Device) : List String := d.ports.getD []

def hasPort (d : Device) (port : String) : Bool := d.portList.contains port

end Device

namespace Program

/-- The first module with a name. -/
def moduleByName? (p : Program) (name : String) : Option Module :=
  p.modules.items.find? (·.name == name)

/-- The ports of the definition that a reference means, if there is one. -/
def portsOf? (p : Program) (r : Ref) : Option (List String) :=
  if r.kind == .module_ then (p.modules[r.id]?).map (·.portList)
  else if r.kind == .device then (p.devices[r.id]?).map (·.portList)
  else none

end Program

end Netlist
