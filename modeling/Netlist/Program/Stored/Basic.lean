import Netlist.Pattern.StoredPart
import Netlist.Program.Basic

/-!
# Stored programs

The stored form of a program: texts are bytes, and the things of a program stand
in lists instead of maps.  A place of such a list may be empty.  A stored program
says more than the program it stands for: bytes that are no text are kept, and a
map that is missing is told from an empty one.
-/

namespace Netlist.Stored

open MessagePack (Slots)

/-- A stored parameter. -/
structure Param where
  name : Bytes := []
  value : Bytes := []

/-- A stored origin. -/
structure Origin where
  expression : Ident := .none
  segment : Int := 0
  base : Bytes := []
  parts : Option (List Part) := none

/-- A stored reference. -/
structure Ref where
  kind : RefKind := ⟨0⟩
  id : Ident := .none
  token : Bytes := []

/-- A stored net. -/
structure Net where
  id : Ident := .none
  name : Bytes := []
  isPort : Bool := false
  origin : Option Origin := none

/-- A stored instance. -/
structure Instance where
  id : Ident := .none
  name : Bytes := []
  ref : Ref := {}
  params : Slots Param := {}
  origin : Option Origin := none

/-- A stored endpoint. -/
structure Endpoint where
  id : Ident := .none
  net : Ident := .none
  inst : Ident := .none
  port : Bytes := []
  isDefault : Bool := false

/-- A stored module. -/
structure Module where
  id : Ident := .none
  name : Bytes := []
  ports : Option (List Bytes) := none
  parameters : Slots Param := {}
  nets : Slots (Option Net) := {}
  instances : Slots (Option Instance) := {}
  endpoints : Slots (Option Endpoint) := {}

/-- What one back end needs to know about a stored device. -/
structure Backend where
  name : Bytes := []
  fields : Slots Param := {}

/-- A stored device. -/
structure Device where
  id : Ident := .none
  name : Bytes := []
  ports : Option (List Bytes) := none
  parameters : Slots Param := {}
  backends : Slots Backend := {}

/-- A stored program. -/
structure Program where
  top : Ident := .none
  modules : Slots (Option Module) := {}
  devices : Slots (Option Device) := {}
  emitOrder : Option (List Ident) := none

/-! ## Lists of things -/

/-- The things in a list, without its empty places. -/
def things {α : Type} (s : Slots (Option α)) : List α := s.toList.filterMap fun a => a

/-- A list of things without empty places. -/
def ofThings {α : Type} (items : List α) : Slots (Option α) := { items := some (items.map some) }

/-- The things in a list by their identifiers.  Of several with the same identifier the
last one counts. -/
def byId {α : Type} (id : α → Ident) (s : Slots (Option α)) : IdMap α := IdMap.ofItems id (things s)

/-- A list of things with its things in the order of their identifiers. -/
def arrange {α : Type} (id : α → Ident) (s : Slots (Option α)) : Slots (Option α) :=
  { items := s.items.map fun _ => (byId id s).items.map some }

/-- A module with its things in order. -/
def Module.arrange (m : Module) : Module :=
  { m with
    nets := Stored.arrange Net.id m.nets
    instances := Stored.arrange Instance.id m.instances
    endpoints := Stored.arrange Endpoint.id m.endpoints }

/-- A program with its things in order, also those of its modules. -/
def Program.arrange (p : Program) : Program :=
  { p with modules := Stored.arrange Module.id (ofThings ((things p.modules).map Module.arrange)),
           devices := Stored.arrange Device.id p.devices }

/-! ## From programs -/

/-- The stored form of a parameter. -/
def Param.ofParam (p : Netlist.Param) : Param := ⟨Bytes.ofString p.name, Bytes.ofString p.value⟩

/-- The stored form of parameters. -/
def ofParams (ps : Option (List Netlist.Param)) : Slots Param :=
  { items := ps.map (·.map .ofParam) }

def ofNames (names : Option (List String)) : Option (List Bytes) := names.map (·.map Bytes.ofString)

def Origin.ofOrigin (o : Netlist.Origin) : Origin :=
  ⟨o.expression, o.segment, Bytes.ofString o.base, o.parts.map (·.map .ofPart)⟩

/-- The stored form of a reference. -/
def Ref.ofRef (r : Netlist.Ref) : Ref := ⟨r.kind, r.id, Bytes.ofString r.token⟩

def Net.ofNet (n : Netlist.Net) : Net :=
  ⟨n.id, Bytes.ofString n.name, n.isPort, n.origin.map .ofOrigin⟩

def Instance.ofInstance (i : Netlist.Instance) : Instance :=
  ⟨i.id, Bytes.ofString i.name, .ofRef i.ref, ofParams i.params, i.origin.map .ofOrigin⟩

def Endpoint.ofEndpoint (e : Netlist.Endpoint) : Endpoint :=
  ⟨e.id, e.net, e.inst, Bytes.ofString e.port, e.isDefault⟩

def Module.ofModule (m : Netlist.Module) : Module :=
  { id := m.id
    name := Bytes.ofString m.name
    ports := ofNames m.ports
    parameters := ofParams m.parameters
    nets := ofThings (m.nets.items.map .ofNet)
    instances := ofThings (m.instances.items.map .ofInstance)
    endpoints := ofThings (m.endpoints.items.map .ofEndpoint) }

/-- The stored form of what a back end needs to know. -/
def Backend.ofBackend (b : Netlist.Backend) : Backend := ⟨Bytes.ofString b.name, ofParams b.fields⟩

def Device.ofDevice (d : Netlist.Device) : Device :=
  { id := d.id
    name := Bytes.ofString d.name
    ports := ofNames d.ports
    parameters := ofParams d.parameters
    backends := { items := d.backends.map (·.map .ofBackend) } }

def Program.ofProgram (p : Netlist.Program) : Program :=
  { top := p.top
    modules := ofThings (p.modules.items.map .ofModule)
    devices := ofThings (p.devices.items.map .ofDevice)
    emitOrder := p.emitOrder }

/-! ## To programs -/

def Param.toParam (p : Param) : Netlist.Param := ⟨p.name.toText, p.value.toText⟩

def toParams (ps : Slots Param) : Option (List Netlist.Param) := ps.items.map (·.map Param.toParam)

def toNames (names : Option (List Bytes)) : Option (List String) := names.map (·.map Bytes.toText)

def Origin.toOrigin (o : Origin) : Netlist.Origin :=
  ⟨o.expression, o.segment, o.base.toText, o.parts.map (·.map Part.toPart)⟩

def Ref.toRef (r : Ref) : Netlist.Ref := ⟨r.kind, r.id, r.token.toText⟩

def Net.toNet (n : Net) : Netlist.Net :=
  { id := n.id, name := n.name.toText, isPort := n.isPort,
    origin := n.origin.map Origin.toOrigin }

def Instance.toInstance (i : Instance) : Netlist.Instance :=
  { id := i.id, name := i.name.toText, ref := i.ref.toRef, params := toParams i.params,
    origin := i.origin.map Origin.toOrigin }

def Endpoint.toEndpoint (e : Endpoint) : Netlist.Endpoint :=
  { id := e.id, net := e.net, inst := e.inst, port := e.port.toText,
    isDefault := e.isDefault }

def Module.toModule (m : Module) : Netlist.Module :=
  { id := m.id
    name := m.name.toText
    ports := toNames m.ports
    parameters := toParams m.parameters
    nets := IdMap.ofItems Netlist.Net.id ((things m.nets).map Net.toNet)
    instances := IdMap.ofItems Netlist.Instance.id ((things m.instances).map Instance.toInstance)
    endpoints := IdMap.ofItems Netlist.Endpoint.id ((things m.endpoints).map Endpoint.toEndpoint) }

/-- What a back end needs to know, as it is stored. -/
def Backend.toBackend (b : Backend) : Netlist.Backend := ⟨b.name.toText, toParams b.fields⟩

def Device.toDevice (d : Device) : Netlist.Device :=
  { id := d.id
    name := d.name.toText
    ports := toNames d.ports
    parameters := toParams d.parameters
    backends := d.backends.items.map (·.map Backend.toBackend) }

def Program.toProgram (p : Program) : Netlist.Program :=
  { top := p.top
    modules := IdMap.ofItems Netlist.Module.id ((things p.modules).map Module.toModule)
    devices := IdMap.ofItems Netlist.Device.id ((things p.devices).map Device.toDevice)
    emitOrder := p.emitOrder }

end Netlist.Stored
