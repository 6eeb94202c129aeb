import Netlist.Source.FileSet

/-!
# Documents

A document is what one design file declares: imports, devices, modules and the
name of the top module.  Every name and expression is kept with the span of its
text.  Lists are in the order of the file.
-/

namespace Netlist

/-- A text and where it stands. -/
structure Located where
  text : String
  span : Span
  deriving DecidableEq, Repr

/-- A key and its value. -/
structure Entry where
  key : Located
  value : Located
  deriving DecidableEq, Repr

/-- The fields that one back end needs to know about a device. -/
structure BackendDecl where
  /-- The name of the back end. -/
  name : Located
  fields : List Entry
  deriving DecidableEq, Repr

/-- A primitive with ports. -/
structure DeviceDecl where
  name : Located
  ports : List Located := []
  parameters : List Entry := []
  /-- What back ends need to know. -/
  backends : List BackendDecl := []
  deriving DecidableEq, Repr

/-- An expression for the ports that a net connects. -/
structure EndpointDecl where
  expression : Located
  /-- Whether overriding a default here is intended. -/
  isSuppressed : Bool
  deriving DecidableEq, Repr

/-- An expression for nets and what they connect. -/
structure NetDecl where
  name : Located
  /-- Whether the nets are ports of the module. -/
  isPort : Bool
  endpoints : List EndpointDecl
  deriving DecidableEq, Repr

/-- The nets that ports of all instances of a definition are bound to by default. -/
structure DefaultDecl where
  ref : Located
  bindings : List Entry
  deriving DecidableEq, Repr

/-- A module. -/
structure ModuleDecl where
  name : Located
  parameters : List Entry := []
  /-- The variables and their values. -/
  vars : List Entry := []
  /-- The named patterns and their definitions. -/
  patterns : List Entry := []
  /-- Expressions for instances, and what they are instances of. -/
  instances : List Entry := []
  nets : List NetDecl := []
  defaults : List DefaultDecl := []
  deriving DecidableEq, Repr

/-- What one design file declares. -/
structure Document where
  file : FileId
  path : String
  /-- The name of the top module. -/
  top : Option Located := none
  /-- The imports: names and paths. -/
  imports : List Entry := []
  devices : List DeviceDecl := []
  modules : List ModuleDecl := []
  deriving DecidableEq, Repr

namespace Document

def module? (d : Document) (name : String) : Option ModuleDecl :=
  d.modules.find? fun m => m.name.text == name

def device? (d : Document) (name : String) : Option DeviceDecl :=
  d.devices.find? fun v => v.name.text == name

end Document

end Netlist
