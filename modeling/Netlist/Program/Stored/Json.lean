import Netlist.Program.Json
import Netlist.Program.Stored.Basic

/-!
# Stored programs as JSON

The view of a stored program as JSON is that of the program, except that a map that is
missing is shown as such.
-/

namespace Netlist.Stored

/-- A list of things as an object, sorted by the bytes of the identifiers. -/
def thingsToJson {α : Type} (id : α → Ident) (f : α → Json) (s : MessagePack.Slots (Option α)) :
    Json :=
  match s.items with
  | none => .null
  | some _ => mapToJson f (byId id s)

def Module.toJson (m : Module) : Json :=
  m.toModule.toJsonWith (thingsToJson Net.id (fun n => n.toNet.toJson) m.nets)
    (thingsToJson Instance.id (fun i => i.toInstance.toJson) m.instances)
    (thingsToJson Endpoint.id (fun e => e.toEndpoint.toJson) m.endpoints)

def Program.toJson (p : Program) : Json :=
  p.toProgram.toJsonWith (thingsToJson Module.id Module.toJson p.modules)
    (thingsToJson Device.id (fun d => d.toDevice.toJson) p.devices)

end Netlist.Stored
