import Netlist.Program.Stored.Basic

/-!
# Writing stored programs

The layout of a program in MessagePack.  Each thing is a map from the names of its
fields, always in the same order.  Files and spans belong to one session and are
not written.
-/

namespace Netlist.Stored

open MessagePack

def ident (i : Ident) : Value := .text i.bytes

def Param.toMessagePack (p : Param) : Value := .map [("n", .text p.name), ("v", .text p.value)]

def paramsToMessagePack (ps : Slots Param) : Value := .ofList? Param.toMessagePack ps.items

def Origin.toMessagePack (o : Origin) : Value :=
  .map [("x", ident o.expression), ("s", .int o.segment), ("b", .text o.base),
    ("p", .ofList? Part.toMessagePack o.parts)]

def Ref.toMessagePack (r : Ref) : Value :=
  .map [("k", .uint8 r.kind.byte), ("i", ident r.id), ("t", .text r.token)]

def Net.toMessagePack (n : Net) : Value :=
  .map [("id", ident n.id), ("name", .text n.name), ("port", .bool n.isPort),
    ("origin", .ofOption Origin.toMessagePack n.origin)]

def Instance.toMessagePack (i : Instance) : Value :=
  .map [("id", ident i.id), ("name", .text i.name), ("ref", i.ref.toMessagePack),
    ("params", paramsToMessagePack i.params), ("origin", .ofOption Origin.toMessagePack i.origin)]

def Endpoint.toMessagePack (e : Endpoint) : Value :=
  .map [("id", ident e.id), ("net", ident e.net), ("inst", ident e.inst), ("port", .text e.port),
    ("default", .bool e.isDefault)]

/-- Things in MessagePack, without the empty places between them. -/
def thingsToMessagePack {α : Type} (f : α → Value) (s : Slots (Option α)) : Value :=
  .list ((things s).map f)

def portsToMessagePack (ports : Option (List Bytes)) : Value := .ofList? .text ports

def Module.toMessagePack (m : Module) : Value :=
  .map [("id", ident m.id), ("name", .text m.name), ("ports", portsToMessagePack m.ports),
    ("params", paramsToMessagePack m.parameters),
    ("nets", thingsToMessagePack Net.toMessagePack m.nets),
    ("instances", thingsToMessagePack Instance.toMessagePack m.instances),
    ("endpoints", thingsToMessagePack Endpoint.toMessagePack m.endpoints)]

/-- What a back end needs to know, in MessagePack. -/
def Backend.toMessagePack (b : Backend) : Value :=
  .map [("name", .text b.name), ("fields", paramsToMessagePack b.fields)]

def Device.toMessagePack (d : Device) : Value :=
  .map [("id", ident d.id), ("name", .text d.name), ("ports", portsToMessagePack d.ports),
    ("params", paramsToMessagePack d.parameters),
    ("backends", .ofList? Backend.toMessagePack d.backends.items)]

def Program.toMessagePack (p : Program) : Value :=
  .map [("top", ident p.top), ("modules", thingsToMessagePack Module.toMessagePack p.modules),
    ("devices", thingsToMessagePack Device.toMessagePack p.devices),
    ("emit_order", .ofList? ident p.emitOrder)]

end Netlist.Stored
