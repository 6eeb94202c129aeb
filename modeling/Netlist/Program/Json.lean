import Netlist.Pattern.PartCodec
import Netlist.Program.Basic

/-!
# Programs as JSON
-/

namespace Netlist

/-! ## Writing -/

def Param.toJson (p : Param) : Json := .obj [("name", .str p.name), ("value", .str p.value)]

/-- Parameters as a member that is left out when there are none. -/
def paramsMember (key : String) (ps : Option (List Param)) : List (String × Json) :=
  Json.optArr key ((ps.getD []).map Param.toJson)

def Origin.toJson (o : Origin) : Json :=
  .obj ([("expr", .str o.expression.text), ("segment", .int o.segment),
    ("base_name", .str o.base)] ++
    Json.optArr "parts" ((o.parts.getD []).map Part.toJson))

/-- An origin as a member that is left out when there is none. -/
def originMember (o : Option Origin) : List (String × Json) :=
  match o with
  | some o => [("origin", o.toJson)]
  | none => []

def Ref.toJson (r : Ref) : Json :=
  .obj [("kind", .nat r.kind.byte.toNat), ("id", .str r.id.text), ("token", .str r.token)]

def Net.toJson (n : Net) : Json :=
  .obj ([("id", .str n.id.text), ("name", .str n.name)] ++ Json.optBool "port" n.isPort ++
    originMember n.origin)

def Instance.toJson (i : Instance) : Json :=
  .obj ([("id", .str i.id.text), ("name", .str i.name), ("ref", i.ref.toJson)] ++
    paramsMember "params" i.params ++ originMember i.origin)

def Endpoint.toJson (e : Endpoint) : Json :=
  .obj ([("id", .str e.id.text), ("net", .str e.net.text), ("instance", .str e.inst.text),
    ("port", .str e.port)] ++ Json.optBool "default" e.isDefault)

/-- A map of things as JSON, sorted by the bytes of the identifiers. -/
def mapToJson {α : Type} (f : α → Json) (m : IdMap α) : Json :=
  .obj ((m.toList.mergeSort fun a b => a.1.bytes ≤ b.1.bytes).map fun e => (e.1.text, f e.2))

/-- A module as JSON, with its maps given. -/
def Module.toJsonWith (m : Module) (nets instances endpoints : Json) : Json :=
  .obj ([("id", .str m.id.text), ("name", .str m.name), ("ports", .listOrNull .str m.ports)] ++
    paramsMember "parameters" m.parameters ++
    [("nets", nets), ("instances", instances), ("endpoints", endpoints)])

def Module.toJson (m : Module) : Json :=
  m.toJsonWith (mapToJson Net.toJson m.nets) (mapToJson Instance.toJson m.instances)
    (mapToJson Endpoint.toJson m.endpoints)

/-- What a back end needs to know, as JSON. -/
def Backend.toJson (b : Backend) : Json :=
  .obj [("name", .str b.name), ("fields", .listOrNull Param.toJson b.fields)]

def Device.toJson (d : Device) : Json :=
  .obj ([("id", .str d.id.text), ("name", .str d.name), ("ports", .listOrNull .str d.ports)] ++
    paramsMember "parameters" d.parameters ++
    Json.optArr "backends" ((d.backends.getD []).map Backend.toJson))

/-- A program as JSON, with its maps given. -/
def Program.toJsonWith (p : Program) (modules devices : Json) : Json :=
  .obj [("top", .str p.top.text), ("modules", modules), ("devices", devices),
    ("emit_order", .listOrNull (fun i : Ident => .str i.text) p.emitOrder)]

def Program.toJson (p : Program) : Json :=
  p.toJsonWith (mapToJson Module.toJson p.modules) (mapToJson Device.toJson p.devices)

/-! ## Reading

What is missing has an empty value, and what has the wrong type counts as
missing. -/

/-- A list of things, or none for anything that is not a list. -/
def listOfJson {α : Type} (f : Json → α) : Json → Option (List α)
  | .arr items => some (items.map f)
  | _ => none

/-- A map of things by the keys of an object. -/
def mapOfJson {α : Type} (f : Json → α) (v : Json) : IdMap α :=
  v.asMembers.foldl (fun m e => m.insert (.ofText e.1) (f e.2)) ∅

def Ident.ofMember (v : Json) (key : String) : Ident := .ofText (v.get key).asString

def Param.ofJson (v : Json) : Param := ⟨(v.get "name").asString, (v.get "value").asString⟩

def Origin.ofJson (v : Json) : Origin :=
  ⟨.ofMember v "expr", (v.get "segment").asInt, (v.get "base_name").asString,
    listOfJson (fun p => (Part.ofJson? p).getD .unset) (v.get "parts")⟩

/-- An origin from JSON, none for `null`. -/
def originOfJson : Json → Option Origin
  | .null => none
  | v => some (Origin.ofJson v)

def Ref.ofJson (v : Json) : Ref :=
  ⟨⟨UInt8.ofNat (v.get "kind").asInt.toNat⟩, .ofMember v "id", (v.get "token").asString⟩

def Net.ofJson (v : Json) : Net :=
  { id := .ofMember v "id", name := (v.get "name").asString, isPort := (v.get "port").asBool,
    origin := originOfJson (v.get "origin") }

def Instance.ofJson (v : Json) : Instance :=
  { id := .ofMember v "id", name := (v.get "name").asString, ref := Ref.ofJson (v.get "ref"),
    params := listOfJson Param.ofJson (v.get "params"), origin := originOfJson (v.get "origin") }

def Endpoint.ofJson (v : Json) : Endpoint :=
  { id := .ofMember v "id", net := .ofMember v "net", inst := .ofMember v "instance",
    port := (v.get "port").asString, isDefault := (v.get "default").asBool }

def Module.ofJson (v : Json) : Module :=
  { id := .ofMember v "id", name := (v.get "name").asString,
    ports := listOfJson Json.asString (v.get "ports"),
    parameters := listOfJson Param.ofJson (v.get "parameters"),
    nets := mapOfJson Net.ofJson (v.get "nets"),
    instances := mapOfJson Instance.ofJson (v.get "instances"),
    endpoints := mapOfJson Endpoint.ofJson (v.get "endpoints") }

/-- What a back end needs to know, from JSON. -/
def Backend.ofJson (v : Json) : Backend :=
  ⟨(v.get "name").asString, listOfJson Param.ofJson (v.get "fields")⟩

def Device.ofJson (v : Json) : Device :=
  { id := .ofMember v "id", name := (v.get "name").asString,
    ports := listOfJson Json.asString (v.get "ports"),
    parameters := listOfJson Param.ofJson (v.get "parameters"),
    backends := listOfJson Backend.ofJson (v.get "backends") }

def Program.ofJson (v : Json) : Program :=
  { top := .ofMember v "top", modules := mapOfJson Module.ofJson (v.get "modules"),
    devices := mapOfJson Device.ofJson (v.get "devices"),
    emitOrder := listOfJson (fun i => .ofText i.asString) (v.get "emit_order") }

end Netlist
