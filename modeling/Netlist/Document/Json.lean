import Netlist.Document.Basic
import Netlist.Json.Basic

/-!
# Documents as JSON

Every text is written with its span, so that a tool can show where it stands.
-/

namespace Netlist

/-- A span as JSON: its file and both ends, or nothing. -/
def Span.toJson (s : Span) : Json :=
  if s == Span.nowhere then .null
  else .arr [.nat s.file.toNat, .nat s.start.toNat, .nat s.stop.toNat]

def Located.toJson (l : Located) : Json := .obj [("v", .str l.text), ("s", l.span.toJson)]

def entriesJson (es : List Entry) : Json :=
  .arr (es.map fun e => .arr [e.key.toJson, e.value.toJson])

/-- The fields for a back end as JSON. -/
def BackendDecl.toJson (b : BackendDecl) : Json :=
  .obj [("name", b.name.toJson), ("fields", entriesJson b.fields)]

def DeviceDecl.toJson (d : DeviceDecl) : Json :=
  .obj [("name", d.name.toJson), ("span", d.name.span.toJson),
    ("ports", .arr (d.ports.map Located.toJson)), ("parameters", entriesJson d.parameters),
    ("backends", .arr (d.backends.map BackendDecl.toJson))]

def EndpointDecl.toJson (e : EndpointDecl) : Json :=
  .obj [("expr", e.expression.toJson), ("suppressed", .bool e.isSuppressed)]

def NetDecl.toJson (n : NetDecl) : Json :=
  .obj [("name", n.name.toJson), ("port", .bool n.isPort),
    ("endpoints", .arr (n.endpoints.map EndpointDecl.toJson))]

def DefaultDecl.toJson (d : DefaultDecl) : Json :=
  .obj [("ref", d.ref.toJson), ("bindings", entriesJson d.bindings)]

def ModuleDecl.toJson (m : ModuleDecl) : Json :=
  .obj [("name", m.name.toJson), ("span", m.name.span.toJson),
    ("parameters", entriesJson m.parameters), ("variables", entriesJson m.vars),
    ("patterns", entriesJson m.patterns), ("instances", entriesJson m.instances),
    ("nets", .arr (m.nets.map NetDecl.toJson)),
    ("defaults", .arr (m.defaults.map DefaultDecl.toJson))]

def Document.toJson (d : Document) : Json :=
  .obj [("file", .nat d.file.toNat), ("path", .str d.path),
    ("top", .orNull (d.top.map Located.toJson)), ("imports", entriesJson d.imports),
    ("devices", .arr (d.devices.map DeviceDecl.toJson)),
    ("modules", .arr (d.modules.map ModuleDecl.toJson))]

end Netlist
