import Netlist.Design.Basic
import Netlist.Document.Json
import Netlist.Symbol.Table

/-!
# Designs as JSON

Expressions are written as the identifiers that they have in the table of the
design.
-/

namespace Netlist

def Symbol.toJson (s : Symbol) : Json :=
  .obj [("kind", .str s.definition.kindName), ("id", .str s.id.text), ("name", .str s.name),
    ("file", .nat s.file.toNat), ("span", s.span.toJson)]

def SymbolBase.toJson (b : SymbolBase) : Json :=
  .arr (b.tables.map fun t =>
    .obj [("file", .nat t.file.toNat), ("symbols", .arr (t.symbols.map Symbol.toJson))])

namespace Design

def refJson (r : Ref) : Json :=
  .obj [("kind", .str r.kind.name), ("id", .str r.id.text), ("token", .str r.token)]

/-- Names with values as a JSON list of pairs. -/
def pairsJson (ps : List Param) : Json := .arr (ps.map fun p => .strings [p.name, p.value])

def netJson (n : DesignNet) : Json :=
  .obj [("expr", .str n.expression.text), ("port", .bool n.isPort),
    ("endpoints", .arr (n.endpoints.map fun e =>
      .arr [.str e.expression.text, .bool e.isSuppressed]))]

def instanceJson (i : DesignInstance) : Json :=
  .obj [("expr", .str i.expression.text), ("ref", refJson i.ref),
    ("params", .arr (i.params.map fun p => .strings [p.name, p.expression.text]))]

def bindingJson (b : DesignBinding) : Json :=
  .obj [("port", .str b.port), ("net", .str b.net.text), ("span", b.span.toJson)]

def defaultJson (d : DesignDefault) : Json :=
  .obj [("ref", refJson d.ref), ("span", d.span.toJson),
    ("bindings", .arr (d.bindings.map bindingJson))]

def moduleJson (m : DesignModule) : Json :=
  .obj [("id", .str m.id.text), ("name", .str m.name), ("name_expr", .str m.nameExpression.text),
    ("file", .nat m.file.toNat), ("span", m.span.toJson), ("patterns", pairsJson m.patterns),
    ("parameters", pairsJson m.parameters), ("nets", .arr (m.nets.map netJson)),
    ("instances", .arr (m.instances.map instanceJson)),
    ("defaults", .arr (m.defaults.map defaultJson))]

def expressionJson (e : DesignExpression) : Json :=
  .obj [("id", .str e.id.text), ("kind", .str e.kind.name), ("raw", .str e.raw),
    ("span", e.span.toJson)]

def toJson (d : Design) : Json :=
  .obj [("top", .str d.top.text), ("exprs", .arr (d.expressions.items.map expressionJson)),
    ("modules", .arr (d.modules.map moduleJson)),
    ("devices", .strings (d.devices.map (·.id.text)))]

end Design

end Netlist
