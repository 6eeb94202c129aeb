import Netlist.Json.Printer
import Netlist.Report.Pretty

/-!
# Reports for programs

A report is a JSON document of its own form, or a log in the format SARIF.
-/

namespace Netlist.Report

/-! ## Plain JSON -/

/-- What a JSON report holds. -/
structure JsonOptions where
  /-- Whether locations have lines and columns. -/
  positions : Bool := false
  /-- How paths are written. -/
  pathMode : PathMode := .automatic
  /-- How many diagnostics there are at most; all of them if that is not positive. -/
  max : Int := 0
  notes : Bool := false
  deriving DecidableEq, Repr

def positionJson (p : Position) : Json :=
  .obj [("line", .nat p.line.toNat), ("col", .nat p.column.toNat)]

/-- The location of a span as a member that is left out when there is none. -/
def locationMember (fs : FileSet) (o : JsonOptions) (s : Span) : List (String × Json) :=
  match place? fs s with
  | none => []
  | some (f, start, stop) =>
    let ends :=
      if o.positions then [("from", positionJson start), ("to", positionJson stop)] else []
    [("location", .obj ([("file", .str (filePath fs o.pathMode f)),
      ("start_byte", .nat s.start.toNat), ("end_byte", .nat s.stop.toNat)] ++ ends))]

def noteJson (fs : FileSet) (o : JsonOptions) (n : Note) : Json :=
  .obj (("message", .str n.message.toText) :: locationMember fs o n.span)

def diagnosticJson (fs : FileSet) (o : JsonOptions) (d : Diagnostic) : Json :=
  .obj ([("severity", .str d.severity.name), ("code", .str d.code.id), ("title", .str d.code.title),
    ("message", .str d.message.toText)] ++ locationMember fs o d.span ++
    Json.optArr "notes" (if showsNotes o.notes d then d.notes.map (noteJson fs o) else []))

def reportJson (fs : FileSet) (o : JsonOptions) (b : Bag) : Json :=
  let shown := if 0 < o.max then b.items.take o.max.toNat else b.items
  .obj ([("diagnostics", .arr (shown.map (diagnosticJson fs o))), ("count", .nat shown.length)] ++
    Json.optNat "dropped" (b.dropped + (b.items.length - shown.length)))

/-! ## SARIF -/

/-- The run of a tool that a log tells of. -/
structure ToolRun where
  tool : String
  version : String := ""
  arguments : List String := []
  deriving DecidableEq, Repr

def sarifMessage (text : String) : Json := .obj [("text", .str text)]

def sarifLevel (s : Severity) : String :=
  if s == .error then "error" else if s == .warning then "warning" else "note"

def sarifLocation? (fs : FileSet) (s : Span) (message : String) : Option Json :=
  (place? fs s).map fun (f, start, stop) =>
    .obj ([("physicalLocation", .obj [
      ("artifactLocation", .obj [("uri", .str (filePath fs .relative f))]),
      ("region", .obj [
        ("startLine", .nat start.line.toNat), ("startColumn", .nat start.column.toNat),
        ("endLine", .nat stop.line.toNat), ("endColumn", .nat stop.column.toNat),
        ("byteOffset", .nat s.start.toNat), ("byteLength", .nat s.length.toNat)])])] ++
      if message.isEmpty then [] else [("message", sarifMessage message)])

def sarifResult (fs : FileSet) (d : Diagnostic) : Json :=
  .obj ([("ruleId", .str d.code.id), ("level", .str (sarifLevel d.severity)),
    ("message", sarifMessage d.message.toText)] ++
    Json.optArr "locations" (sarifLocation? fs d.span "").toList ++
    Json.optArr "relatedLocations"
      (d.notes.filterMap fun n => sarifLocation? fs n.span n.message.toText))

/-- The codes of some diagnostics, each of them once and in order. -/
def codesOf (ds : List Diagnostic) : List Code :=
  ((ds.map (·.code)).eraseDups).mergeSort fun a b => a.number ≤ b.number

def sarifRule (c : Code) : Json :=
  .obj [("id", .str c.id), ("shortDescription", sarifMessage c.title)]

def sarifLog (fs : FileSet) (run : ToolRun) (b : Bag) : Json :=
  let driver := .obj ([("name", .str run.tool)] ++ Json.optStr "version" run.version ++
    [("rules", .arr ((codesOf b.items).map sarifRule))])
  let invocations := if run.arguments.isEmpty then [] else
    [("invocations", .arr [.obj [("arguments", .strings run.arguments),
      ("executionSuccessful", .bool !b.hasErrors)]])]
  .obj [("$schema", .str "https://json.schemastore.org/sarif-2.1.0.json"),
    ("version", .str "2.1.0"),
    ("runs", .arr [.obj ([("tool", .obj [("driver", driver)])] ++ invocations ++
      [("results", .arr (b.items.map (sarifResult fs)))])])]

end Netlist.Report
