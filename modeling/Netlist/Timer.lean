import Netlist.Trace.Event

/-!
# How long stages take

A timer holds the stages of a run in the order in which they began.  Times are
readings of a clock in nanoseconds; reports give milliseconds.
-/

namespace Netlist

/-- One timed stage. -/
structure TimedStage where
  name : String
  start : Int
  /-- How long it took; zero until it ends. -/
  duration : Int := 0
  /-- A remark given at its end. -/
  note : String := ""

/-- The stages of a run, in order. -/
structure Timer where
  stages : List TimedStage := []

/-- What a report says about a stage. -/
structure StageReport where
  name : String
  /-- How long it took, in milliseconds. -/
  milliseconds : Binary64
  note : String

/-- A report over all stages.  A run without stages has no list of them. -/
structure TimingReport where
  /-- How long all stages took together, in milliseconds. -/
  total : Binary64 := Binary64.zero
  stages : Option (List StageReport) := none

namespace Timer

/-- Begins a stage and gives its index. -/
def start (t : Timer) (now : Int) (name : String) : Nat × Timer :=
  (t.stages.length, { stages := t.stages ++ [{ name := name, start := now }] })

def hasStage (t : Timer) (index : Int) : Bool := 0 ≤ index && index < t.stages.length

/-- Ends a stage; nothing happens when no stage has the index. -/
def finish (t : Timer) (now : Int) (index : Int) (note : String) : Timer :=
  if t.hasStage index then
    { stages := t.stages.modify index.toNat fun s =>
        { s with duration := Trace.elapsed s.start now, note := note } }
  else t

/-- The report over the stages. -/
def report (t : Timer) : TimingReport :=
  if t.stages.isEmpty then {}
  else
    { total := Trace.milliseconds
        (Decimal.wrap64 (t.stages.foldl (fun total s => total + s.duration) 0))
      stages := some (t.stages.map fun s => ⟨s.name, Trace.milliseconds s.duration, s.note⟩) }

end Timer

namespace StageReport

def toJson (s : StageReport) : Json :=
  .obj ([("name", .str s.name), ("duration_ms", .num (.ofBinary64 s.milliseconds))] ++
    Json.optStr "note" s.note)

end StageReport

namespace TimingReport

def members (r : TimingReport) : List (String × Json) :=
  [("total_ms", .num (.ofBinary64 r.total)),
    ("stages", Json.listOrNull StageReport.toJson r.stages)]

def toJson (r : TimingReport) : Json := .obj r.members

/-- A line of the table: a name and a number of milliseconds. -/
def row (name : String) (ms : Binary64) : String :=
  "  " ++ Text.padRight 12 name ++ " " ++ Text.padLeft 8 (Binary64.fixed 2 ms) ++ " ms"

def table (r : TimingReport) : String :=
  let stages := (r.stages.getD []).map fun s =>
    row s.name s.milliseconds ++ (if s.note.isEmpty then "" else "  // " ++ s.note) ++ "\n"
  "timings:\n" ++ String.join stages ++ row "total" r.total ++ "\n"

end TimingReport

end Netlist
