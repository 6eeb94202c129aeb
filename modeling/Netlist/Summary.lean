import Netlist.Program.Basic
import Netlist.Text.Cells
import Netlist.Timer

/-!
# Summaries of a run

A summary is a table of the modules of a program with how much each of them holds,
and how long the stages of the run took.
-/

namespace Netlist

/-- How much a module holds. -/
structure ModuleCounts where
  name : String
  ports : Nat
  nets : Nat
  instances : Nat
  endpoints : Nat
  defaults : Nat
  deriving DecidableEq, Repr

/-- What a summary tells about a run. -/
structure Summary where
  top : String
  files : Nat
  devices : Nat
  cached : Bool
  modules : List ModuleCounts
  stages : List StageReport

/-- How much a module holds. -/
def Module.counts (m : Module) : ModuleCounts where
  name := m.name
  ports := (m.ports.getD []).length
  nets := m.nets.toList.length
  instances := m.instances.toList.length
  endpoints := m.endpoints.toList.length
  defaults := (m.endpoints.toList.filter (·.2.isDefault)).length

namespace Summary

def of (p : Program) (files : Nat) (cached : Bool) (timings : TimingReport) : Summary where
  top := ((p.modules.get? p.top).map (·.name)).getD ""
  files := files
  devices := p.devices.toList.length
  cached := cached
  modules := (p.emitOrder.getD []).filterMap fun id => (p.modules.get? id).map Module.counts
  stages := timings.stages.getD []

/-! ## The table -/

/-- Four spaces for every tab. -/
def withoutTabs (text : List Char) : List Char :=
  text.flatMap fun c => if c = '\t' then [' ', ' ', ' ', ' '] else [c]

/-- A text as one block: tabs become spaces, and all lines take as many cells as the widest. -/
def block (text : String) : String :=
  let lines := ((withoutTabs text.toList).splitOn '\n').map String.ofList
  match lines with
  | [line] => line
  | lines =>
    let width := (lines.map Text.cells).foldl max 0
    "\n".intercalate (lines.map fun line =>
      line ++ String.ofList (List.replicate (width - Text.cells line) ' '))

/-- The first line. -/
def header (s : Summary) : String :=
  "top " ++ s.top ++ ": " ++ Decimal.ofNat s.modules.length ++ " module(s), " ++
    Decimal.ofNat s.devices ++ " device(s), " ++ Decimal.ofNat s.files ++ " file(s)" ++
    (if s.cached then " (cached)" else "")

/-- The width of the column of names in a table that should fit a width, or in a table
without a limit if the width is not positive. -/
def nameWidth (s : Summary) (width : Int) : Nat :=
  let wanted := (s.modules.map fun m => Text.textWidth m.name).foldl max 6
  if 0 < width then min wanted (max (width - 44) 12).toNat else wanted

/-- A row of the table after the name. -/
def cells (ports nets instances endpoints defaults : String) : String :=
  " " ++ Text.padLeft 6 ports ++ " " ++ Text.padLeft 6 nets ++ " " ++ Text.padLeft 9 instances ++
    " " ++ Text.padLeft 9 endpoints ++ " " ++ Text.padLeft 8 defaults

def moduleRow (s : Summary) (width : Nat) (m : ModuleCounts) : String :=
  let name := Text.fillRight width (Text.truncateTo width "..." m.name)
  "  " ++ (if m.name == s.top then block name else name) ++
    cells (Decimal.ofNat m.ports) (Decimal.ofNat m.nets) (Decimal.ofNat m.instances)
      (Decimal.ofNat m.endpoints) (Decimal.ofNat m.defaults) ++ "\n"

/-- A name and a number of milliseconds. -/
def timeCells (name : String) (ms : Binary64) : String :=
  "  " ++ Text.padRight 8 name ++ " " ++ Text.padLeft 8 (Binary64.fixed 2 ms) ++ " ms"

def stageRow (st : StageReport) : String :=
  timeCells st.name st.milliseconds ++
    (if st.note.isEmpty then "" else "  " ++ block st.note) ++ "\n"

def stageRows (stages : List StageReport) : String :=
  if stages.isEmpty then ""
  else
    let total := stages.foldl (fun t st => t.add st.milliseconds) Binary64.zero
    "\n" ++ String.join (stages.map stageRow) ++ timeCells "total" total ++ "\n"

/-- The summary as a table that should fit a width. -/
def render (s : Summary) (width : Int) : String :=
  let names := s.nameWidth width
  let head := "  " ++ Text.fillRight names "module" ++
    cells "ports" "nets" "instances" "endpoints" "defaults"
  block s.header ++ "\n\n" ++ block head ++ "\n" ++
    String.join (s.modules.map (s.moduleRow names)) ++ stageRows s.stages

end Summary

end Netlist
