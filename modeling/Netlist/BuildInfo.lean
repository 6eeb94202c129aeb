import Netlist.Json.Printer
import Netlist.Report.Style
import Netlist.Text.Blank

/-!
# Build information

What the tool tells about itself: its version, and the commit and the date of its
build if they were recorded.
-/

namespace Netlist

/-- Facts about a build of the tool. -/
structure BuildInfo where
  version : String := "0.3.0-dev"
  /-- The commit, empty if it was not recorded. -/
  commit : String := ""
  /-- The date, empty if it was not recorded. -/
  date : String := ""
  toolchain : String
  deriving DecidableEq, Repr

/-- Which facts are asked for. -/
structure BuildQuery where
  commit : Bool := false
  date : Bool := false
  deriving DecidableEq, Repr

namespace BuildInfo

/-- The first twelve bytes of a commit. -/
def shortCommit (commit : String) : String := Bytes.toText ((Bytes.ofString commit).take 12)

def line (b : BuildInfo) : String :=
  "netc " ++ b.version ++
    (if b.commit.isEmpty then "" else " (" ++ shortCommit b.commit ++ ")") ++
    (if b.date.isEmpty then "" else " built " ++ b.date)

/-- The version with its three numbers in colour.  What follows the third number stays
plain, and so does a version without three parts. -/
def coloredVersion (b : BuildInfo) : String :=
  match b.version.toList.splitOn '.' with
  | major :: minor :: rest@(_ :: _) =>
    let rest := ['.'].intercalate rest
    let patch := rest.takeWhile fun c => c != '-' && c != '+'
    let paint (color : Nat) (cs : List Char) : String :=
      (Report.Style.mk [color, Report.Style.bold]).paint true (String.ofList cs)
    paint 33 major ++ "." ++ paint 32 minor ++ "." ++ paint 34 patch ++
      String.ofList (rest.drop patch.length)
  | _ => b.version

/-- The version, in colour or plain. -/
def shownVersion (b : BuildInfo) (color : Bool) : String :=
  if color then b.coloredVersion else b.version

/-- A recorded fact, or a word for one that was not recorded. -/
def orUnknown (fact : String) : String :=
  let fact := Text.trim fact
  if fact.isEmpty then "unknown" else fact

/-- The facts that are asked for as JSON. -/
def toJson (b : BuildInfo) (q : BuildQuery) : Json :=
  .obj ([("tool", .str "netc"), ("version", .str b.version), ("go_version", .str b.toolchain)] ++
    (if q.commit then [("git_commit", .str (orUnknown b.commit))] else []) ++
    (if q.date then [("build_date", .str (orUnknown b.date))] else []))

/-- The facts that are asked for as text. -/
def render (b : BuildInfo) (q : BuildQuery) (color : Bool) : String :=
  if !q.commit && !q.date then "netc " ++ b.shownVersion color ++ "\n"
  else b.line ++ "\n" ++
    (if q.commit then "commit: " ++ orUnknown b.commit ++ "\n" else "") ++
    (if q.date then "built:  " ++ orUnknown b.date ++ "\n" else "") ++
    "go:     " ++ b.toolchain ++ "\n"

end BuildInfo

end Netlist
