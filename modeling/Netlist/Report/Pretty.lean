import Netlist.Diagnostic.Bag
import Netlist.Report.Location
import Netlist.Report.Snippet
import Netlist.Report.Style
import Netlist.Text.Width

/-!
# Reports for people

Each diagnostic is a line with its location, severity, code and message, then a
snippet, then its notes.  A short report has only the lines.
-/

namespace Netlist.Report

/-- What a report for people shows. -/
structure PrettyOptions where
  /-- Whether there are colours. -/
  color : Bool := false
  /-- How many lines a snippet has on each side. -/
  context : Int := 0
  /-- How paths are written. -/
  pathMode : PathMode := .automatic
  notes : Bool := false
  deriving DecidableEq, Repr

def severityStyle (s : Severity) : Style :=
  if s == .error then .error else if s == .warning then .warning else .info

/-- Whether a report shows the notes of a diagnostic.  Timings say all they have to say
in a note. -/
def showsNotes (notes : Bool) (d : Diagnostic) : Bool := notes || d.code == .timings

/-- Blanks as wide as a text.  Tabs are kept, so that what follows stands below what
follows the text. -/
def blankLike (text : Bytes) : String :=
  String.ofList (text.chars.flatMap fun (c, _) =>
    if c == '\t' then ['\t'] else List.replicate (Text.charWidth c) ' ')

/-- The mark below a text: as wide as the text, and never empty. -/
def underline (marked : Bytes) : String :=
  String.ofList ('^' :: List.replicate (Text.bytesWidth marked - 1) '~')

/-- The margin before a line. -/
def marginText (color : Bool) (width : Nat) (label : String) : Bytes :=
  Bytes.ofString (Style.margin.paint color (Text.padLeft width label ++ " |") ++ " ")

/-- A row of a snippet, with a second line for its mark. -/
def rowText (color : Bool) (width : Nat) (r : Row) : Bytes :=
  let line := marginText color width (Decimal.ofNat r.number) ++ r.text ++ Bytes.ofString "\n"
  match r.mark with
  | none => line
  | some m => line ++ marginText color width "" ++
      Bytes.ofString (blankLike m.before ++ Style.mark.paint color (underline m.marked) ++ "\n")

/-- The rows of a snippet; the numbers stand right in a column. -/
def rowsText (color : Bool) (rows : List Row) : Bytes :=
  let last := (rows.getLast?.map (·.number)).getD 0
  rows.flatMap (rowText color ((Decimal.ofNat last).length + 2))

def snippetText (fs : FileSet) (color : Bool) (context : Int) (s : Span) : Bytes :=
  match place? fs s with
  | none => []
  | some (f, _, _) => rowsText color (snippet f s context)

def noteText (fs : FileSet) (o : PrettyOptions) (n : Note) : Bytes :=
  let word := "  " ++ Style.note.paint o.color "note:" ++ " "
  let place := if n.span.isKnown then location fs o.pathMode n.span ++ ": " else ""
  Bytes.ofString (word ++ place ++ n.message.toText ++ "\n") ++ snippetText fs o.color 0 n.span

def diagnosticText (fs : FileSet) (o : PrettyOptions) (d : Diagnostic) : Bytes :=
  let head := location fs o.pathMode d.span ++ ": " ++
    (severityStyle d.severity).paint o.color d.severity.name ++ " " ++
    Style.code.paint o.color d.code.id ++ ": " ++ d.message.toText ++ "\n"
  Bytes.ofString head ++ snippetText fs o.color o.context d.span ++
    (if showsNotes o.notes d then d.notes.flatMap (noteText fs o) else [])

/-- What says that diagnostics are missing. -/
def droppedText (b : Bag) : String :=
  if b.dropped == 0 then ""
  else "... " ++ Decimal.ofNat b.dropped ++ " more diagnostic(s) not shown (limit " ++
    Decimal.ofNat b.limit ++ ")\n"

/-- A report for people. -/
def pretty (fs : FileSet) (o : PrettyOptions) (b : Bag) : Bytes :=
  b.items.flatMap (diagnosticText fs o) ++ Bytes.ofString (droppedText b)

/-- A report with one line for each diagnostic. -/
def short (fs : FileSet) (mode : PathMode) (b : Bag) : String :=
  String.join (b.items.map fun d =>
    location fs mode d.span ++ ": " ++ d.severity.name ++ " " ++ d.code.id ++ ": " ++
      d.message.toText ++ "\n")

end Netlist.Report
