import Netlist.Report.Location

/-!
# Listings

A listing has one line for each diagnostic and note, sorted by place, so that two
sets of diagnostics can be compared.
-/

namespace Netlist.Report

/-- A line of a listing. -/
structure ListingLine where
  /-- The path, empty for a problem outside all files. -/
  path : String := ""
  /-- Where in the file. -/
  position : Position := .none
  severity : Severity
  code : Code
  message : String
  deriving DecidableEq, Repr

namespace ListingLine

def of (fs : FileSet) (severity : Severity) (code : Code) (s : Span) (message : String) :
    ListingLine :=
  let line : ListingLine := { severity := severity, code := code, message := message }
  match place? fs s with
  | none => line
  | some (_, start, _) => { line with path := fs.displayPath s.file, position := start }

def ofDiagnostic (fs : FileSet) (notes : Bool) (d : Diagnostic) : List ListingLine :=
  of fs d.severity d.code d.span d.message.toText ::
    if notes then d.notes.map fun n => of fs .info d.code n.span ("note: " ++ n.message.toText)
    else []

/-- Whether a line stands before another one: by path, then by line, then by column. -/
def before (a b : ListingLine) : Bool :=
  if a.path != b.path then a.path < b.path
  else if a.position.line != b.position.line then a.position.line < b.position.line
  else a.position.column < b.position.column

def text (l : ListingLine) : String :=
  let place := if l.path.isEmpty then "" else
    l.path ++ ":" ++ Decimal.ofNat l.position.line.toNat ++ ":" ++
      Decimal.ofNat l.position.column.toNat ++ ": "
  place ++ l.severity.name ++ " " ++ l.code.id ++ " " ++ l.message ++ "\n"

end ListingLine

def listingLines (fs : FileSet) (notes : Bool) (ds : List Diagnostic) : List ListingLine :=
  (ds.flatMap (ListingLine.ofDiagnostic fs notes)).mergeSort fun a b => !b.before a

def listing (fs : FileSet) (notes : Bool) (ds : List Diagnostic) : String :=
  String.join ((listingLines fs notes ds).map ListingLine.text)

end Netlist.Report
