import Netlist.Json.Parser
import Netlist.Json.Printer
import Netlist.Pattern.StoredPart

/-!
# Storing parts

A part is stored as a bare text or number, in JSON and in MessagePack.  A JSON
number is read through a double, so numbers past 2⁵³ may change.
-/

namespace Netlist.Part

def toJson : Part → Json
  | .number n => .int n
  | p => .str p.text

/-- Why a JSON text is not a part. -/
inductive JsonError where
  | syntaxError (e : Json.ParseError)
  /-- A number in it is too large for a double. -/
  | outOfRange (n : Json.LargeNumber)
  /-- The value is neither a text nor a number. -/
  | unexpected (text : String)

/-- A step of a path as messages show it.  A tilde and a slash are escaped. -/
def shownStep (step : String) : String :=
  String.ofList (step.toList.flatMap fun c =>
    if c == '~' then ['~', '0'] else if c == '/' then ['~', '1'] else [c])

/-- Where a number stands as messages show it.  An item of a list is told from a field by
its index. -/
def shownPlace (path : List String) : String :=
  let shown := ".".intercalate (path.map shownStep)
  let last := (shown.toList.splitOn '.').getLastD []
  if shown.isEmpty then "Go value"
  else if !last.isEmpty && last.all Decimal.isDigit then "." ++ shown
  else "Go struct field ." ++ shown

def JsonError.message : JsonError → String
  | syntaxError e => e.message
  | outOfRange n =>
    "json: cannot unmarshal number " ++ n.text ++ " into " ++ shownPlace n.path ++
      " of type float64"
  | unexpected text => "pattern part: unexpected JSON value " ++ text

/-- The part that a JSON value is, if it is a text or a number. -/
def ofJson? : Json → Option Part
  | .str s => some (.literal s)
  | .num n => some (.number n.toBinary64.toInt64)
  | _ => none

/-- A text without the blanks of JSON around it. -/
def stripSpaces (s : String) : String :=
  String.ofList ((s.toList.dropWhile Json.isSpace).reverse.dropWhile Json.isSpace).reverse

def readJson (s : String) : Except JsonError Part :=
  match Json.read s with
  | .error e => .error (.syntaxError e)
  | .ok (_, some n) => .error (.outOfRange n)
  | .ok (v, none) =>
    match ofJson? v with
    | some p => .ok p
    | none => .error (.unexpected (stripSpaces s))

def toMessagePack (p : Part) : Bytes := (Stored.Part.ofPart p).toMessagePack.bytes

def reader : MessagePack.Reader Part := return (← Stored.Part.reader).toPart

end Netlist.Part
