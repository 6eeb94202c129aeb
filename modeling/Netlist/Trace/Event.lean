import Netlist.Json.Printer
import Netlist.Text.Width
import Netlist.Trace.Level

/-!
# Events of a trace

An event is one entry of the record: a step that began or ended, or an instant.
It is written as an indented line of text with the time since the start, or as a
line of JSON with the date and time.
-/

namespace Netlist.Trace

/-- One entry of the record. -/
structure Event where
  /-- When it happened, in nanoseconds since 1970 in universal time. -/
  time : Int
  seq : UInt64
  kind : Kind
  /-- What its step belongs to. -/
  scope : Scope
  /-- The step; zero for an instant. -/
  spanId : UInt64
  /-- The step around it; zero if there is none. -/
  parentId : UInt64
  /-- How many steps are around it. -/
  depth : Int
  /-- The names of the steps around it and its own, joined by slashes. -/
  path : String
  name : String
  detail : String
  extra : List (String × String)
  deriving DecidableEq, Repr

/-! ## Dates -/

/-- How many days the years before a year have, in a calendar that starts with the
year zero in March. -/
def daysBeforeYear (y : Int) : Int := 365 * y + y / 4 - y / 100 + y / 400

/-- A day of the calendar. -/
structure Date where
  year : Int
  month : Int
  /-- The day of the month, from one. -/
  day : Int
  deriving DecidableEq, Repr

/-- The date of a day, counted from the first day of 1970.  Years are taken to
begin in March, so that the day a leap year adds is the last one, and months are
taken from the length of five of them. -/
def Date.ofDays (days : Int) : Date :=
  let d := days + 719468
  let era := d / 146097
  let inEra := d % 146097
  let year := (inEra - inEra / 1460 + inEra / 36524 - inEra / 146096) / 365
  let inYear := inEra - daysBeforeYear year
  let m := (5 * inYear + 2) / 153
  let month := if m < 10 then m + 3 else m - 9
  { year := era * 400 + year + (if month ≤ 2 then 1 else 0)
    month := month
    day := inYear - (153 * m + 2) / 5 + 1 }

/-- A number with at least `width` digits, zeros in front. -/
def zeroPadded (width : Nat) (n : Int) : String :=
  let digits := Nat.toDigits 10 n.natAbs
  (if n < 0 then "-" else "") ++
    String.ofList (List.replicate (width - digits.length) '0' ++ digits)

/-- A time as date and time of day in universal time, to the microsecond. -/
def timestamp (time : Int) : String :=
  let micros := time / 1000
  let seconds := micros / 1000000
  let date := Date.ofDays (seconds / 86400)
  let s := seconds % 86400
  zeroPadded 4 date.year ++ "-" ++ zeroPadded 2 date.month ++ "-" ++ zeroPadded 2 date.day ++ "T" ++
    zeroPadded 2 (s / 3600) ++ ":" ++ zeroPadded 2 (s / 60 % 60) ++ ":" ++ zeroPadded 2 (s % 60) ++
    "." ++ zeroPadded 6 (micros % 1000000) ++ "Z"

/-! ## Lines -/

/-- A time that stands for no time at all: the start of the year one. -/
def unsetTime : Int := -62135596800000000000

/-- How much time lies between two times, in nanoseconds and as far as 64 bits
reach. -/
def elapsed (start time : Int) : Int :=
  max (-0x8000000000000000) (min 0x7FFFFFFFFFFFFFFF (time - start))

def milliseconds (nanos : Int) : Binary64 :=
  Binary64.div (Binary64.ofInt nanos) (Binary64.ofInt 1000000)

namespace Event

/-- The extra values, sorted by name. -/
def sortedExtra (e : Event) : List (String × String) :=
  e.extra.mergeSort fun a b => !(b.1 < a.1)

/-- The event as an indented line with the time since the start. -/
def textLine (e : Event) (start : Int) : String :=
  let nanos := if start == unsetTime then 0 else elapsed start e.time
  let extra := e.sortedExtra.map fun (k, v) => k ++ "=" ++ v
  "[" ++ Text.padLeft 9 (Binary64.fixed 3 (milliseconds nanos)) ++ "ms] " ++
    String.ofList (List.replicate (2 * e.depth.toNat) ' ') ++ e.kind.glyph ++ e.name ++
    (if e.detail.isEmpty then "" else " (" ++ e.detail ++ ")") ++
    (if extra.isEmpty then "" else " \x7b" ++ ", ".intercalate extra ++ "\x7d") ++ "\n"

def toJson (e : Event) : Json :=
  .obj ([("time", .str (timestamp e.time)), ("seq", .nat e.seq.toNat), ("kind", .str e.kind.name),
      ("scope", .str e.scope.name), ("span_id", .nat e.spanId.toNat)] ++
    Json.optNat "parent_id" e.parentId.toNat ++
    [("depth", .int e.depth), ("path", .str e.path), ("name", .str e.name)] ++
    Json.optStr "detail" e.detail ++
    (if e.extra.isEmpty then []
     else [("extra", .obj (e.sortedExtra.map fun (k, v) => (k, .str v)))]))

def line (e : Event) (format : Format) (start : Int) : String :=
  if format == Format.ndjson then e.toJson.compact ++ "\n" else e.textLine start

end Event

end Netlist.Trace
