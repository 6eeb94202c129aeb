import Netlist.Pattern.Lexeme
import Netlist.Pattern.Problem
import Netlist.Text.Blank

/-!
# Reading pattern expressions

The lexemes of a text are put together into segments.  Problems are collected
with the byte range they concern; the reading goes on after most of them, so
that one pass finds as many as it can.  An expression is accepted when none of
the problems is an error.

A group `<@name>` stands for the definition of a named pattern.  Such a
definition is itself an expression: one plain group and nothing else.
-/

namespace Netlist.Pattern

/-- The atoms that an expression may have when no limit is given. -/
def defaultMaxAtoms : Nat := 10000

/-- How expressions are read and expanded. -/
structure Options where
  /-- The limit on atoms; the default one applies unless it is positive. -/
  maxAtoms : Int := 0
  /-- Whether separators are refused. -/
  noSplice : Bool := false
  /-- The named patterns with their definitions. -/
  named : List (String × String) := []
  /-- The place of the expression. -/
  span : Span := ⟨0, 0, 0⟩

def Options.limit (o : Options) : Nat :=
  if o.maxAtoms ≤ 0 then defaultMaxAtoms else o.maxAtoms.toNat

/-- A problem with the byte range of the expression that it concerns. -/
structure Finding where
  problem : Problem
  start : Nat
  /-- The byte past the last one. -/
  stop : Nat
  deriving DecidableEq, Repr

def Finding.isError (f : Finding) : Bool := f.problem.severity.isError

/-- What is known about a name in a group. -/
inductive NamedPattern where
  /-- No pattern has the name. -/
  | unknown
  /-- The definition is not a single group. -/
  | invalid (definition : String)
  /-- The group that the name stands for. -/
  | group (g : Group)

/-- Whether a character may start the name of an axis. -/
def isNameStart (c : Char) : Bool := c == '_' || ('a' ≤ c && c ≤ 'z') || ('A' ≤ c && c ≤ 'Z')

/-- Whether a text is the name of an axis: a letter or an underscore, then such
characters and digits. -/
def isAxisName (name : String) : Bool :=
  match name.toList with
  | [] => false
  | c :: cs => isNameStart c && cs.all fun d => isNameStart d || Decimal.isDigit d

/-! ## Groups -/

/-- Which way a range counts. -/
inductive Direction where
  /-- Every value is one more than the value before. -/
  | up
  /-- Every value is one less than the value before. -/
  | down
  deriving DecidableEq, Repr

namespace Direction

/-- What is added to a value to get the next one. -/
def step : Direction → Int64
  | up => 1
  | down => -1

/-- How many steps it takes from a value to another one, around all words if need be. -/
def stepsTo (last : Int64) : Direction → Int64 → Nat
  | up, v => (last - v).toBitVec.toNat
  | down, v => (v - last).toBitVec.toNat

theorem stepsTo_step_lt (d : Direction) {last v : Int64} (h : v ≠ last) :
    d.stepsTo last (v + d.step) < d.stepsTo last v := by
  rw [Ne, ← Int64.toBitVec_inj] at h
  have hup : (1 : Int64).toBitVec = 1#64 := rfl
  have hdown : (-1 : Int64).toBitVec = -1#64 := rfl
  cases d <;> simp only [stepsTo, step, Int64.toBitVec_sub, Int64.toBitVec_add, hup, hdown]
  · bv_omega
  · bv_omega

end Direction

/-- Adds the values from `v` on, step by step, until `last` has been added. -/
def countTo (d : Direction) (last v : Int64) (items : Array Part) : Array Part :=
  let items := items.push (.number v.toInt)
  if v = last then items else countTo d last (v + d.step) items
termination_by d.stepsTo last v
decreasing_by exact d.stepsTo_step_lt ‹_›

/-- The way between two bounds. -/
structure Stretch where
  /-- Which way it goes. -/
  direction : Direction
  /-- How far the bounds are apart. -/
  distance : Int64

/-- The way from `hi` to `lo`. -/
def Stretch.between (hi lo : Int64) : Stretch :=
  if lo < hi then ⟨.down, hi - lo⟩ else ⟨.up, lo - hi⟩

/-- How many values there are on the way.  A distance that is not negative has a successor
among the words without a sign, whatever it is. -/
def Stretch.count (s : Stretch) : UInt64 := s.distance.toUInt64 + 1

/-- Reads what stands between angle brackets. -/
def readEnumeration (raw : String) (content : List Char) (start stop : Nat) :
    Option Group × List Finding :=
  if content.all Text.isBlank then (none, [⟨.emptyEnumeration raw, start, stop⟩])
  else
    let items := (content.splitOn ',').map Text.trimChars
    if items.any List.isEmpty then (none, [⟨.emptyItem (String.ofList content), start, stop⟩])
    else
      let group : Group :=
        { kind := .enumeration, items := items.map (.literal <| String.ofList ·), start := start,
          stop := stop }
      let findings : List Finding :=
        if items.length == 1 then [⟨.singleItem (String.ofList content), start, stop⟩] else []
      (some group, findings)

/-- Reads the bounds between square brackets: two numbers that are not negative. -/
def readBounds? (first second : List Char) : Option (Nat × Nat) :=
  match Decimal.readInt64? (Text.trimChars first), Decimal.readInt64? (Text.trimChars second) with
  | some hi, some lo => if hi < 0 || lo < 0 then none else some (hi.toNat, lo.toNat)
  | _, _ => none

/-- Counts the values of a range if they are within the limit. -/
def countRange (limit : Nat) (content : String) (hi lo : Int64) (start stop : Nat) :
    Option Group × List Finding :=
  let way := Stretch.between hi lo
  if limit ≤ way.distance.toInt then
    (none, [⟨.rangeTooLarge content way.count.toNat limit, start, stop⟩])
  else
    let room := Array.emptyWithCapacity (way.distance + 1).toNatClampNeg
    let items := (countTo way.direction lo hi room).toList
    (some { kind := .range, items := items, start := start, stop := stop }, [])

/-- Reads what stands between square brackets. -/
def readRange (raw : String) (limit : Nat) (content : List Char) (start stop : Nat) :
    Option Group × List Finding :=
  if content.all Text.isBlank then (none, [⟨.emptyRange raw, start, stop⟩])
  else
    match content.splitOn ':' with
    | [first, second] =>
      match readBounds? first second with
      | none => (none, [⟨.rangeBounds (String.ofList content), start, stop⟩])
      | some (hi, lo) => countRange limit (String.ofList content) (.ofNat hi) (.ofNat lo) start stop
    | _ => (none, [⟨.rangeForm (String.ofList content), start, stop⟩])

def readNamed (lookup : String → NamedPattern) (name : List Char) (start stop : Nat) :
    Option Group × List Finding :=
  let name := String.ofList name
  if !isAxisName name then (none, [⟨.invalidReference name, start, stop⟩])
  else
    match lookup name with
    | .unknown => (none, [⟨.unknownNamed name, start, stop⟩])
    | .invalid definition => (none, [⟨.invalidNamed name definition, start, stop⟩])
    | .group g => (some { g with axis := some name, start := start, stop := stop }, [])

def readGroup (lookup : String → NamedPattern) (raw : String) (limit : Nat) (delimiter : Delimiter)
    (content : List Char) (start : Nat) : Option Group × List Finding :=
  let stop := start + (String.ofList content).utf8ByteSize + 2
  match delimiter, content with
  | .square, _ => readRange raw limit content start stop
  | .angle, '@' :: name => readNamed lookup name start stop
  | .angle, _ => readEnumeration raw content start stop

/-! ## Segments -/

/-- What has been read so far.  Lists hold their last element first. -/
structure Reading where
  /-- The pieces of the current segment. -/
  pieces : List Piece := []
  /-- Whether the current segment holds a stray bracket. -/
  broken : Bool := false
  /-- Where the current segment starts. -/
  start : Nat := 0
  segments : List Segment := []
  findings : List Finding := []

def Reading.note (r : Reading) (fs : List Finding) : Reading :=
  { r with findings := fs.reverse ++ r.findings }

/-- Ends the current segment at an offset. -/
def Reading.finish (r : Reading) (raw : String) (stop : Nat) : Reading :=
  let r := if r.pieces.isEmpty && !r.broken then r.note [⟨.emptySegment raw, r.start, stop⟩] else r
  { r with
    segments := ⟨r.pieces.reverse, r.start, stop⟩ :: r.segments
    pieces := []
    broken := false
    start := stop + 1 }

/-- Puts lexemes together. -/
def Reading.run (lookup : String → NamedPattern) (raw : String) (limit : Nat) (noSplice : Bool) :
    Reading → List Lexeme → Reading
  | r, [] =>
    let r := r.finish raw raw.utf8ByteSize
    if noSplice && 1 < r.segments.length then r.note [⟨.spliceRefused raw, 0, raw.utf8ByteSize⟩]
    else r
  | r, lexeme :: rest =>
    match lexeme with
    | .text _ chars =>
      Reading.run lookup raw limit noSplice
        { r with pieces := .text (String.ofList chars) :: r.pieces } rest
    | .separator pos => Reading.run lookup raw limit noSplice (r.finish raw pos) rest
    | .group start delimiter content =>
      let (group, findings) := readGroup lookup raw limit delimiter content start
      let r := r.note findings
      let r := match group with
        | some g => { r with pieces := .group g :: r.pieces }
        | none => r
      Reading.run lookup raw limit noSplice r rest
    | .stray pos c =>
      Reading.run lookup raw limit noSplice
        { r.note [⟨.unexpectedClose c raw, pos, pos + 1⟩] with broken := true } rest
    | .nested start stop => r.note [⟨.nestedGroup raw, start, stop⟩]
    | .unclosed start stop d => r.note [⟨.unclosedGroup d.opening raw, start, stop⟩]

/-- Reads an expression, given what names stand for: the expression, if there is
no error, and all findings in order. -/
def readWith (lookup : String → NamedPattern) (limit : Nat) (noSplice : Bool) (raw : String) :
    Option Expression × List Finding :=
  if Text.isBlankText raw then (none, [⟨.emptyExpression, 0, raw.utf8ByteSize⟩])
  else
    let r := Reading.run lookup raw limit noSplice {} (lexemes raw)
    let findings := r.findings.reverse
    if findings.any Finding.isError then (none, findings)
    else (some ⟨raw, r.segments.reverse⟩, findings)

/-- The group that the definition of a named pattern is, if it is a single plain
group. -/
def definitionGroup? (limit : Nat) (definition : String) : Option Group :=
  match (readWith (fun _ => .unknown) limit true (Text.trim definition)).1 with
  | some ⟨_, [⟨[.group g], _, _⟩]⟩ => if g.axis.isNone then some g else none
  | _ => none

def Options.lookup (o : Options) (name : String) : NamedPattern :=
  match o.named.find? fun n => n.1 == name with
  | none => .unknown
  | some (_, definition) =>
    match definitionGroup? o.limit definition with
    | some g => .group g
    | none => .invalid definition

/-- Reads an expression: the expression, if there is no error, and all findings. -/
def read (o : Options) (raw : String) : Option Expression × List Finding :=
  readWith o.lookup o.limit o.noSplice raw

/-- The place that findings are reported in.  A span of zeros counts as nowhere. -/
def Options.readSpan (o : Options) : Span := if o.span == ⟨0, 0, 0⟩ then Span.nowhere else o.span

/-- Reads an expression and reports what is wrong with it. -/
def parse (o : Options) (raw : String) : Logged (Option Expression) :=
  let (expression, findings) := read o raw
  ⟨expression, findings.map fun f => f.problem.at_ (o.readSpan.slice f.start f.stop)⟩

/-- Checks the definition of a named pattern by itself. -/
def validateNamed (name definition : String) (span : Span) : Logged Bool := do
  if !isAxisName name then
    Logged.report ((Problem.invalidName name).at_ span)
    return false
  else if (definitionGroup? defaultMaxAtoms definition).isNone then
    Logged.report ((Problem.invalidNamed name definition).at_ span)
    return false
  else return true

end Netlist.Pattern
