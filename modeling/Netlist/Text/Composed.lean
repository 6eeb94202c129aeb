import Netlist.Text.Canonical

/-!
# The composed normal form

Names are compared byte by byte, so a name should be written in one way.  That
way is the composed normal form: every character is decomposed, the marks after
a base are put in the order of their combining classes, and pairs are joined
again where a joined character exists.

A text is worked on in segments.  A segment is a base with the marks after it,
and bases that may join what is before them count as marks.  At most thirty marks
stand in a segment; a joiner that carries no meaning ends it after them.  Spans
that are in the form already are passed over (`plainSpan`).

A mark is joined with the last base at which a joining mark stood, and two code
points are looked up by their last sixteen bits.
-/

namespace Netlist.Text

/-- Whether one of the ranges holds the code point. -/
def Ranges.holdsCode (ranges : Ranges) (c : Nat) : Bool := ranges.any fun r => r.1 ≤ c && c ≤ r.2

/-- The combining class of a code point, zero for a base. -/
def combiningClass (c : Nat) : Nat :=
  ((combiningClasses.find? fun k => k.2.holdsCode c).map (·.1)).getD 0

/-- The entry of a sorted array whose key is `key`, between two bounds. -/
def searchSorted {α : Type} (keyOf : α → Nat) (table : Array α) (key : Nat) :
    (fuel low high : Nat) → Option α
  | 0, _, _ => none
  | fuel + 1, low, high =>
    if high ≤ low then none
    else
      let mid := (low + high) / 2
      match table[mid]? with
      | none => none
      | some entry =>
        if keyOf entry == key then some entry
        else if keyOf entry < key then searchSorted keyOf table key fuel (mid + 1) high
        else searchSorted keyOf table key fuel low mid

/-! ## Hangul syllables -/

/-- The first syllable. -/
def syllableBase : Nat := 0xAC00

/-- Whether a code point is a syllable. -/
def isSyllable (c : Nat) : Bool := syllableBase ≤ c && c < syllableBase + 11172

def syllableLetters (c : Nat) : List Nat :=
  let index := c - syllableBase
  let final := index % 28
  [0x1100 + index / 588, 0x1161 + index % 588 / 28] ++ (if final == 0 then [] else [0x11A7 + final])

/-- The syllable that a letter or a syllable forms with the letter after it. -/
def joinSyllable? (a b : Nat) : Option Nat :=
  if 0x1100 ≤ a && a < 0x1113 && 0x1161 ≤ b && b < 0x1176 then
    some (syllableBase + ((a - 0x1100) * 21 + (b - 0x1161)) * 28)
  else if isSyllable a && (a - syllableBase) % 28 == 0 && 0x11A8 ≤ b && b < 0x11C3 then
    some (a + (b - 0x11A7))
  else none

/-! ## Decomposition, order and composition -/

/-- The full decomposition of a code point. -/
def decompose (c : Nat) : List Nat :=
  if isSyllable c then syllableLetters c
  else
    match searchSorted (·.1) decompositions c 16 0 decompositions.size with
    | some entry => entry.2
    | none => [c]

/-- The joiner that separates overlong runs of marks. -/
def graphemeJoiner : Nat := 0x34F

/-- How many marks a segment may hold. -/
def maxMarks : Nat := 30

/-- Whether a code point is the second of a pair that is joined. -/
def joinsBack (c : Nat) : Bool :=
  (0x1161 ≤ c && c < 0x1176) || (0x11A8 ≤ c && c < 0x11C3) || compositions.any (·.2.1 == c)

/-- Whether a code point counts as a mark. -/
def isMark (c : Nat) : Bool := combiningClass c != 0 || joinsBack c

/-- The combining class at the start of a code point's decomposition. -/
def leadingClass (c : Nat) : Nat := combiningClass ((decompose c).headD c)

/-- Whether a code point is another form of a mark. -/
def isMarkForm (c : Nat) : Bool := markFormRanges.holdsCode c

/-- The number of marks at the end of a code point. -/
def trailingMarks (c : Nat) : Nat :=
  if isSyllable c then (syllableLetters c).length - 1
  else if isMarkForm c then 1
  else
    match hiddenMarks.find? fun k => k.2.holdsCode c with
    | some k => k.1
    | none => ((decompose c).reverse.takeWhile isMark).length

/-- The number of marks at the start of a code point; zero for one that starts a segment. -/
def leadingMarks (c : Nat) : Nat :=
  if isSyllable c then 0
  else if isMarkForm c || isMark ((decompose c).headD c) then trailingMarks c
  else 0

/-- Whether a code point can stand in the form as it is, whatever is before it. -/
def staysAlone (c : Nat) : Bool :=
  !joinsBack c && (isSyllable c || decompose c == [c] || compositions.any (·.2.2 == c))

/-! ## Segments -/

/-- A code point of a segment. -/
structure Held where
  code : Nat
  class_ : Nat := 0
  /-- Whether it may join what is before it. -/
  joins : Bool := false
  deriving DecidableEq, Repr

/-- A code point that is not decomposed further. -/
def Held.of (c : Nat) : Held := ⟨c, combiningClass c, joinsBack c⟩

/-- Puts a code point behind those of a segment, the last one first.  A mark goes in front
of marks with a higher class. -/
def insertHeld (h : Held) : List Held → List Held
  | [] => [h]
  | g :: rest =>
    if h.class_ != 0 && h.class_ < g.class_ then g :: insertHeld h rest else h :: g :: rest

/-- The code point that two code points are joined into. -/
def compose? (a b : Nat) : Option Nat :=
  let key (c : Nat) : Nat := c % 0x10000
  (compositions.find? fun r => key r.1 == key a && key r.2.1 == key b).map (·.2.2)

/-- The base that a mark with a class would join, given those kept so far and the last base
that was used; nothing if a mark between them keeps it apart. -/
def joiningBase (kept : Array Held) (base class_ : Nat) : Nat × Bool :=
  let last := kept.size - 1
  let lastClass := (kept.back?.map (·.class_)).getD 0
  let base := if lastClass == 0 then last else base
  (base, base == last || lastClass < class_)

/-- The code point of one that is kept. -/
def codeAt (kept : Array Held) (i : Nat) : Nat := (kept[i]?.map (·.code)).getD 0

/-- Joins the letters of syllables, from the first of them on. -/
def joinLetters : (base : Nat) → (kept : Array Held) → List Held → Array Held
  | _, kept, [] => kept
  | base, kept, h :: rest =>
    let (base, free) := joiningBase kept base h.class_
    match if free then joinSyllable? (codeAt kept base) h.code else none with
    | some c => joinLetters base (kept.setIfInBounds base ⟨c, 0, false⟩) rest
    | none => joinLetters base (kept.push h) rest

/-- Joins the code points of a segment with those before them. -/
def joinHeld : (base : Nat) → (kept : Array Held) → List Held → Array Held
  | _, kept, [] => kept
  | base, kept, h :: rest =>
    if 0x1100 ≤ h.code && h.code < 0x1200 then joinLetters base kept (h :: rest)
    else if h.joins then
      let (base, free) := joiningBase kept base h.class_
      match if free then compose? (codeAt kept base) h.code else none with
      | some c => joinHeld base (kept.setIfInBounds base ⟨c, 0, false⟩) rest
      | none => joinHeld base (kept.push h) rest
    else joinHeld base (kept.push h) rest

/-- A segment whose pairs are joined; the last code point comes first. -/
def closeSegment (held : List Held) : List Nat :=
  match held.reverse with
  | [] => []
  | h :: rest => (joinHeld 0 #[h] rest).toList.map (·.code)

/-- A segment that is being read. -/
structure Segment where
  done : List Nat := []
  /-- What may still change, the last one first. -/
  held : List Held := []

def Segment.close (s : Segment) : List Nat := s.done ++ closeSegment s.held

/-- Adds a code point of a decomposition.  One that joins nothing finishes those before it. -/
def Segment.addPart (s : Segment) (c : Nat) : Segment :=
  if !isMark c && !s.held.isEmpty then ⟨s.close, [Held.of c]⟩
  else { s with held := insertHeld (Held.of c) s.held }

/-- Adds a code point, decomposed. -/
def Segment.add (s : Segment) (c : Nat) : Segment :=
  if isSyllable c then
    { s with held := (syllableLetters c).reverse.map (⟨·, 0, false⟩) ++ s.held }
  else
    match decompose c with
    | [d] => { s with held := insertHeld (Held.of d) s.held }
    | parts => parts.foldl Segment.addPart s

/-- Reads the marks after the start of a segment.  Gives what the segment becomes and what
follows it. -/
def readMarks : (marks : Nat) → Segment → List Nat → List Nat × List Nat
  | _, s, [] => (s.close, [])
  | marks, s, c :: rest =>
    let lead := leadingMarks c
    if maxMarks < marks + lead then
      (Segment.close { s with held := ⟨graphemeJoiner, 0, false⟩ :: s.held }, c :: rest)
    else if lead == 0 then (s.close, c :: rest)
    else readMarks (marks + lead) (s.add c) rest

def readSegment : List Nat → List Nat × List Nat
  | [] => ([], [])
  | c :: rest => readMarks (trailingMarks c) (Segment.add {} c) rest

/-! ## Texts -/

/-- How many code points at the front are in the form already, up to the start of the
segment that is not, and whether all are.  `i` counts them, `start` is where the last
segment started, `last` the last class, `marks` the number of marks in the segment. -/
def plainSpanFrom : (i start last marks : Nat) → List Nat → Nat × Bool
  | i, _, _, _, [] => (i, true)
  | i, start, last, marks, c :: rest =>
    if c < 0x80 then plainSpanFrom (i + 1) i 0 0 rest
    else
      let lead := leadingMarks c
      let class_ := leadingClass c
      if maxMarks < marks + lead then (start, false)
      else if lead == 0 then
        if staysAlone c then plainSpanFrom (i + 1) i class_ (trailingMarks c) rest else (i, false)
      else if class_ < last || !staysAlone c then (start, false)
      else plainSpanFrom (i + 1) start class_ (marks + lead) rest

/-- How many code points at the front are in the form already, and whether all are. -/
def plainSpan (codes : List Nat) : Nat × Bool := plainSpanFrom 0 0 0 0 codes

/-- The form of the code points from the start of a segment on.  Every turn reads a
code point, so their number is fuel enough. -/
def composedFrom : (fuel : Nat) → List Nat → List Nat
  | 0, codes => codes
  | _, [] => []
  | fuel + 1, codes =>
    let (done, rest) := readSegment codes
    let (n, _) := plainSpan rest
    done ++ rest.take n ++ composedFrom fuel (rest.drop n)

/-- The composed normal form of a text. -/
def composed (s : String) : String :=
  let codes := s.toList.map Char.toNat
  let (n, all) := plainSpan codes
  if all then s
  else String.ofList ((codes.take n ++ composedFrom codes.length (codes.drop n)).map Char.ofNat)

/-- Whether a text is in the composed normal form. -/
def isComposed (s : String) : Bool := composed s == s

end Netlist.Text
