import Netlist.Text.Decimal
import Netlist.Text.Quoted

/-!
# Reading MessagePack

A reader takes bytes from the front and gives a value, or says why it cannot.
Any form of an integer is accepted wherever an integer is expected, and a missing
value reads as zero, empty or false.  A record is a map from the names of its
fields, in any order, where unknown names are skipped; or a list of all its
fields in order.

A map may name a field twice.  The second value is then read over the first: a
record keeps the fields that the second one does not name, and the items of a list
are read over the items that were there before.
-/

namespace Netlist.MessagePack

/-- Why bytes cannot be read. -/
inductive ReadError where
  | endOfInput
  | cutShort
  | wrongCode (code : UInt8) (wanted : String)
  | wrongMapCode (code : UInt8)
  | unknownCode (code : UInt8)
  | unknownSkippedCode (code : UInt8)
  | unknownExtension (id : Int)
  | timeLength (length : Nat)
  | fieldCount
  | unexpectedPart (sort : String)
  deriving Repr

/-- A code in hexadecimal without padding. -/
def codeText (code : UInt8) : String := String.ofList (Nat.toDigits 16 code.toNat)

def ReadError.message : ReadError → String
  | endOfInput => "EOF"
  | cutShort => "unexpected EOF"
  | wrongCode code wanted => "msgpack: invalid code=" ++ codeText code ++ " decoding " ++ wanted
  | wrongMapCode code => "msgpack: unexpected code=" ++ codeText code ++ " decoding map length"
  | unknownCode code => "msgpack: unknown code " ++ codeText code ++ " decoding interface\x7b\x7d"
  | unknownSkippedCode code => "msgpack: unknown code " ++ codeText code
  | unknownExtension id => "msgpack: unknown ext id=" ++ Decimal.ofInt id
  | timeLength length => "msgpack: invalid ext len=" ++ Decimal.ofNat length ++ " decoding time"
  | fieldCount => "msgpack: number of fields in array-encoded struct has changed"
  | unexpectedPart sort => "pattern part: unexpected msgpack value " ++ sort

/-- A list and the items that stood behind its end in earlier lists of the same
field. -/
structure Slots (α : Type) where
  items : Option (List α) := none
  /-- What earlier lists held behind the end. -/
  behind : List α := []

namespace Slots

/-- The items, none when the list is missing. -/
def toList {α : Type} (s : Slots α) : List α := s.items.getD []

/-- All items, also those behind the end. -/
def held {α : Type} (s : Slots α) : List α := s.toList ++ s.behind

/-- The list alone, an empty one when it is missing. -/
def settled {α : Type} (s : Slots α) : Slots α := { items := some s.toList }

end Slots

/-- A reader: takes bytes from the front. -/
abbrev Reader (α : Type) := StateT Bytes (Except ReadError) α

namespace Reader

def fail {α : Type} (e : ReadError) : Reader α := fun _ => .error e

/-- The byte in front, which stays there. -/
def peek? : Reader (Option UInt8) := fun bytes => .ok (bytes.head?, bytes)

/-- The byte in front. -/
def code : Reader UInt8 := fun bytes =>
  match bytes with
  | [] => .error .endOfInput
  | b :: rest => .ok (b, rest)

def take (n : Nat) : Reader Bytes := fun bytes =>
  if n == 0 then .ok ([], bytes)
  else if bytes.isEmpty then .error .endOfInput
  else
    let front := bytes.take n
    if front.length < n then .error .cutShort else .ok (front, bytes.drop n)

/-- A number in some bytes, highest first. -/
def number (n : Nat) : Reader Nat := do
  return (← take n).foldl (fun acc b => acc * 256 + b.toNat) 0

/-- A number in some bytes as a signed one. -/
def signed (n : Nat) : Reader Int := do
  let v ← number n
  return if v < Nat.pow 2 (8 * n - 1) then Int.ofNat v
    else Int.ofNat v - Int.ofNat (Nat.pow 2 (8 * n))

/-- Whether a code is a small number by itself. -/
def isSmallNumber (c : UInt8) : Bool := c ≤ 0x7F || 0xE0 ≤ c

/-- The value of a code that is a small number. -/
def smallNumber (c : UInt8) : Int := if c ≤ 0x7F then Int.ofNat c.toNat else Int.ofNat c.toNat - 256

/-- The integer after a code; one past the signed range wraps. -/
def intOf (wanted : String) (c : UInt8) : Reader Int := do
  if c == 0xC0 then return 0
  else if isSmallNumber c then return smallNumber c
  else if c == 0xCC then return Int.ofNat (← number 1)
  else if c == 0xCD then return Int.ofNat (← number 2)
  else if c == 0xCE then return Int.ofNat (← number 4)
  else if c == 0xCF then return Decimal.wrap64 (Int.ofNat (← number 8))
  else if c == 0xD0 then signed 1
  else if c == 0xD1 then signed 2
  else if c == 0xD2 then signed 4
  else if c == 0xD3 then signed 8
  else fail (.wrongCode c wanted)

/-- A signed integer. -/
def int : Reader Int := do intOf "int64" (← code)

/-- A number of some bits; higher bits are dropped. -/
def uint (bits : Nat) : Reader Nat := do
  let n ← intOf "uint64" (← code)
  return (n % (Nat.pow 2 bits : Nat)).toNat

/-- A truth value. -/
def bool : Reader Bool := do
  let c ← code
  if c == 0xC0 || c == 0xC2 then return false
  else if c == 0xC3 then return true
  else fail (.wrongCode c "bool")

/-- The number of bytes after the code of a text or a run of bytes; none when it is
missing. -/
def textLength (c : UInt8) : Reader (Option Nat) := do
  if c == 0xC0 then return none
  else if 0xA0 ≤ c && c ≤ 0xBF then return some (c.toNat - 0xA0)
  else if c == 0xD9 || c == 0xC4 then return some (← number 1)
  else if c == 0xDA || c == 0xC5 then return some (← number 2)
  else if c == 0xDB || c == 0xC6 then return some (← number 4)
  else fail (.wrongCode c "string/bytes length")

/-- The bytes after the code of a text or a run of bytes. -/
def binaryOf (c : UInt8) : Reader Bytes := do
  match ← textLength c with
  | none => return []
  | some n => take n

def binary : Reader Bytes := do binaryOf (← code)

def string : Reader String := do return (← binary).toText

/-- The number of items after the code of a list; none when it is missing. -/
def listLength (c : UInt8) : Reader (Option Nat) := do
  if c == 0xC0 then return none
  else if 0x90 ≤ c && c ≤ 0x9F then return some (c.toNat - 0x90)
  else if c == 0xDC then return some (← number 2)
  else if c == 0xDD then return some (← number 4)
  else fail (.wrongCode c "array length")

/-- The number of members after the code of a map; none when it is missing. -/
def mapLength (c : UInt8) : Reader (Option Nat) := do
  if c == 0xC0 then return none
  else if 0x80 ≤ c && c ≤ 0x8F then return some (c.toNat - 0x80)
  else if c == 0xDE then return some (← number 2)
  else if c == 0xDF then return some (← number 4)
  else fail (.wrongMapCode c)

/-- Some items, one after the other. -/
def items {α : Type} (item : Reader α) : (count : Nat) → Reader (List α)
  | 0 => pure []
  | count + 1 => do
    let a ← item
    let rest ← items item count
    return a :: rest

/-- A list that may be missing. -/
def list {α : Type} (item : Reader α) : Reader (Option (List α)) := do
  match ← listLength (← code) with
  | none => return none
  | some n => return some (← items item n)

/-- Takes the code for nothing, if it is in front. -/
def takeNil : Reader Bool := do
  if (← peek?) == some 0xC0 then
    let _ ← code
    return true
  else return false

/-! ## Values of any sort -/

/-- The sort of a value, with its content where that matters. -/
inductive Loose where
  | nil
  | bool
  | float
  | text (bytes : Bytes)
  | int (n : Int)
  | list
  | map
  | time

/-- Whether a code starts an extension. -/
def isExtension (c : UInt8) : Bool := (0xC7 ≤ c && c ≤ 0xC9) || (0xD4 ≤ c && c ≤ 0xD8)

/-- The number of bytes of the extension that a code starts, without its own number. -/
def extensionLength (c : UInt8) : Reader Nat :=
  if c == 0xC7 then number 1
  else if c == 0xC8 then number 2
  else if c == 0xC9 then number 4
  else pure (Nat.pow 2 (c.toNat - 0xD4))

/-- The extension that a code starts.  The only one known is a time, of seconds alone or
with nanoseconds. -/
def extension (c : UInt8) : Reader Loose := do
  let length ← extensionLength c
  let id ← signed 1
  if id != -1 then fail (.unknownExtension id)
  else
    let _ ← take length
    if [4, 8, 12].contains length then return .time else fail (.timeLength length)

mutual

/-- A value of any sort.  `fuel` bounds how deep values are nested. -/
def loose : (fuel : Nat) → Reader Loose
  | 0 => fail .endOfInput
  | fuel + 1 => do
    let c ← code
    if isSmallNumber c then return .int (smallNumber c)
    else if c ≤ 0x8F || c == 0xDE || c == 0xDF then
      let n ← mapLength c
      looseMembers fuel (n.getD 0)
      return .map
    else if c ≤ 0x9F || c == 0xDC || c == 0xDD then
      let n ← listLength c
      looseItems fuel (n.getD 0)
      return .list
    else if c ≤ 0xBF || (0xD9 ≤ c && c ≤ 0xDB) || (0xC4 ≤ c && c ≤ 0xC6) then
      return .text (← binaryOf c)
    else if c == 0xC0 then return .nil
    else if c == 0xC2 || c == 0xC3 then return .bool
    else if c == 0xCA then
      let _ ← number 4
      return .float
    else if c == 0xCB then
      let _ ← number 8
      return .float
    else if 0xCC ≤ c && c ≤ 0xD3 then return .int (← intOf "int64" c)
    else if isExtension c then extension c
    else fail (.unknownCode c)

/-- Some values of any sort. -/
def looseItems (fuel : Nat) : (count : Nat) → Reader Unit
  | 0 => pure ()
  | count + 1 => do
    let _ ← loose fuel
    looseItems fuel count

/-- Some members of any sort with texts as keys. -/
def looseMembers (fuel : Nat) : (count : Nat) → Reader Unit
  | 0 => pure ()
  | count + 1 => do
    let _ ← string
    let _ ← loose fuel
    looseMembers fuel count

end

mutual

def skip : (fuel : Nat) → Reader Unit
  | 0 => fail .endOfInput
  | fuel + 1 => do
    let c ← code
    if isSmallNumber c || c == 0xC0 || c == 0xC2 || c == 0xC3 then return ()
    else if c ≤ 0x8F || c == 0xDE || c == 0xDF then
      let n ← mapLength c
      skipItems fuel (2 * n.getD 0)
    else if c ≤ 0x9F || c == 0xDC || c == 0xDD then
      let n ← listLength c
      skipItems fuel (n.getD 0)
    else if c ≤ 0xBF || (0xD9 ≤ c && c ≤ 0xDB) || (0xC4 ≤ c && c ≤ 0xC6) then
      let _ ← binaryOf c
    else if c == 0xCA then
      let _ ← take 4
    else if c == 0xCB then
      let _ ← take 8
    else if 0xCC ≤ c && c ≤ 0xD3 then
      let _ ← intOf "int64" c
    else if isExtension c then
      let length ← extensionLength c
      let _ ← take (length + 1)
    else fail (.unknownSkippedCode c)

def skipItems (fuel : Nat) : (count : Nat) → Reader Unit
  | 0 => pure ()
  | count + 1 => do
    skip fuel
    skipItems fuel count

end

/-- Whether a code starts a list or a map. -/
def isContainer (c : UInt8) : Bool := (0x80 ≤ c && c ≤ 0x9F) || (0xDC ≤ c && c ≤ 0xDF)

/-- How deep the value in front can be nested: a list or a map no deeper than there are
bytes, and anything else not at all. -/
def depth : Reader Nat := fun bytes =>
  .ok (if (bytes.head?.map isContainer).getD false then bytes.length + 1 else 1, bytes)

/-! ## Records -/

/-- Reads the members of a record that is written as a map. -/
def members {α : Type} (fields : List (String × (α → Reader α))) : (count : Nat) → α → Reader α
  | 0, a => pure a
  | count + 1, a => do
    let name ← string
    match fields.lookup name with
    | some field => do members fields count (← field a)
    | none => do
      skip (← depth)
      members fields count a

/-- Reads the fields of a record one after the other. -/
def inOrder {α : Type} : List (String × (α → Reader α)) → α → Reader α
  | [], a => pure a
  | (_, field) :: rest, a => do inOrder rest (← field a)

/-- What the code of a record announces. -/
inductive RecordHead where
  | empty
  | members (count : Nat)
  | items (count : Nat)

/-- The head of a record.  A code that starts neither a map nor a whole head of a list
is refused as one that starts no map. -/
def recordHead (c : UInt8) : Reader RecordHead := fun bytes =>
  match (mapLength c).run bytes with
  | .ok (none, rest) => .ok (.empty, rest)
  | .ok (some n, rest) => .ok (.members n, rest)
  | .error e =>
    match (listLength c).run bytes with
    | .ok (none, rest) => .ok (.empty, rest)
    | .ok (some 0, rest) => .ok (.empty, rest)
    | .ok (some n, rest) => .ok (.items n, rest)
    | .error _ => .error e

/-- A record over an earlier one: a map by the names of its fields, or a list of all of
them.  Fields that are not there keep their earlier values; a record that is missing
or an empty list is `zero`. -/
def recordOver {α : Type} (zero : α) (fields : List (String × (α → Reader α))) (old : α) :
    Reader α := do
  match ← recordHead (← code) with
  | .empty => return zero
  | .members n => members fields n old
  | .items n => if n == fields.length then inOrder fields old else fail .fieldCount

/-- A record.  Fields that are not there keep the values of `zero`. -/
def record {α : Type} (zero : α) (fields : List (String × (α → Reader α))) : Reader α :=
  recordOver zero fields zero

def field {α β : Type} (value : Reader β) (set : α → β → α) : α → Reader α := fun a => do
  return set a (← value)

/-- A field that is read over its earlier value. -/
def fieldOver {α β : Type} (get : α → β) (value : β → Reader β) (set : α → β → α) :
    α → Reader α := fun a => do
  return set a (← value (get a))

/-! ## Values that may be missing -/

/-- A value that may be missing, over an earlier one. -/
def optionOver {α : Type} (zero : α) (value : α → Reader α) (old : Option α) :
    Reader (Option α) := do
  if ← takeNil then return none else return some (← value (old.getD zero))

/-- A value that is read as a whole.  Where one was there before, a missing value
leaves `zero` in its place. -/
def wholeOver {α : Type} (zero : α) (value : Reader α) (old : Option α) : Reader (Option α) := do
  if ← takeNil then return old.map fun _ => zero else return some (← value)

/-! ## Lists that are read over -/

/-- Some items over earlier ones; those past the earlier ones over `zero`. -/
def itemsOver {α : Type} (zero : α) (item : α → Reader α) :
    (count : Nat) → (old : List α) → Reader (List α)
  | 0, _ => pure []
  | count + 1, old => do
    let a ← item (old.headD zero)
    let rest ← itemsOver zero item count old.tail
    return a :: rest

/-- A list over an earlier one. -/
def slotsOver {α : Type} (zero : α) (item : α → Reader α) (old : Slots α) : Reader (Slots α) := do
  match ← listLength (← code) with
  | none => return {}
  | some n =>
    return ⟨some (← itemsOver zero item n old.held), old.held.drop n⟩

/-- A list that stays as it is when the next one is missing, and is replaced
otherwise. -/
def listOver {α : Type} (item : Reader α) (old : Option (List α)) : Reader (Option (List α)) := do
  return (← list item).orElse fun _ => old

end Reader

end Netlist.MessagePack
