import Netlist.Text.Binary64

/-!
# JSON values

A value of the JSON data model.  The members of an object keep the order in
which they were given.  A number is kept exactly, as digits and a power of ten.
-/

namespace Netlist

/-- An exact decimal number: `digits · 10 ^ power`, with a sign. -/
structure JsonNumber where
  /-- Whether a minus sign stands in front. -/
  negative : Bool := false
  digits : Nat
  power : Int := 0
  deriving DecidableEq, Repr

/-- A JSON value. -/
inductive Json where
  | null
  | bool (b : Bool)
  | num (n : JsonNumber)
  | str (s : String)
  | arr (items : List Json)
  | obj (members : List (String × Json))
  deriving Repr

namespace JsonNumber

def ofInt (n : Int) : JsonNumber := ⟨n < 0, n.natAbs, 0⟩

/-- A double as the shortest number that reads back as it. -/
def ofBinary64 (x : Binary64) : JsonNumber :=
  let s := x.shortest
  ⟨x.negative, s.1, s.2⟩

/-- The double nearest to a number. -/
def toBinary64 (n : JsonNumber) : Binary64 := Binary64.ofDecimal n.negative n.digits n.power

/-- The number as an integer, cut toward zero. -/
def toInt (n : JsonNumber) : Int :=
  let m :=
    if 0 ≤ n.power then n.digits * Nat.pow 10 n.power.toNat
    else n.digits / Nat.pow 10 (-n.power).toNat
  if n.negative then -Int.ofNat m else Int.ofNat m

end JsonNumber

namespace Json

/-- A natural number as a value. -/
def nat (n : Nat) : Json := .num (JsonNumber.ofInt n)

/-- An integer as a value. -/
def int (n : Int) : Json := .num (JsonNumber.ofInt n)

/-- A list of texts as a value. -/
def strings (items : List String) : Json := .arr (items.map .str)

/-- A value, or `null` for none. -/
def orNull (v : Option Json) : Json := v.getD .null

def listOrNull {α : Type} (f : α → Json) : Option (List α) → Json
  | none => .null
  | some items => .arr (items.map f)

/-- A member that is left out when its text is empty. -/
def optStr (key value : String) : List (String × Json) :=
  if value.isEmpty then [] else [(key, .str value)]

/-- A member that is left out when its list is empty. -/
def optArr (key : String) (items : List Json) : List (String × Json) :=
  if items.isEmpty then [] else [(key, .arr items)]

/-- A member that is left out when its number is zero. -/
def optNat (key : String) (n : Nat) : List (String × Json) :=
  if n == 0 then [] else [(key, nat n)]

/-- A member that is left out when it is false. -/
def optBool (key : String) (b : Bool) : List (String × Json) :=
  if b then [(key, .bool true)] else []

/-! ## Reading members -/

/-- The member of an object with a key.  Of several the last one counts. -/
def get? (v : Json) (key : String) : Option Json :=
  match v with
  | .obj members => (members.reverse.find? fun m => m.1 == key).map (·.2)
  | _ => none

/-- The member with a key, `null` if there is none. -/
def get (v : Json) (key : String) : Json := (v.get? key).getD .null

/-- The text of a value, empty for anything else. -/
def asString : Json → String
  | .str s => s
  | _ => ""

/-- The truth of a value, false for anything else. -/
def asBool : Json → Bool
  | .bool b => b
  | _ => false

/-- The integer of a value, zero for anything else. -/
def asInt : Json → Int
  | .num n => n.toInt
  | _ => 0

/-- The number of a value, zero for anything else. -/
def asBinary64 : Json → Binary64
  | .num n => n.toBinary64
  | _ => Binary64.zero

/-- The items of a list, none for anything else. -/
def asList : Json → List Json
  | .arr items => items
  | _ => []

/-- The members of an object, none for anything else. -/
def asMembers : Json → List (String × Json)
  | .obj members => members
  | _ => []

def isNull : Json → Bool
  | .null => true
  | _ => false

end Json

end Netlist
