import Netlist.Digest

/-!
# Writing MessagePack

A `Value` is what a layout makes of a thing: a number, a text, or a list or a map
of values.  An integer is written in the shortest form that holds it, unless its
width is fixed by the layout.
-/

namespace Netlist.MessagePack

/-- A number as bytes, highest first. -/
def bigEndian (count n : Nat) : Bytes := Sha256.bigEndian count n

/-- Nothing. -/
def nil : Bytes := [0xC0]

/-- A truth value. -/
def bool (b : Bool) : Bytes := if b then [0xC3] else [0xC2]

/-- A number of 8 bits, always in two bytes. -/
def uint8 (n : Nat) : Bytes := 0xCC :: bigEndian 1 n

/-- A number of 16 bits, always in three bytes. -/
def uint16 (n : Nat) : Bytes := 0xCD :: bigEndian 2 n

/-- A number of 32 bits, always in five bytes. -/
def uint32 (n : Nat) : Bytes := 0xCE :: bigEndian 4 n

/-- A natural number below 2⁶⁴ in the shortest form. -/
def nat (n : Nat) : Bytes :=
  if n ≤ 0x7F then [UInt8.ofNat n]
  else if n ≤ 0xFF then uint8 n
  else if n ≤ 0xFFFF then uint16 n
  else if n ≤ 0xFFFFFFFF then uint32 n
  else 0xCF :: bigEndian 8 n

/-- A 64-bit integer in the shortest form. -/
def int (n : Int) : Bytes :=
  let low (bits : Nat) : Nat := (n % (Nat.pow 2 bits : Nat)).toNat
  if 0 ≤ n then nat n.toNat
  else if -32 ≤ n then [UInt8.ofNat (low 8)]
  else if -128 ≤ n then 0xD0 :: bigEndian 1 (low 8)
  else if -32768 ≤ n then 0xD1 :: bigEndian 2 (low 16)
  else if -2147483648 ≤ n then 0xD2 :: bigEndian 4 (low 32)
  else 0xD3 :: bigEndian 8 (low 64)

def text (bytes : Bytes) : Bytes :=
  let n := bytes.length
  let head : Bytes :=
    if n < 32 then [UInt8.ofNat (0xA0 + n)]
    else if n ≤ 0xFF then 0xD9 :: bigEndian 1 n
    else if n ≤ 0xFFFF then 0xDA :: bigEndian 2 n
    else 0xDB :: bigEndian 4 n
  head ++ bytes

def string (s : String) : Bytes := text (Bytes.ofString s)

def binary (bytes : Bytes) : Bytes :=
  let n := bytes.length
  let head : Bytes :=
    if n ≤ 0xFF then 0xC4 :: bigEndian 1 n
    else if n ≤ 0xFFFF then 0xC5 :: bigEndian 2 n
    else 0xC6 :: bigEndian 4 n
  head ++ bytes

def listHead (n : Nat) : Bytes :=
  if n < 16 then [UInt8.ofNat (0x90 + n)]
  else if n ≤ 0xFFFF then 0xDC :: bigEndian 2 n
  else 0xDD :: bigEndian 4 n

def mapHead (n : Nat) : Bytes :=
  if n < 16 then [UInt8.ofNat (0x80 + n)]
  else if n ≤ 0xFFFF then 0xDE :: bigEndian 2 n
  else 0xDF :: bigEndian 4 n

/-! ## Values -/

/-- A value. -/
inductive Value where
  | nil
  | bool (b : Bool)
  /-- A number of 8 bits. -/
  | uint8 (n : UInt8)
  /-- A number of 16 bits. -/
  | uint16 (n : UInt16)
  /-- A number of 32 bits. -/
  | uint32 (n : UInt32)
  | int (n : Int)
  | text (bytes : Bytes)
  | binary (bytes : Bytes)
  | list (items : List Value)
  | map (members : List (String × Value))

namespace Value

mutual

def bytes : Value → Bytes
  | nil => MessagePack.nil
  | bool b => MessagePack.bool b
  | uint8 n => MessagePack.uint8 n.toNat
  | uint16 n => MessagePack.uint16 n.toNat
  | uint32 n => MessagePack.uint32 n.toNat
  | int n => MessagePack.int n
  | text content => MessagePack.text content
  | binary content => MessagePack.binary content
  | list items => listHead items.length ++ itemBytes items
  | map members => mapHead members.length ++ memberBytes members

/-- The bytes of values one after the other. -/
def itemBytes : List Value → Bytes
  | [] => []
  | v :: rest => v.bytes ++ itemBytes rest

def memberBytes : List (String × Value) → Bytes
  | [] => []
  | (name, v) :: rest => string name ++ (v.bytes ++ memberBytes rest)

end

/-- A list that may be missing. -/
def ofList? {α : Type} (f : α → Value) : Option (List α) → Value
  | none => nil
  | some items => list (items.map f)

/-- A value that may be missing. -/
def ofOption {α : Type} (f : α → Value) : Option α → Value
  | none => nil
  | some a => f a

end Value

end Netlist.MessagePack
