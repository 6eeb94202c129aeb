/-!
# Bytes and the text they hold

A file is a list of bytes.  Its text is read as UTF-8.  A byte that does not
belong to a well-formed sequence is read as the replacement character, one per
byte, so every list of bytes has a text.
-/

namespace Netlist

/-- A run of bytes, such as the content of a file. -/
abbrev Bytes := List UInt8

namespace Bytes

def ofString (s : String) : Bytes := s.toUTF8.toList

/-- Whether a byte continues a UTF-8 sequence. -/
def isContinuation (b : UInt8) : Bool := 0x80 ≤ b && b ≤ 0xBF

/-- The character that a well-formed sequence at the front encodes, with the
number of its bytes.  Overlong forms, surrogates and values past the last code
point are not well formed. -/
def headChar? : Bytes → Option (Char × Nat)
  | [] => none
  | b0 :: rest =>
    let low (b : UInt8) : Nat := b.toNat - 0x80
    if b0 < 0x80 then some (Char.ofNat b0.toNat, 1)
    else if b0 < 0xC2 then none
    else if b0 < 0xE0 then
      match rest with
      | b1 :: _ =>
        if isContinuation b1 then some (Char.ofNat ((b0.toNat - 0xC0) * 64 + low b1), 2) else none
      | _ => none
    else if b0 < 0xF0 then
      match rest with
      | b1 :: b2 :: _ =>
        let n := (b0.toNat - 0xE0) * 4096 + low b1 * 64 + low b2
        if isContinuation b1 && isContinuation b2 && 0x800 ≤ n && !(0xD800 ≤ n && n ≤ 0xDFFF) then
          some (Char.ofNat n, 3)
        else none
      | _ => none
    else if b0 < 0xF5 then
      match rest with
      | b1 :: b2 :: b3 :: _ =>
        let n := (b0.toNat - 0xF0) * 262144 + low b1 * 4096 + low b2 * 64 + low b3
        if isContinuation b1 && isContinuation b2 && isContinuation b3 && 0x10000 ≤ n &&
            n ≤ 0x10FFFF then
          some (Char.ofNat n, 4)
        else none
      | _ => none
    else none

/-- The character read for a byte outside every well-formed sequence. -/
def replacement : Char := Char.ofNat 0xFFFD

/-- The characters of the bytes, each with the number of bytes it takes.
`skip` counts the bytes at the front that the last character has used up. -/
def charsFrom : (skip : Nat) → Bytes → List (Char × Nat)
  | _, [] => []
  | skip + 1, _ :: rest => charsFrom skip rest
  | 0, b :: rest =>
    match headChar? (b :: rest) with
    | some (c, n) => (c, n) :: charsFrom (n - 1) rest
    | none => (replacement, 1) :: charsFrom 0 rest

/-- The characters of the bytes, each with the number of bytes it takes. -/
def chars (bytes : Bytes) : List (Char × Nat) := charsFrom 0 bytes

def toText (bytes : Bytes) : String := String.ofList (bytes.chars.map (·.1))

/-- Whether every byte belongs to a well-formed sequence. -/
def isText (bytes : Bytes) : Bool := (String.fromUTF8? (ByteArray.mk bytes.toArray)).isSome

/-- The two lower-case hexadecimal digits of a byte. -/
def hexDigits (b : UInt8) : List Char :=
  [Nat.digitChar (b.toNat / 16), Nat.digitChar (b.toNat % 16)]

/-- The bytes in hexadecimal, two lower-case digits each. -/
def toHex (bytes : Bytes) : String := String.ofList (bytes.flatMap hexDigits)

/-- The value of a hexadecimal digit. -/
def hexValue? (c : Char) : Option Nat :=
  if '0' ≤ c && c ≤ '9' then some (c.toNat - '0'.toNat)
  else if 'a' ≤ c && c ≤ 'f' then some (c.toNat - 'a'.toNat + 10)
  else if 'A' ≤ c && c ≤ 'F' then some (c.toNat - 'A'.toNat + 10)
  else none

/-- The bytes that pairs of hexadecimal digits spell. -/
def ofHexChars? : List Char → Option Bytes
  | [] => some []
  | hi :: lo :: rest => do
    let h ← hexValue? hi
    let l ← hexValue? lo
    let bytes ← ofHexChars? rest
    return UInt8.ofNat (h * 16 + l) :: bytes
  | _ => none

/-- The bytes that a hexadecimal text spells. -/
def ofHex? (s : String) : Option Bytes := ofHexChars? s.toList

end Bytes

end Netlist
