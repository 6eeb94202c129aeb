import Netlist.Text.Bytes
import Netlist.Yaml.Error

/-!
# The characters of a YAML text

Bytes are decoded as UTF-8, or as UTF-16 when they start with its byte order
mark.  Decoding works on blocks of bytes: a fault in a block is noticed as soon
as a character of that block is asked for, so everything before the block can be
read first.
-/

namespace Netlist.Yaml

/-- A decoded text. -/
structure Input where
  /-- The characters up to the end or to the fault. -/
  chars : Array Char
  /-- The number of characters up to the end of each block without a fault. -/
  ends : List Nat
  /-- What is wrong with the bytes after those blocks. -/
  fault : Option Problem := none

/-- What stands at the front of some bytes. -/
inductive Unit_ where
  /-- A character and the number of its bytes. -/
  | char (value width : Nat)
  /-- The start of a character that needs more bytes. -/
  | short (p : Problem)
  | bad (p : Problem)

/-- The character of UTF-8 at the front. -/
def utf8Unit (bytes : Bytes) : Unit_ :=
  match bytes with
  | [] => .short .incompleteSequence
  | b :: rest =>
    let n := b.toNat
    let width :=
      if n < 0x80 then 1
      else if 0xC0 ≤ n && n < 0xE0 then 2
      else if 0xE0 ≤ n && n < 0xF0 then 3
      else if 0xF0 ≤ n && n < 0xF8 then 4
      else 0
    let lead :=
      if width == 1 then n
      else if width == 2 then n - 0xC0
      else if width == 3 then n - 0xE0
      else n - 0xF0
    if width == 0 then .bad .leadingOctet
    else if bytes.length < width then .short .incompleteSequence
    else
      let trail := rest.take (width - 1)
      if !trail.all Bytes.isContinuation then .bad .trailingOctet
      else
        let value := trail.foldl (fun acc b => acc * 64 + (b.toNat - 0x80)) lead
        let least :=
          if width == 1 then 0 else if width == 2 then 0x80
          else if width == 3 then 0x800 else 0x10000
        if value < least then .bad .sequenceLength
        else if (0xD800 ≤ value && value ≤ 0xDFFF) || 0x10FFFF < value then .bad .invalidCharacter
        else .char value width

/-- The character of UTF-16 at the front; `low` says whether the low byte comes
first. -/
def utf16Unit (low : Bool) (bytes : Bytes) : Unit_ :=
  let word (a b : UInt8) : Nat := if low then a.toNat + b.toNat * 256 else a.toNat * 256 + b.toNat
  match bytes with
  | a :: b :: rest =>
    let value := word a b
    if 0xDC00 ≤ value && value ≤ 0xDFFF then .bad .unexpectedLowSurrogate
    else if 0xD800 ≤ value && value ≤ 0xDBFF then
      match rest with
      | c :: d :: _ =>
        let second := word c d
        if 0xDC00 ≤ second && second ≤ 0xDFFF then
          .char (0x10000 + (value - 0xD800) * 1024 + (second - 0xDC00)) 4
        else .bad .missingLowSurrogate
      | _ => .short .incompletePair
    else .char value 2
  | _ => .short .incompleteUnit

/-- Whether a character may stand in a text. -/
def isAllowed (n : Nat) : Bool :=
  n == 0x09 || n == 0x0A || n == 0x0D || (0x20 ≤ n && n ≤ 0x7E) || n == 0x85 ||
    (0xA0 ≤ n && n ≤ 0xD7FF) || (0xE000 ≤ n && n ≤ 0xFFFD) || (0x10000 ≤ n && n ≤ 0x10FFFF)

/-- The number of bytes in a block. -/
def blockSize : Nat := 512

/-- Decodes bytes.  `left` is what is left of the block, `count` the number of
characters so far; `ends` and `chars` hold the ends of blocks and the characters,
last one first.  Every step takes a byte or starts a block, so twice the number
of bytes is fuel enough. -/
def decodeFrom (unit : Bytes → Unit_) :
    (fuel left count : Nat) → (ends : List Nat) → (chars : List Char) → Bytes → Input
  | 0, _, count, ends, chars, _ => ⟨chars.reverse.toArray, (count :: ends).reverse, none⟩
  | _, _, count, ends, chars, [] => ⟨chars.reverse.toArray, (count :: ends).reverse, none⟩
  | fuel + 1, left, count, ends, chars, bytes =>
    if left == 0 then decodeFrom unit fuel blockSize count (count :: ends) chars bytes
    else
      match unit (bytes.take (min left 4)) with
      | .bad p => ⟨chars.reverse.toArray, ends.reverse, some p⟩
      | .short p =>
        if bytes.length ≤ left then ⟨chars.reverse.toArray, (count :: ends).reverse, some p⟩
        else decodeFrom unit fuel blockSize count (count :: ends) chars bytes
      | .char value width =>
        if isAllowed value then
          decodeFrom unit fuel (left - width) (count + 1) ends (Char.ofNat value :: chars)
            (bytes.drop width)
        else ⟨chars.reverse.toArray, ends.reverse, some .controlCharacter⟩

def Input.ofBytes (bytes : Bytes) : Input :=
  let fuel := 2 * bytes.length + 2
  match bytes with
  | 0xFF :: 0xFE :: rest => decodeFrom (utf16Unit true) fuel (blockSize - 2) 0 [] [] rest
  | 0xFE :: 0xFF :: rest => decodeFrom (utf16Unit false) fuel (blockSize - 2) 0 [] [] rest
  | 0xEF :: 0xBB :: 0xBF :: rest => decodeFrom utf8Unit fuel (blockSize - 3) 0 [] [] rest
  | bytes => decodeFrom utf8Unit fuel blockSize 0 [] [] bytes

end Netlist.Yaml
