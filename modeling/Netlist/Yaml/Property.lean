import Netlist.Yaml.Comment

/-!
# Anchors, aliases, tags and directives
-/

namespace Netlist.Yaml

/-! ## Anchors and aliases -/

/-- Whether a character may follow the name of an anchor. -/
def endsAnchor (c : Char) : Bool :=
  isBlankOrEnd c || ['?', ':', ',', ']', '\x7d', '%', '@', '\x60'].contains c

/-- An anchor or an alias, at its indicator. -/
def scanAnchor (kind : String → TokenKind) : Scan Token := do
  let start ← here
  advance
  let name ← takeWhile isWordChar
  if name.isEmpty || !endsAnchor (← ahead 0) then failFrom start .anchorName
  return ⟨kind (String.ofList name), start, ← here⟩

/-! ## Tags -/

/-- Whether a character may stand in the address of a tag. -/
def isAddressChar (c : Char) : Bool :=
  isWordChar c ||
    [';', '/', '?', ':', '@', '&', '=', '+', '$', ',', '.', '!', '~', '*', '\'', '(', ')', '[', ']',
      '%'].contains c

/-- The octet that a percent sign and two digits spell, if it is a right one. -/
def scanOctet (start : Mark) (right : UInt8 → Bool) (otherwise : Problem) : Scan UInt8 := do
  need 3
  let p ← ahead 0
  let hi := Bytes.hexValue? (← ahead 1)
  let lo := Bytes.hexValue? (← ahead 2)
  match p == '%', hi, lo with
  | true, some h, some l =>
    let b := UInt8.ofNat (h * 16 + l)
    if !right b then failFrom start otherwise
    advanceBy 3
    return b
  | _, _, _ => failFrom start .escapedOctet

def scanMoreOctets (start : Mark) : (count : Nat) → Scan Bytes
  | 0 => pure []
  | count + 1 => do
    let b ← scanOctet start Bytes.isContinuation .escapedTrailingOctet
    return b :: (← scanMoreOctets start count)

/-- The number of bytes of the character that a byte starts, zero if it starts none. -/
def octetCount (b : UInt8) : Nat :=
  if b < 0x80 then 1
  else if 0xC0 ≤ b && b < 0xE0 then 2
  else if 0xE0 ≤ b && b < 0xF0 then 3
  else if 0xF0 ≤ b && b < 0xF8 then 4
  else 0

def scanOctets (start : Mark) : Scan Bytes := do
  let b ← scanOctet start (octetCount · != 0) .escapedLeadingOctet
  return b :: (← scanMoreOctets start (octetCount b - 1))

def scanAddressBytes (start : Mark) : (fuel : Nat) → Scan Bytes
  | 0 => pure []
  | fuel + 1 => do
    let c ← current
    if !isAddressChar c then return []
    else if c == '%' then
      let b ← scanOctets start
      return b ++ (← scanAddressBytes start fuel)
    else
      advance
      return Bytes.ofString (String.singleton c) ++ (← scanAddressBytes start fuel)

/-- The address of a tag, of which a part may have been read. -/
def scanAddress (start : Mark) (head : List Char) : Scan String := do
  let bytes ← scanAddressBytes start (← charsLeft)
  if bytes.isEmpty && head.isEmpty then failFrom start .tagAddress
  return String.ofList (head.drop 1) ++ bytes.toText

/-- The handle of a tag: an exclamation mark and, when it is named, the name and
another one. -/
def scanHandle (isDirective : Bool) (start : Mark) : Scan (List Char) := do
  if (← current) != '!' then failFrom start .tagMark
  advance
  let name ← takeWhile isWordChar
  if (← ahead 0) == '!' then
    advance
    return '!' :: name ++ ['!']
  else
    if isDirective && !name.isEmpty then failFrom start .tagMark
    return '!' :: name

/-- The handle and the rest of a tag. -/
def scanTagParts (start : Mark) : Scan (String × String) := do
  need 2
  if (← ahead 1) == '<' then
    advanceBy 2
    let address ← scanAddress start []
    if (← ahead 0) != '>' then failFrom start .tagClose
    advance
    return ("", address)
  else
    let handle ← scanHandle false start
    if 1 < handle.length && handle.getLast? == some '!' then
      return (String.ofList handle, ← scanAddress start [])
    else
      let suffix ← scanAddress start handle
      return if suffix.isEmpty then ("", "!") else ("!", suffix)

/-- A tag, at its exclamation mark. -/
def scanTag : Scan Token := do
  let start ← here
  let (handle, suffix) ← scanTagParts start
  if !isBlankOrEnd (← current) then failFrom start .expectedBlankOrBreak
  return ⟨.tag handle suffix, start, ← here⟩

/-! ## Directives -/

/-- A number of a version: one or two digits. -/
def scanVersionNumber (start : Mark) : Scan Nat := do
  let digits ← takeWhileFor Char.isDigit 2
  if (← current).isDigit then failFrom start .versionTooLong
  if digits.isEmpty then failFrom start .missingVersion
  return Nat.ofDigitChars 10 digits 0

/-- The rest of a version directive. -/
def scanVersion (start : Mark) : Scan TokenKind := do
  advanceWhile isBlank
  let major ← scanVersionNumber start
  if (← ahead 0) != '.' then failFrom start .versionPoint
  advance
  return .versionDirective major (← scanVersionNumber start)

def scanTagDirective (start : Mark) : Scan TokenKind := do
  advanceWhile isBlank
  let handle ← scanHandle true start
  if !isBlank (← current) then failFrom start .expectedBlank
  advanceWhile isBlank
  let expansion ← scanAddress start []
  if !isBlankOrEnd (← current) then failFrom start .expectedBlankOrBreak
  return .tagDirective (String.ofList handle) expansion

/-- The rest of a line that may hold nothing more than a comment, which `comment`
passes. -/
def scanLineEnd (start : Mark) (comment : Scan Unit) : Scan Unit := do
  advanceWhile isBlank
  if (← ahead 0) == '#' then
    comment
    advanceWhile fun c => !isBreakOrEnd c
  let c ← ahead 0
  if !isBreakOrEnd c then failFrom start .expectedLineEnd
  if isBreak c then
    need 2
    advanceLine

/-- A directive, at its percent sign. -/
def scanDirective : Scan Token := do
  let start ← here
  advance
  let name ← takeWhile isWordChar
  if name.isEmpty then failFrom start .missingDirectiveName
  if !isBlankOrEnd (← ahead 0) then failFrom start .directiveNameEnd
  let kind ← match String.ofList name with
    | "YAML" => scanVersion start
    | "TAG" => scanTagDirective start
    | _ => failFrom start .unknownDirective
  let stop ← here
  scanLineEnd start (pure ())
  return ⟨kind, start, stop⟩

end Netlist.Yaml
