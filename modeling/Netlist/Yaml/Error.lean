import Netlist.Text.Decimal

/-!
# What can be wrong with a YAML text

A problem is found by one of three steps: decoding the bytes, cutting the text
into tokens, or putting tokens together.  The error names a line unless the
problem is on the first one or lies in the bytes.
-/

namespace Netlist.Yaml

/-- A place in a text.  All three numbers count characters or lines from zero. -/
structure Mark where
  /-- The number of characters before the place. -/
  index : Nat := 0
  /-- The number of lines before the place. -/
  line : Nat := 0
  /-- The number of characters before the place in its line. -/
  column : Nat := 0
  deriving DecidableEq, Repr

/-- What is wrong with a text. -/
inductive Problem where
  | leadingOctet
  | trailingOctet
  | sequenceLength
  | incompleteSequence
  | invalidCharacter
  | incompleteUnit
  | incompletePair
  | unexpectedLowSurrogate
  | missingLowSurrogate
  | controlCharacter
  | missingColon
  | tooDeep
  | entryNotAllowed
  | keyNotAllowed
  | valueNotAllowed
  | cannotStart
  | missingDirectiveName
  | directiveNameEnd
  | unknownDirective
  | expectedLineEnd
  | versionPoint
  | versionTooLong
  | missingVersion
  | expectedBlank
  | expectedBlankOrBreak
  | anchorName
  | tagClose
  | tagAddress
  | tagMark
  | escapedOctet
  | escapedLeadingOctet
  | escapedTrailingOctet
  | zeroIndentation
  | tabInBlock
  | tabInPlain
  | documentMarker
  | unexpectedEnd
  | unknownEscape
  | hexadecimalNumber
  | escapeCode
  | expectedDocumentStart
  | duplicateVersion
  | incompatibleVersion
  | duplicateTag
  | undefinedHandle
  | expectedContent
  | expectedDash
  | expectedKey
  | expectedCommaOrBracket
  | expectedCommaOrBrace
  | unknownAnchor (name : String)
  deriving DecidableEq, Repr

def Problem.text : Problem → String
  | leadingOctet => "invalid leading UTF-8 octet"
  | trailingOctet => "invalid trailing UTF-8 octet"
  | sequenceLength => "invalid length of a UTF-8 sequence"
  | incompleteSequence => "incomplete UTF-8 octet sequence"
  | invalidCharacter => "invalid Unicode character"
  | incompleteUnit => "incomplete UTF-16 character"
  | incompletePair => "incomplete UTF-16 surrogate pair"
  | unexpectedLowSurrogate => "unexpected low surrogate area"
  | missingLowSurrogate => "expected low surrogate area"
  | controlCharacter => "control characters are not allowed"
  | missingColon => "could not find expected ':'"
  | tooDeep => "exceeded max depth of 10000"
  | entryNotAllowed => "block sequence entries are not allowed in this context"
  | keyNotAllowed => "mapping keys are not allowed in this context"
  | valueNotAllowed => "mapping values are not allowed in this context"
  | cannotStart => "found character that cannot start any token"
  | missingDirectiveName => "could not find expected directive name"
  | directiveNameEnd => "found unexpected non-alphabetical character"
  | unknownDirective => "found unknown directive name"
  | expectedLineEnd => "did not find expected comment or line break"
  | versionPoint => "did not find expected digit or '.' character"
  | versionTooLong => "found extremely long version number"
  | missingVersion => "did not find expected version number"
  | expectedBlank => "did not find expected whitespace"
  | expectedBlankOrBreak => "did not find expected whitespace or line break"
  | anchorName => "did not find expected alphabetic or numeric character"
  | tagClose => "did not find the expected '>'"
  | tagAddress => "did not find expected tag URI"
  | tagMark => "did not find expected '!'"
  | escapedOctet => "did not find URI escaped octet"
  | escapedLeadingOctet => "found an incorrect leading UTF-8 octet"
  | escapedTrailingOctet => "found an incorrect trailing UTF-8 octet"
  | zeroIndentation => "found an indentation indicator equal to 0"
  | tabInBlock => "found a tab character where an indentation space is expected"
  | tabInPlain => "found a tab character that violates indentation"
  | documentMarker => "found unexpected document indicator"
  | unexpectedEnd => "found unexpected end of stream"
  | unknownEscape => "found unknown escape character"
  | hexadecimalNumber => "did not find expected hexdecimal number"
  | escapeCode => "found invalid Unicode character escape code"
  | expectedDocumentStart => "did not find expected <document start>"
  | duplicateVersion => "found duplicate %YAML directive"
  | incompatibleVersion => "found incompatible YAML document"
  | duplicateTag => "found duplicate %TAG directive"
  | undefinedHandle => "found undefined tag handle"
  | expectedContent => "did not find expected node content"
  | expectedDash => "did not find expected '-' indicator"
  | expectedKey => "did not find expected key"
  | expectedCommaOrBracket => "did not find expected ',' or ']'"
  | expectedCommaOrBrace => "did not find expected ',' or '\x7d'"
  | unknownAnchor name => "unknown anchor '" ++ name ++ "' referenced"

/-- A problem and the line that is named with it. -/
structure Error where
  problem : Problem
  /-- The line, if one is named. -/
  line : Option Nat := none
  deriving DecidableEq, Repr

def Problem.isInBytes : Problem → Bool
  | leadingOctet => true
  | trailingOctet => true
  | sequenceLength => true
  | incompleteSequence => true
  | invalidCharacter => true
  | incompleteUnit => true
  | incompletePair => true
  | unexpectedLowSurrogate => true
  | missingLowSurrogate => true
  | controlCharacter => true
  | _ => false

/-- An error found while cutting the text into tokens: it names the line where the
construct starts, or the line reached when that is the first one, counted from
one; the first line is never named. -/
def Error.inToken (problem : Problem) (context reached : Mark) : Error :=
  if context.line != 0 then ⟨problem, some (context.line + 1)⟩
  else if reached.line != 0 then ⟨problem, some (reached.line + 1)⟩
  else ⟨problem, none⟩

/-- An error found while putting tokens together: it names the line where the
construct starts, or the line of the token when that is the first one, counted
from zero; the first line is never named. -/
def Error.inNode (problem : Problem) (context token : Mark) : Error :=
  if context.line != 0 then ⟨problem, some context.line⟩
  else if token.line != 0 then ⟨problem, some token.line⟩
  else ⟨problem, none⟩

/-- The line that a later error in the bytes names.  Bytes have no line of their own, so
that of the error before stays, counted from zero. -/
def Error.lineBefore (e : Error) : Option Nat :=
  if e.problem.isInBytes then e.line else e.line.map (· - 1)

end Netlist.Yaml
