import Netlist.Yaml.Error

/-!
# The tokens of a YAML text

Comments are no tokens.  They wait until the token that they belong to is handed
out, because a block that ends before a comment ends where the comment starts.
-/

namespace Netlist.Yaml

/-- How a scalar is written. -/
inductive Style where
  | plain
  | singleQuoted
  | doubleQuoted
  | literal
  | folded
  deriving DecidableEq, Repr

/-- Whether a scalar is written between quotes. -/
def Style.isQuoted : Style → Bool
  | singleQuoted => true
  | doubleQuoted => true
  | _ => false

/-- What a token is. -/
inductive TokenKind where
  | streamStart
  | streamEnd
  | versionDirective (major minor : Nat)
  | tagDirective (handle expansion : String)
  | documentStart
  | documentEnd
  | blockSequenceStart
  | blockMappingStart
  | blockEnd
  | flowSequenceStart
  | flowSequenceEnd
  | flowMappingStart
  | flowMappingEnd
  | blockEntry
  | flowEntry
  | key
  | value
  | alias (name : String)
  | anchor (name : String)
  | tag (handle suffix : String)
  | scalar (text : String) (style : Style)
  deriving DecidableEq, Repr

/-- A token and the places where it starts and ends. -/
structure Token where
  kind : TokenKind
  start : Mark
  stop : Mark
  deriving DecidableEq, Repr

/-- What a comment belongs to. -/
inductive CommentPlace where
  /-- To what follows it. -/
  | head
  /-- To what stands in the same line. -/
  | line
  /-- To what stands above it. -/
  | foot
  deriving DecidableEq, Repr

/-- A comment that waits for its token. -/
structure Comment where
  /-- What it belongs to. -/
  place : CommentPlace
  /-- The place of the token that takes it. -/
  owner : Mark
  /-- Where it starts.  The column is counted from one unless it follows a token in its line. -/
  start : Mark
  /-- Where the blanks before it start. -/
  scan : Mark := {}
  stop : Mark := {}
  /-- Whether an empty line follows it. -/
  spaced : Bool := false
  deriving DecidableEq, Repr

end Netlist.Yaml
