import Netlist.Diagnostic.Basic

/-!
# What can be wrong with a pattern

Each way in which an expression or its expansion can go wrong, with its code,
its severity and its message.
-/

namespace Netlist.Pattern

/-- A problem of a pattern expression. -/
inductive Problem where
  | emptyExpression
  | emptySegment (raw : String)
  | nestedGroup (raw : String)
  | unclosedGroup (opening : Char) (raw : String)
  | unexpectedClose (close : Char) (raw : String)
  | emptyEnumeration (raw : String)
  | emptyRange (raw : String)
  | emptyItem (content : String)
  | singleItem (content : String)
  | rangeForm (content : String)
  | rangeBounds (content : String)
  | rangeTooLarge (content : String) (count limit : Nat)
  | invalidReference (name : String)
  | unknownNamed (name : String)
  | invalidNamed (name definition : String)
  | invalidName (name : String)
  | spliceRefused (raw : String)
  | tooManyAtoms (raw : String) (limit : Nat)
  | duplicateAtoms (raw : String) (shown : List String) (hidden : Nat)
  | endpointDots (literal raw : String)
  | endpointHalf (literal raw : String)
  deriving DecidableEq, Repr

namespace Problem

def code : Problem → Code
  | emptyExpression => .emptyExpression
  | emptySegment _ => .emptySegment
  | nestedGroup _ => .nestedGroup
  | unclosedGroup _ _ => .unclosedGroup
  | unexpectedClose _ _ => .unexpectedClose
  | emptyEnumeration _ => .emptyGroup
  | emptyRange _ => .emptyGroup
  | emptyItem _ => .emptyItem
  | singleItem _ => .singleItem
  | rangeForm _ => .invalidRange
  | rangeBounds _ => .invalidRange
  | rangeTooLarge _ _ _ => .expansionTooLarge
  | invalidReference _ => .invalidAxisName
  | unknownNamed _ => .unknownNamedPattern
  | invalidNamed _ _ => .invalidNamedPattern
  | invalidName _ => .invalidAxisName
  | spliceRefused _ => .spliceRefused
  | tooManyAtoms _ _ => .expansionTooLarge
  | duplicateAtoms _ _ _ => .duplicateAtoms
  | endpointDots _ _ => .endpointSplit
  | endpointHalf _ _ => .endpointSplit

/-- Only an enumeration of one item is a mere warning. -/
def severity : Problem → Severity
  | singleItem _ => .warning
  | _ => .error

def message : Problem → String
  | emptyExpression => "empty pattern expression"
  | emptySegment raw => "empty segment in " ++ Text.quoted raw
  | nestedGroup raw => "nested group in " ++ Text.quoted raw
  | unclosedGroup c raw => "unclosed " ++ Text.quotedDelimiter c ++ " in " ++ Text.quoted raw
  | unexpectedClose c raw => "unexpected " ++ Text.quotedDelimiter c ++ " in " ++ Text.quoted raw
  | emptyEnumeration raw => "empty enumeration in " ++ Text.quoted raw
  | emptyRange raw => "empty range in " ++ Text.quoted raw
  | emptyItem content => "empty item in enumeration <" ++ content ++ ">"
  | singleItem content => "enumeration <" ++ content ++ "> has a single item"
  | rangeForm content => "range [" ++ content ++ "] must have the form [hi:lo]"
  | rangeBounds content => "range [" ++ content ++ "] bounds must be non-negative integers"
  | rangeTooLarge content count limit =>
    "range [" ++ content ++ "] yields " ++ Decimal.ofNat count ++ " values, limit is " ++
      Decimal.ofNat limit
  | invalidReference name => "invalid named pattern reference <@" ++ name ++ ">"
  | unknownNamed name => "unknown named pattern " ++ Text.quoted name
  | invalidNamed name definition =>
    "named pattern " ++ Text.quoted name ++
      " must be a single group such as <a,b> or [3:0], got " ++ Text.quoted definition
  | invalidName name => "invalid named pattern name " ++ Text.quoted name
  | spliceRefused raw => "splice ';' is not allowed in " ++ Text.quoted raw
  | tooManyAtoms raw limit =>
    "expansion of " ++ Text.quoted raw ++ " exceeds the limit of " ++ Decimal.ofNat limit ++
      " atoms"
  | duplicateAtoms raw shown hidden =>
    "expansion of " ++ Text.quoted raw ++ " produces duplicate atoms: " ++ ", ".intercalate shown ++
      (if hidden == 0 then "" else " (and " ++ Decimal.ofNat hidden ++ " more)")
  | endpointDots literal raw =>
    "endpoint " ++ Text.quoted literal ++ " (from " ++ Text.quoted raw ++
      ") must contain exactly one '.'"
  | endpointHalf literal raw =>
    "endpoint " ++ Text.quoted literal ++ " (from " ++ Text.quoted raw ++
      ") needs both an instance and a port"

def at_ (p : Problem) (span : Span) : Diagnostic := ⟨p.severity, p.code, span, p.message, []⟩

end Problem

end Netlist.Pattern
