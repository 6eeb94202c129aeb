import Netlist.Pattern.Parse
import Netlist.Program.Basic

/-!
# Designs

A design is a set of documents with all references resolved, before expressions
are expanded.  Every expression has an identifier and is kept in one table.
-/

namespace Netlist

/-- What an expression names, as a number. -/
structure ExpressionKind where
  byte : UInt8
  deriving DecidableEq, Repr, Hashable

namespace ExpressionKind

def moduleName : ExpressionKind := ⟨1⟩

def net : ExpressionKind := ⟨2⟩

def instance_ : ExpressionKind := ⟨3⟩

def endpoint : ExpressionKind := ⟨4⟩

def param : ExpressionKind := ⟨5⟩

/-- The net of a default binding. -/
def default_ : ExpressionKind := ⟨6⟩

def name (k : ExpressionKind) : String :=
  match k.byte.toNat with
  | 1 => "module"
  | 2 => "net"
  | 3 => "instance"
  | 4 => "endpoint"
  | 5 => "param"
  | 6 => "default"
  | _ => "unknown"

end ExpressionKind

/-- An expression of a design. -/
structure DesignExpression where
  id : Ident
  kind : ExpressionKind
  raw : String
  span : Span
  deriving DecidableEq, Repr

/-- An endpoint expression of a net. -/
structure DesignEndpoint where
  expression : Ident
  /-- Whether overriding a default here is intended. -/
  isSuppressed : Bool
  deriving DecidableEq, Repr

/-- A net declaration. -/
structure DesignNet where
  expression : Ident
  isPort : Bool
  /-- What the nets connect. -/
  endpoints : List DesignEndpoint
  deriving DecidableEq, Repr

/-- A parameter of an instance declaration: one value for all instances or one for
each. -/
structure DesignParam where
  name : String
  expression : Ident
  deriving DecidableEq, Repr

/-- An instance declaration. -/
structure DesignInstance where
  expression : Ident
  /-- What the instances are instances of. -/
  ref : Ref
  params : List DesignParam
  deriving DecidableEq, Repr

/-- A default binding of a port. -/
structure DesignBinding where
  port : String
  net : Ident
  /-- Where the port is named. -/
  span : Span
  deriving DecidableEq, Repr

/-- The default bindings for all instances of a definition. -/
structure DesignDefault where
  ref : Ref
  /-- Where the definition is named. -/
  span : Span
  bindings : List DesignBinding
  deriving DecidableEq, Repr

/-- A module of a design. -/
structure DesignModule where
  id : Ident
  name : String
  nameExpression : Ident
  file : FileId
  /-- Where the name is declared. -/
  span : Span
  patterns : List Param
  parameters : List Param
  nets : List DesignNet
  instances : List DesignInstance
  defaults : List DesignDefault
  deriving DecidableEq, Repr

/-- The named patterns by name; of several with one name the last counts. -/
def DesignModule.named (m : DesignModule) : List (String × String) :=
  (m.patterns.map fun p => (p.name, p.value)).reverse

/-- Modules and devices with all references resolved. -/
structure Design where
  top : Ident
  modules : List DesignModule
  devices : List Device
  expressions : IdMap DesignExpression

end Netlist
