import Netlist.Text.Decimal

/-!
# Styles

A style is a list of attributes of terminal text.  Painted text stands between a
sequence that switches the attributes on and one that switches each of them off.
-/

namespace Netlist.Report

/-- The attributes that text is shown with. -/
structure Style where
  attributes : List Nat
  deriving DecidableEq, Repr

namespace Style

/-- The attribute of bold text. -/
def bold : Nat := 1

/-- The attribute that undoes another one. -/
def reset (a : Nat) : Nat := if a == bold then 22 else 0

def sequence (attributes : List Nat) : String :=
  "\x1b[" ++ ";".intercalate (attributes.map Decimal.ofNat) ++ "m"

/-- A text in a style, or the plain text when there are no colours. -/
def paint (style : Style) (color : Bool) (text : String) : String :=
  if color then sequence style.attributes ++ text ++ sequence (style.attributes.map reset) else text

def error : Style := ⟨[31, bold]⟩

def warning : Style := ⟨[33, bold]⟩

/-- The style of all else that is reported. -/
def info : Style := ⟨[36, bold]⟩

def note : Style := ⟨[34]⟩

def code : Style := ⟨[bold]⟩

/-- The style of the margin with the line numbers. -/
def margin : Style := ⟨[90]⟩

def mark : Style := ⟨[32, bold]⟩

end Style

end Netlist.Report
