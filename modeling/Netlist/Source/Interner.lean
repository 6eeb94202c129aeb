/-!
# Interned names

Each distinct name gets a small number, in the order the names are first met.
Number zero is the empty name.
-/

namespace Netlist

/-- Names by number. -/
structure Interner where
  /-- The names; the first one is empty. -/
  names : List String := [""]

namespace Interner

/-- The number of a name, if it has one. -/
def find? (t : Interner) (name : String) : Option Nat := t.names.idxOf? name

/-- The number of a name; a new name gets the next one. -/
def intern (t : Interner) (name : String) : Nat × Interner :=
  match t.find? name with
  | some n => (n, t)
  | none => (t.names.length, ⟨t.names ++ [name]⟩)

/-- The name with a number. -/
def lookup? (t : Interner) (n : Nat) : Option String := t.names[n]?

/-- The name with a number that was handed out. -/
def lookup (t : Interner) (n : Nat) : Except String String :=
  match t.lookup? n with
  | some name => .ok name
  | none => .error "source: unknown string id"

end Interner

end Netlist
