import Netlist.Toml.Value

/-!
# Building a TOML document

A document is built key by key.  A key may be defined once.  A table that a longer key
implies may still be defined by itself, once.  Below an array of tables a key belongs
to the last of its tables.
-/

namespace Netlist.Toml

/-! ## Keys -/

/-- A key: its parts from the outermost table inwards. -/
abbrev Key := List String

/-- Whether a character can stand in a key without quotes. -/
def isBare (c : Char) : Bool :=
  ('a' ≤ c && c ≤ 'z') || ('A' ≤ c && c ≤ 'Z') || ('0' ≤ c && c ≤ '9') || c == '_' || c == '-'

/-- How a character is written in a part with quotes. -/
def quotedPartChar (c : Char) : List Char :=
  if c == '"' || c == '\\' then ['\\', c]
  else if c.toNat == 8 then ['\\', 'b']
  else if c == '\t' then ['\\', 't']
  else if c == '\n' then ['\\', 'n']
  else if c.toNat == 12 then ['\\', 'f']
  else if c == '\r' then ['\\', 'r']
  else if c.toNat < 0x20 || c.toNat == 0x7F then '\\' :: 'u' :: Text.hexPadded 4 c.toNat
  else [c]

/-- A part of a key as it is written, in quotes if need be. -/
def partText (part : String) : String :=
  if part.isEmpty then "\"\""
  else if part.toList.all isBare then part
  else String.ofList ('"' :: (part.toList.flatMap quotedPartChar ++ ['"']))

def keyText (key : Key) : String := ".".intercalate (key.map partText)

/-! ## What is known about keys -/

/-- What is known about a key besides its value. -/
structure KeyFact where
  /-- Whether its value is an array in brackets. -/
  isArray : Bool
  line : Nat

/-- What is known about a key and about longer keys, by their next part. -/
inductive KeyFacts where
  /-- Whether the key is a table that is implied and not defined, what is known about it,
  and the facts below. -/
  | node (isImplied : Bool) (fact : Option KeyFact) (below : List (String × KeyFacts))

namespace KeyFacts

/-- Nothing is known. -/
def none : KeyFacts := node false Option.none []

def isImplied : KeyFacts → Bool
  | node i _ _ => i

/-- What is known about the key itself. -/
def fact? : KeyFacts → Option KeyFact
  | node _ f _ => f

/-- Whether the value of the key itself is an array in brackets. -/
def isArray (facts : KeyFacts) : Bool := (facts.fact?.map (·.isArray)).getD false

/-- The facts below a part. -/
def child : KeyFacts → String → KeyFacts
  | node _ _ b, part => (b.lookup part).getD none

/-- Gives an entry of a list another value, or adds it. -/
def setEntry : List (String × KeyFacts) → String → KeyFacts → List (String × KeyFacts)
  | [], part, facts => [(part, facts)]
  | (p, f) :: rest, part, facts =>
    if p == part then (p, facts) :: rest else (p, f) :: setEntry rest part facts

/-- Puts facts below a part. -/
def setChild : KeyFacts → String → KeyFacts → KeyFacts
  | node i f b, part, facts => node i f (setEntry b part facts)

/-- Says whether the key itself is an implied table. -/
def setImplied (isImplied : Bool) : KeyFacts → KeyFacts
  | node _ f b => node isImplied f b

/-- Says what is known about the key itself. -/
def setFact (fact : KeyFact) : KeyFacts → KeyFacts
  | node i _ b => node i (some fact) b

def at_ : KeyFacts → Key → KeyFacts
  | facts, [] => facts
  | facts, part :: rest => (facts.child part).at_ rest

def update (change : KeyFacts → KeyFacts) : Key → KeyFacts → KeyFacts
  | [], facts => change facts
  | part :: rest, facts => facts.setChild part (update change rest (facts.child part))

end KeyFacts

/-! ## Tables -/

/-- The state of building. -/
structure Builder where
  /-- The document so far. -/
  root : Table := []
  /-- The table that keys are defined in. -/
  context : Key := []
  /-- The key whose value is read, empty between definitions. -/
  current : String := ""
  /-- The line of the last key or table name. -/
  line : Nat := 0
  /-- What is known about keys. -/
  facts : KeyFacts := .none
  /-- The keys in the order of the document. -/
  keys : Array Key := #[]

def Table.get? (t : Table) (name : String) : Option Value := (t.find? (·.1 == name)).map (·.2)

/-- Gives a member of a table a value, in its place if it is there. -/
def Table.set : Table → String → Value → Table
  | [], name, v => [(name, v)]
  | (n, w) :: rest, name, v => if n == name then (n, v) :: rest else (n, w) :: set rest name v

/-- Why a table cannot be changed: the key that is in the way, and what is wrong with it. -/
abbrev Obstacle := Key × (String → Problem)

/-- A change of a table together with what is known about its keys. -/
abbrev Change := Table → KeyFacts → Except Obstacle (Table × KeyFacts)

/-- Changes the table at a path.  Tables that are not there are made if `create` says so,
and are implied then; anything else on the path is an obstacle. -/
def Change.below (blocked : String → Problem) (create : Bool) (change : Change) :
    (path : Key) → Change
  | [], t, facts => change t facts
  | part :: rest, t, facts =>
    let inside (inner : Table) (own : KeyFacts) (wrap : Table → Value) :=
      match below blocked create change rest inner own with
      | .ok (inner, own) => .ok (t.set part (wrap inner), facts.setChild part own)
      | .error (key, p) => .error (part :: key, p)
    match t.get? part with
    | some (.table inner) => inside inner (facts.child part) .table
    | some (.tables items) =>
      inside (items.getLast?.getD []) (facts.child part) fun last =>
        .tables (items.dropLast ++ [last])
    | some _ => .error ([part], blocked)
    | none =>
      if create then inside [] ((facts.child part).setImplied true) .table
      else .error ([part], blocked)

/-- Defines a member.  An array is replaced, and an implied table stays as it is and
counts as defined from now on. -/
def Change.define (name : String) (v : Value) : Change := fun t facts =>
  let own := facts.child name
  let settled := facts.setChild name (own.setImplied false)
  if (t.get? name).isNone then .ok (t.set name v, facts)
  else if own.isArray then .ok (t.set name v, settled)
  else if own.isImplied then .ok (t, settled)
  else .error ([name], .alreadyDefined)

/-- Marks a member as an implied table and changes the table then. -/
def Change.mark (name : String) (change : Change) : Change := fun t facts =>
  change t (facts.setChild name ((facts.child name).setImplied true))

/-- Adds a new table to an array of tables. -/
def Change.extend (name : String) : Change := fun t facts =>
  match t.get? name with
  | none => .ok (t.set name (.tables [[]]), facts)
  | some (.tables items) => .ok (t.set name (.tables (items ++ [[]])), facts)
  | some _ => .error ([name], .notAnArray)

/-- Makes the tables of a path one inside the other.  Those that are new are implied, and
those that are there count as defined; an array gives way to a table. -/
def Change.imply : (path : Key) → Change
  | [], t, facts => .ok (t, facts)
  | part :: rest, t, facts =>
    let inside (inner : Table) (isNew : Bool) (wrap : Table → Value) :=
      match imply rest inner ((facts.child part).setImplied isNew) with
      | .ok (inner, own) => .ok (t.set part (wrap inner), facts.setChild part own)
      | .error (key, p) => .error (part :: key, p)
    match t.get? part with
    | none => inside [] true .table
    | some v =>
      if (facts.child part).isArray then inside [] false .table
      else
        match v with
        | .table inner => inside inner false .table
        | .tables items =>
          inside (items.getLast?.getD []) false fun last => .tables (items.dropLast ++ [last])
        | _ =>
          if rest.isEmpty then .ok (t, facts.setChild part ((facts.child part).setImplied false))
          else .error ([part], .notATable)

namespace Builder

/-- The full key that is being read, as it is written. -/
def lastKey (b : Builder) : String :=
  if b.current.isEmpty then keyText b.context
  else if b.context.isEmpty then b.current
  else keyText b.context ++ "." ++ b.current

/-- Notes what is known about the current table, or about one of its members. -/
def note (b : Builder) (name : String) (isArray : Bool) (line : Nat) : Builder :=
  let key := if name.isEmpty then b.context else b.context ++ [name]
  let key := if key.isEmpty then [""] else key
  { b with facts := b.facts.update (.setFact ⟨isArray, line⟩) key }

end Builder

/-! ## Steps -/

/-- A step of building, with the document still to be read. -/
abbrev Parse := StateT Builder Scan

namespace Parse

def failAt {α : Type} (line : Int) (p : Problem) : Parse α := fun b _ =>
  .error { line := line, lastKey := b.lastKey, problem := p }

/-- Fails at the line of the last key. -/
def fail {α : Type} (p : Problem) : Parse α := fun b _ =>
  .error { line := b.line, lastKey := b.lastKey, problem := p }

/-- Reads on; a fault there is put down to the key that is being read. -/
def scan {α : Type} (x : Scan α) : Parse α := fun b c =>
  match x c with
  | .ok (a, c) => .ok ((a, b), c)
  | .error f => .error { f with lastKey := b.lastKey }

/-- The meaning of a text that ends on the current line. -/
def meaning {α : Type} (x : Meaning α) : Parse α := do
  match x with
  | .ok a => return a
  | .error p => failAt (← scan get).line p

/-- Changes the document at the current table or at another one.  `fallback` gives the
current table in case of an obstacle, from the key that is in the way. -/
def change (c : Change) (fallback : Key → Key) : Parse Unit := do
  let b ← get
  match c b.root b.facts with
  | .ok (root, facts) => set { b with root := root, facts := facts }
  | .error (key, p) =>
    set { b with context := fallback key }
    fail (p (keyText key))

/-- Defines a member of the current table. -/
def define (name : String) (v : Value) : Parse Unit := do
  let context := (← get).context
  change (.below .alreadyDefined false (.define name v) context) fun _ => context

/-- Enters the table with a key, or a new table of the array of tables with a key.  An
inline table is first marked as implied. -/
def enter (key : Key) (inArray isInline : Bool) : Parse Unit := do
  let name := key.getLast?.getD ""
  let outer := key.dropLast
  let context := (← get).context
  let own := if inArray then Change.extend name else Change.define name (.table [])
  let own := if isInline then own.mark name else own
  change (.below .notATable true own outer) fun blocked =>
    if blocked.length ≤ outer.length then context else outer
  modify fun b => { b with context := key }

/-- Enters the tables that the first parts of a key imply. -/
def enterImplied (parts : Key) : Parse Unit := do
  if parts.isEmpty then return
  let context := (← get).context
  change (.below .notATable true (.imply parts) context) fun blocked =>
    if blocked.length ≤ context.length then context else blocked
  modify fun b => { b with context := context ++ parts }

/-- Begins the definition of a key in the current table: its last part becomes the current
key, and the parts before it the current table. -/
def begin_ (key : Key) : Parse Unit := do
  modify fun b => { b with current := key.getLast?.getD "" }
  enterImplied key.dropLast
  modify fun b => { b with keys := b.keys.push (b.context ++ [b.current]) }

/-- Gives the current key its value. -/
def assign (v : Value) (line : Nat) : Parse Unit := do
  let name := (← get).current
  define name v
  let isArray := match v with
    | .array _ => true
    | _ => false
  modify (·.note name isArray line)

end Parse

end Netlist.Toml
