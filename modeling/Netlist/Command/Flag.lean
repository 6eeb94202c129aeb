import Netlist.Text.Numeral
import Netlist.Text.Quoted

/-!
# Flags

The words of a command line are flags, values of flags, and arguments.  A flag is
written `--name value` or `--name=value`, and some have a letter: `-l value`, `-lvalue`
or `-l=value`.  A switch takes a value only after an equals sign, and letters of
switches can be written together.  After `--` there are only arguments.
-/

namespace Netlist.Command

/-- What a flag takes as its value. -/
inductive FlagKind where
  | text
  | texts
  | number
  | switch
  deriving DecidableEq, Repr

/-- A flag. -/
structure Flag where
  name : String
  kind : FlagKind
  letter : Option Char := none
  deriving DecidableEq, Repr

/-- A value of a flag. -/
inductive FlagValue where
  | text (s : String)
  | number (n : Int)
  | switch (b : Bool)
  deriving DecidableEq, Repr

/-- The values that flags were given, the last one first. -/
structure Given where
  values : List (String × FlagValue) := []
  deriving DecidableEq, Repr

namespace Given

def has (g : Given) (name : String) : Bool := (g.values.lookup name).isSome

def text (g : Given) (name default : String) : String :=
  match g.values.lookup name with
  | some (.text s) => s
  | _ => default

def number (g : Given) (name : String) (default : Int) : Int :=
  match g.values.lookup name with
  | some (.number n) => n
  | _ => default

def switch (g : Given) (name : String) : Bool :=
  match g.values.lookup name with
  | some (.switch b) => b
  | _ => false

/-- All texts that a flag was given, in order. -/
def texts (g : Given) (name : String) : List String :=
  (g.values.filterMap fun (n, v) =>
    match v with
    | .text s => if n == name then some s else none
    | _ => none).reverse

def add (g : Given) (f : Flag) (v : FlagValue) : Given := ⟨(f.name, v) :: g.values⟩

end Given

/-! ## Faults -/

/-- Why a text is no value for a flag. -/
inductive ValueFault where
  | number (fault : Numeral.Fault)
  | switch
  deriving DecidableEq, Repr

/-- A command line whose flags cannot be read. -/
inductive FlagFault where
  | malformed (word : String)
  | unknown (name : String)
  | unknownLetter (letters : List Char)
  | noValue (name : String)
  | noLetterValue (letters : List Char)
  | badValue (flag : Flag) (value : String) (fault : ValueFault)
  deriving DecidableEq, Repr

/-- The first of some letters as messages show it.  One sign stands for all letters
outside ASCII. -/
def shownLetter (letters : List Char) : String :=
  match letters with
  | c :: _ => Text.quotedDelimiter (if c.toNat < 0x80 then c else Char.ofNat 0xC3)
  | [] => ""

def ValueFault.message (value : String) : ValueFault → String
  | number .malformed => "strconv.ParseInt: parsing " ++ Text.quoted value ++ ": invalid syntax"
  | number .outOfRange => "strconv.ParseInt: parsing " ++ Text.quoted value ++
      ": value out of range"
  | switch => "strconv.ParseBool: parsing " ++ Text.quoted value ++ ": invalid syntax"

/-- How messages show a flag. -/
def Flag.shown (f : Flag) : String :=
  match f.letter with
  | some c => "-" ++ String.singleton c ++ ", --" ++ f.name
  | none => "--" ++ f.name

def FlagFault.message : FlagFault → String
  | malformed word => "bad flag syntax: " ++ word
  | unknown name => "unknown flag: --" ++ name
  | unknownLetter letters =>
    "unknown shorthand flag: " ++ shownLetter letters ++ " in -" ++ String.ofList letters
  | noValue name => "flag needs an argument: --" ++ name
  | noLetterValue letters =>
    "flag needs an argument: " ++ shownLetter letters ++ " in -" ++ String.ofList letters
  | badValue f value fault =>
    "invalid argument " ++ Text.quoted value ++ " for " ++ Text.quoted f.shown ++ " flag: " ++
      fault.message value

/-! ## Reading -/

def yesWords : List String := ["1", "t", "T", "true", "TRUE", "True"]

def noWords : List String := ["0", "f", "F", "false", "FALSE", "False"]

def Flag.readValue (f : Flag) (value : String) : Except FlagFault FlagValue :=
  match f.kind with
  | .text | .texts => .ok (.text value)
  | .number =>
    match Numeral.read value with
    | .ok n => .ok (.number n)
    | .error fault => .error (.badValue f value (.number fault))
  | .switch =>
    if yesWords.contains value then .ok (.switch true)
    else if noWords.contains value then .ok (.switch false)
    else .error (.badValue f value .switch)

/-- A flag at the end of a word, which takes the next word as its value. -/
structure Waiting where
  flag : Flag
  /-- What is wrong if there is no next word. -/
  otherwise : FlagFault

/-- Reads what follows two dashes. -/
def readLong (flags : List Flag) (g : Given) (word : String) (body : List Char) :
    Except FlagFault (Given × Option Waiting) :=
  let name := String.ofList (body.takeWhile (· != '='))
  let rest := body.dropWhile (· != '=')
  if name.isEmpty || name.startsWith "-" then .error (.malformed word)
  else
    match flags.find? fun f => f.name == name with
    | none => .error (.unknown name)
    | some f =>
      match rest with
      | _ :: value => (f.readValue (String.ofList value)).map fun v => (g.add f v, none)
      | [] =>
        if f.kind == .switch then .ok (g.add f (.switch true), none)
        else .ok (g, some ⟨f, .noValue name⟩)

/-- How letters start that are meant for a test runner. -/
def testRunnerLetters : List Char := ['t', 'e', 's', 't', '.']

/-- Reads the letters that follow one dash.  Those for a test runner are passed over. -/
def readLetters (flags : List Flag) (g : Given) :
    List Char → Except FlagFault (Given × Option Waiting)
  | [] => .ok (g, none)
  | c :: rest =>
    if testRunnerLetters.isPrefixOf (c :: rest) then .ok (g, none)
    else match flags.find? fun f => f.letter == some c with
    | none => .error (.unknownLetter (c :: rest))
    | some f =>
      match rest with
      | '=' :: d :: value =>
        (f.readValue (String.ofList (d :: value))).map fun v => (g.add f v, none)
      | _ =>
        if f.kind == .switch then readLetters flags (g.add f (.switch true)) rest
        else if rest.isEmpty then .ok (g, some ⟨f, .noLetterValue [c]⟩)
        else (f.readValue (String.ofList rest)).map fun v => (g.add f v, none)

/-- Reads a word; nothing if it is an argument. -/
def readWord (flags : List Flag) (g : Given) (word : String) :
    Except FlagFault (Option (Given × Option Waiting)) :=
  match word.toList with
  | '-' :: '-' :: body => (readLong flags g word body).map some
  | '-' :: c :: rest => (readLetters flags g (c :: rest)).map some
  | _ => .ok none

/-- Reads the words of a command line into the values of flags and the arguments. -/
def readWords (flags : List Flag) (g : Given) : List String → Except FlagFault (Given × List String)
  | [] => .ok (g, [])
  | word :: rest =>
    if word == "--" then .ok (g, rest)
    else
      match readWord flags g word with
      | .error e => .error e
      | .ok none => (readWords flags g rest).map fun (g, args) => (g, word :: args)
      | .ok (some (g, none)) => readWords flags g rest
      | .ok (some (g, some w)) =>
        match rest with
        | [] => .error w.otherwise
        | value :: rest =>
          match w.flag.readValue value with
          | .error e => .error e
          | .ok v => readWords flags (g.add w.flag v) rest

end Netlist.Command
