import Netlist.Text.Decimal

/-!
# Codes of diagnostics

Each kind of problem has a number.  Its thousands say which part of the work
found it, and that part gives the letters in front of the number: documents,
patterns, axes, imports, symbols, the netlist itself, and observations.
-/

namespace Netlist

/-- The number of a kind of problem. -/
structure Code where
  number : UInt16
  deriving DecidableEq, Repr, Hashable

namespace Code

def unknown : Code := ⟨0⟩

def documentNote : Code := ⟨1000⟩

def malformedDocument : Code := ⟨1001⟩

def unexpectedShape : Code := ⟨1002⟩

def duplicateKey : Code := ⟨1003⟩

def unknownField : Code := ⟨1004⟩

def emptyName : Code := ⟨1005⟩

def invalidEndpoint : Code := ⟨1006⟩

/-- Name not in NFC form. -/
def nameNotComposed : Code := ⟨1007⟩

def patternNote : Code := ⟨2000⟩

def emptyGroup : Code := ⟨2001⟩

def emptyItem : Code := ⟨2002⟩

def singleItem : Code := ⟨2003⟩

def unclosedGroup : Code := ⟨2004⟩

def nestedGroup : Code := ⟨2005⟩

def invalidRange : Code := ⟨2006⟩

/-- Splice not allowed here. -/
def spliceRefused : Code := ⟨2007⟩

def emptySegment : Code := ⟨2008⟩

def expansionTooLarge : Code := ⟨2009⟩

def duplicateAtoms : Code := ⟨2010⟩

/-- Endpoint must contain exactly one '.'. -/
def endpointSplit : Code := ⟨2011⟩

def unknownNamedPattern : Code := ⟨2012⟩

def invalidNamedPattern : Code := ⟨2013⟩

/-- Unexpected closing delimiter. -/
def unexpectedClose : Code := ⟨2014⟩

def emptyExpression : Code := ⟨2015⟩

/-- Expression must expand to one name. -/
def notOneName : Code := ⟨2016⟩

def invalidAxisName : Code := ⟨2017⟩

def malformedRange : Code := ⟨2018⟩

def bindingNote : Code := ⟨3000⟩

def missingAxis : Code := ⟨3001⟩

def axisLengthMismatch : Code := ⟨3002⟩

/-- Endpoint coordinate has no net atom. -/
def unmatchedCoordinate : Code := ⟨3003⟩

def expansionLengthMismatch : Code := ⟨3004⟩

def parameterLengthMismatch : Code := ⟨3005⟩

def duplicateCoordinate : Code := ⟨3006⟩

def valueOffAxis : Code := ⟨3007⟩

def importNote : Code := ⟨4000⟩

def fileNotFound : Code := ⟨4001⟩

def ambiguousImport : Code := ⟨4002⟩

def importCycle : Code := ⟨4003⟩

/-- Failed to read file. -/
def unreadableFile : Code := ⟨4004⟩

def duplicateSymbol : Code := ⟨4005⟩

def invalidImportPath : Code := ⟨4006⟩

def duplicateNamespace : Code := ⟨4007⟩

def symbolNote : Code := ⟨5000⟩

def unresolvedReference : Code := ⟨5001⟩

def ambiguousReference : Code := ⟨5002⟩

def unresolvedQualifiedReference : Code := ⟨5003⟩

def undefinedVariable : Code := ⟨5004⟩

def variableCycle : Code := ⟨5005⟩

def malformedInstance : Code := ⟨5006⟩

def unresolvedTop : Code := ⟨5007⟩

def noTop : Code := ⟨5008⟩

def malformedParameter : Code := ⟨5009⟩

/-- IR information. -/
def netlistNote : Code := ⟨6000⟩

def duplicateNet : Code := ⟨6001⟩

def duplicateInstance : Code := ⟨6002⟩

/-- Endpoint references unknown net. -/
def danglingNet : Code := ⟨6003⟩

/-- Endpoint references unknown instance. -/
def danglingInstance : Code := ⟨6004⟩

/-- Instance references unknown definition. -/
def danglingDefinition : Code := ⟨6005⟩

def duplicatePort : Code := ⟨6006⟩

/-- Port has no backing net. -/
def unbackedPort : Code := ⟨6007⟩

def defaultOverride : Code := ⟨6008⟩

def recursiveInstance : Code := ⟨6009⟩

/-- Instance port bound to more than one net. -/
def portBoundTwice : Code := ⟨6010⟩

def unknownDefaultNet : Code := ⟨6011⟩

def unknownDefaultPort : Code := ⟨6012⟩

/-- Endpoint port not declared by definition. -/
def undeclaredPort : Code := ⟨6013⟩

def internalError : Code := ⟨6099⟩

def observation : Code := ⟨9000⟩

def timings : Code := ⟨9001⟩

/-- The codes that have a title, with the titles. -/
def titles : List (Code × String) :=
  [(unknown, "Unknown error"),
   (documentNote, "Document information"),
   (malformedDocument, "Malformed document"),
   (unexpectedShape, "Unexpected document shape"),
   (duplicateKey, "Duplicate mapping key"),
   (unknownField, "Unknown field"),
   (emptyName, "Empty name"),
   (invalidEndpoint, "Invalid endpoint token"),
   (nameNotComposed, "Name not in NFC form"),
   (patternNote, "Pattern information"),
   (emptyGroup, "Empty pattern group"),
   (emptyItem, "Empty enumeration item"),
   (singleItem, "Single-item enumeration"),
   (unclosedGroup, "Unclosed pattern group"),
   (nestedGroup, "Nested pattern group"),
   (invalidRange, "Invalid numeric range"),
   (spliceRefused, "Splice not allowed here"),
   (emptySegment, "Empty splice segment"),
   (expansionTooLarge, "Pattern expansion too large"),
   (duplicateAtoms, "Duplicate atoms in expansion"),
   (endpointSplit, "Endpoint must contain exactly one '.'"),
   (unknownNamedPattern, "Unknown named pattern"),
   (invalidNamedPattern, "Invalid named pattern definition"),
   (unexpectedClose, "Unexpected closing delimiter"),
   (emptyExpression, "Empty pattern expression"),
   (notOneName, "Expression must expand to one name"),
   (invalidAxisName, "Invalid axis name"),
   (malformedRange, "Malformed range group"),
   (bindingNote, "Binding information"),
   (missingAxis, "Net axis missing from endpoint"),
   (axisLengthMismatch, "Axis length mismatch"),
   (unmatchedCoordinate, "Endpoint coordinate has no net atom"),
   (expansionLengthMismatch, "Expansion length mismatch"),
   (parameterLengthMismatch, "Parameter expansion length mismatch"),
   (duplicateCoordinate, "Duplicate net coordinate"),
   (valueOffAxis, "Atom value not found on axis"),
   (importNote, "Import information"),
   (fileNotFound, "Import file not found"),
   (ambiguousImport, "Ambiguous import"),
   (importCycle, "Import cycle detected"),
   (unreadableFile, "Failed to read file"),
   (duplicateSymbol, "Duplicate symbol"),
   (invalidImportPath, "Invalid import path"),
   (duplicateNamespace, "Duplicate import namespace"),
   (symbolNote, "Symbol information"),
   (unresolvedReference, "Unresolved reference"),
   (ambiguousReference, "Ambiguous reference"),
   (unresolvedQualifiedReference, "Unresolved qualified reference"),
   (undefinedVariable, "Undefined variable"),
   (variableCycle, "Variable reference cycle"),
   (malformedInstance, "Malformed instance declaration"),
   (unresolvedTop, "Unresolved top module"),
   (noTop, "No top module"),
   (malformedParameter, "Malformed instance parameter"),
   (netlistNote, "IR information"),
   (duplicateNet, "Duplicate net name"),
   (duplicateInstance, "Duplicate instance name"),
   (danglingNet, "Endpoint references unknown net"),
   (danglingInstance, "Endpoint references unknown instance"),
   (danglingDefinition, "Instance references unknown definition"),
   (duplicatePort, "Duplicate port"),
   (unbackedPort, "Port has no backing net"),
   (defaultOverride, "Explicit binding overrides default"),
   (recursiveInstance, "Recursive instantiation"),
   (portBoundTwice, "Instance port bound to more than one net"),
   (unknownDefaultNet, "Default binding references unknown net"),
   (unknownDefaultPort, "Default binding names unknown port"),
   (undeclaredPort, "Endpoint port not declared by definition"),
   (internalError, "Internal IR error"),
   (observation, "Observability information"),
   (timings, "Pipeline timings")]

/-- The title of a code; an unlisted code has that of the unknown one. -/
def title (c : Code) : String :=
  match titles.find? fun t => t.1 == c with
  | some t => t.2
  | none => "Unknown error"

/-- The letters in front of the number. -/
def letters (c : Code) : String :=
  match c.number.toNat / 1000 with
  | 1 => "DOC"
  | 2 => "PAT"
  | 3 => "AXS"
  | 4 => "IMP"
  | 5 => "SYM"
  | 6 => "IR"
  | 9 => "OBS"
  | _ => "E"

/-- The code as messages show it: letters and at least four digits. -/
def id (c : Code) : String :=
  let digits := Nat.toDigits 10 c.number.toNat
  c.letters ++ String.ofList (List.replicate (4 - digits.length) '0' ++ digits)

def text (c : Code) : String := "[" ++ c.id ++ "]: " ++ c.title

end Code

end Netlist
