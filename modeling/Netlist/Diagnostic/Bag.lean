import Netlist.Diagnostic.Basic

/-!
# Bags of diagnostics

A bag keeps diagnostics up to a limit and counts those it had no room for.  An
error that was turned away still counts as one, so a full bag never looks
clean.  `Sink` puts a filter in front of a bag that lets only the first of equal
diagnostics through.  `Tracker` counts the errors that come by on their way to a
sink, whatever becomes of them there.
-/

namespace Netlist

/-- Diagnostics up to a limit. -/
structure Bag where
  /-- The diagnostics, in order. -/
  items : List Diagnostic := []
  /-- How many are kept. -/
  limit : Nat
  /-- How many were turned away. -/
  dropped : Nat := 0
  /-- How many errors were turned away. -/
  droppedErrors : Nat := 0

namespace Bag

def maxLimit : Nat := 65535

/-- An empty bag.  A limit outside the allowed range becomes the largest one. -/
def new (limit : Int) : Bag :=
  { limit := if 0 ≤ limit && limit ≤ 65535 then limit.toNat else maxLimit }

/-- How many diagnostics are kept. -/
def length (b : Bag) : Nat := b.items.length

def hasRoom (b : Bag) : Bool := b.items.length < b.limit

/-- Adds a diagnostic, or counts it when there is no room. -/
def add (b : Bag) (d : Diagnostic) : Bag :=
  if b.hasRoom then { b with items := b.items ++ [d] }
  else
    { b with
      dropped := b.dropped + 1
      droppedErrors := if d.isError then b.droppedErrors + 1 else b.droppedErrors }

/-- Adds diagnostics in order. -/
def addAll (b : Bag) (ds : List Diagnostic) : Bag := ds.foldl add b

/-- Whether an error was added, kept or not. -/
def hasErrors (b : Bag) : Bool := 0 < b.droppedErrors || b.items.any (·.isError)

/-- Whether something at least as bad as a warning is kept. -/
def hasWarnings (b : Bag) : Bool := b.items.any fun d => Severity.warning.rank ≤ d.severity.rank

/-- How many of the kept diagnostics have a severity. -/
def count (b : Bag) (s : Severity) : Nat := (b.items.filter fun d => d.severity == s).length

/-- Adds what another bag keeps, raising the limit as far as that is allowed, and
what it turned away. -/
def merge (b other : Bag) : Bag :=
  let want := b.items.length + other.items.length
  let limit := if b.limit < want && want ≤ maxLimit then want else b.limit
  let b := { b with limit := limit }.addAll other.items
  { b with
    dropped := b.dropped + other.dropped
    droppedErrors := b.droppedErrors + other.droppedErrors }

/-- Keeps only some of the diagnostics. -/
def filter (b : Bag) (keep : Diagnostic → Bool) : Bag := { b with items := b.items.filter keep }

/-- Changes every diagnostic. -/
def map (b : Bag) (f : Diagnostic → Diagnostic) : Bag := { b with items := b.items.map f }

/-- A warning becomes an error; everything else stays. -/
def promote (d : Diagnostic) : Diagnostic :=
  if d.severity == .warning then { d with severity := .error } else d

/-- What diagnostics are sorted by: place, then the worse ones first, then code. -/
def sortKey (d : Diagnostic) : List Nat :=
  [d.span.file.toNat, d.span.start.toNat, d.span.stop.toNat, 255 - d.severity.rank.toNat,
    d.code.number.toNat]

/-- Whether one diagnostic may stand before another. -/
def inOrder (x y : Diagnostic) : Bool := !(sortKey y < sortKey x)

/-- Sorts by place, then by severity with the worse first, then by code.  Equals
keep their order. -/
def sort (b : Bag) : Bag := { b with items := b.items.mergeSort inOrder }

/-- Keeps the first of the diagnostics that `same` takes for equal.  `seen` holds
the kept ones, last one first. -/
def firsts (same : Diagnostic → Diagnostic → Bool) :
    (seen : List Diagnostic) → List Diagnostic → List Diagnostic
  | _, [] => []
  | seen, d :: rest =>
    if seen.any (same d) then firsts same seen rest else d :: firsts same (d :: seen) rest

/-- Whether two diagnostics have the same code, place and message. -/
def sameProblem (x y : Diagnostic) : Bool :=
  x.code == y.code && x.span.text == y.span.text && x.message == y.message

/-- Drops repeats of the same code, place and message. -/
def dedup (b : Bag) : Bag := { b with items := firsts sameProblem [] b.items }

end Bag

/-- A bag behind a filter for repeats. -/
structure Sink where
  bag : Bag
  /-- What was let through. -/
  seen : List Diagnostic := []
  /-- How many repeats were held back. -/
  suppressed : Nat := 0

namespace Sink

/-- Whether two reports are the same: code, severity, place and message. -/
def sameReport (x y : Diagnostic) : Bool :=
  x.code == y.code && x.severity == y.severity && x.span == y.span && x.message == y.message

/-- Reports a diagnostic; a repeat is counted and held back. -/
def report (s : Sink) (d : Diagnostic) : Sink :=
  if s.seen.any (sameReport d) then { s with suppressed := s.suppressed + 1 }
  else { s with bag := s.bag.add d, seen := d :: s.seen }

/-- Reports diagnostics in order. -/
def reportAll (s : Sink) (ds : List Diagnostic) : Sink := ds.foldl report s

end Sink

/-- A sink behind a count of errors. -/
structure Tracker where
  next : Sink
  /-- How many errors came by. -/
  errors : Nat := 0

namespace Tracker

def report (t : Tracker) (d : Diagnostic) : Tracker where
  next := t.next.report d
  errors := if d.isError then t.errors + 1 else t.errors

/-- Reports diagnostics in order. -/
def reportAll (t : Tracker) (ds : List Diagnostic) : Tracker := ds.foldl report t

end Tracker

/-- A diagnostic that is still being put together. -/
structure Draft where
  diagnostic : Diagnostic
  /-- Whether it was reported. -/
  sent : Bool := false

/-- Reports what was put together, the first time. -/
def Draft.emit (d : Draft) (t : Tracker) : Draft × Tracker :=
  if d.sent then (d, t) else ({ d with sent := true }, t.report d.diagnostic)

end Netlist
