import Netlist.Trace.Event

/-!
# The newest events

A ring keeps as many of the newest recorded events as it has slots.  When all
slots are taken, the next event takes the slot of the oldest one.
-/

namespace Netlist.Trace

/-- Slots for the newest events. -/
structure Ring where
  /-- How many slots there are. -/
  capacity : Nat
  level : Level
  slots : Array Event := #[]
  /-- How many events were stored so far, in a word of 64 bits. -/
  total : UInt64 := 0

namespace Ring

/-- How many slots a ring has when no sensible number is asked for. -/
def defaultCapacity : Nat := 4096

def new (capacity : Int) (level : Level) : Ring :=
  { capacity := if capacity ≤ 0 then defaultCapacity else capacity.toNat, level := level }

/-- Stores an event if its scope is recorded. -/
def emit (r : Ring) (e : Event) : Ring :=
  if r.level.records e.scope then
    { r with
      slots := if r.slots.size < r.capacity then r.slots.push e
        else r.slots.setIfInBounds (r.total.toNat % r.capacity) e
      total := r.total + 1 }
  else r

/-- The stored events, oldest first. -/
def snapshot (r : Ring) : List Event :=
  let slots := r.slots.toList
  if r.total.toNat ≤ r.capacity then slots.take r.total.toNat
  else slots.drop (r.total.toNat % r.capacity) ++ slots.take (r.total.toNat % r.capacity)

/-- How many events lost their slot. -/
def overwritten (r : Ring) : Nat := r.total.toNat - r.capacity

/-- Changes the stored events. -/
def map (r : Ring) (f : Event → Event) : Ring := { r with slots := r.slots.map f }

/-- The stored events as lines, after a line that says how many are lost.  Times
are counted from the oldest one. -/
def dump (r : Ring) (format : Format) : String :=
  let events := r.snapshot
  let start := (events.head?.map (·.time)).getD unsetTime
  let lost :=
    if 0 < r.overwritten && format != Format.ndjson then
      "... " ++ Decimal.ofNat r.overwritten ++ " earlier event(s) overwritten\n"
    else ""
  events.foldl (fun out e => out ++ e.line format start) lost

end Ring

end Netlist.Trace
