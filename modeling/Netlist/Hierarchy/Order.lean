import Netlist.Hierarchy.Graph
import Std.Data.HashSet

/-!
# Ordering a hierarchy

Nodes are taken in batches: first those without incoming edges, then those whose
incoming edges all come from nodes already taken.  Nodes that are never taken
hang on a cycle.
-/

namespace Netlist.Hierarchy

/-- An order of a graph. -/
structure Order where
  batches : List (List Nat)
  /-- The nodes left over that have an edge to another one of them, in order. -/
  cycles : List Nat
  deriving DecidableEq, Repr

/-- All nodes that were taken, each after the nodes with edges to it. -/
def Order.nodes (o : Order) : List Nat := o.batches.flatten

/-- Takes away an edge to a node; the node is free when it was the last one. -/
def release (state : List Int × List Nat) (target : Nat) : List Int × List Nat :=
  let n := (state.1[target]?).getD 0 - 1
  (state.1.set target n, if n == 0 then state.2 ++ [target] else state.2)

/-- Takes away the edges of a batch: the incoming edges left, and the nodes that
become free, in order. -/
def releaseBatch (g : Graph) (incoming : List Int) (batch : List Nat) : List Int × List Nat :=
  let (incoming, free) := (batch.flatMap g.targets).foldl release (incoming, [])
  (incoming, free.mergeSort (· ≤ ·))

/-- The batches from one on, and the incoming edges left in the end.  Each node is
taken once, so the number of nodes is fuel enough. -/
def batchesFrom (g : Graph) :
    (fuel : Nat) → (incoming : List Int) → (batch : List Nat) → List (List Nat) × List Int
  | 0, incoming, _ => ([], incoming)
  | _, incoming, [] => ([], incoming)
  | fuel + 1, incoming, batch =>
    let (incoming, next) := releaseBatch g incoming batch
    let (rest, left) := batchesFrom g fuel incoming next
    (batch :: rest, left)

/-- Of some nodes, each with the targets of its edges, those with an edge to one of them. -/
def leadingBack (nodes : List (Nat × List Nat)) : List (Nat × List Nat) :=
  let among := Std.HashSet.ofList (nodes.map (·.1))
  nodes.filter fun n => n.2.any among.contains

/-- Drops nodes without an edge to another one left, until there is none to drop. -/
def shrink : (fuel : Nat) → List (Nat × List Nat) → List (Nat × List Nat)
  | 0, nodes => nodes
  | fuel + 1, nodes =>
    let left := leadingBack nodes
    if left.length == nodes.length then nodes else shrink fuel left

/-- The nodes without incoming edges. -/
def Graph.sources (g : Graph) : List Nat :=
  (List.range g.size).filter fun n => g.incoming[n]? == some 0

def order (g : Graph) : Order :=
  let (batches, left) := batchesFrom g (g.size + 1) g.incoming g.sources
  let taken := batches.flatten.length
  let waiting := left.zipIdx.filterMap fun (n, node) =>
    if 0 < n then some (node, g.targets node) else none
  ⟨batches, if taken == g.size then [] else (shrink g.size waiting).map (·.1)⟩

/-- Whether some node was not taken. -/
def Order.isCyclic (o : Order) (g : Graph) : Bool := o.nodes.length != g.size

/-- The identifiers of the modules, each after those it instantiates; modules that
were not taken come last. -/
def emitOrder (index : List Ident) (o : Order) : List Ident :=
  let nodes := o.nodes
  let missing := (List.range index.length).filter fun n => !nodes.contains n
  (nodes.reverse ++ missing).filterMap (index[·]?)

end Netlist.Hierarchy
