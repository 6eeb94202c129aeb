import Netlist.Program.Basic

/-!
# The graph of instantiations

Modules are numbered in the order of their identifiers.  There is an edge from a
module to every module that it instantiates, however often it does.
-/

namespace Netlist.Hierarchy

/-- A graph on the numbers below the length of `edges`. -/
structure Graph where
  /-- For each node, the nodes that its edges lead to. -/
  edges : List (List Nat)
  /-- For each node, the number of edges that lead to it. -/
  incoming : List Int
  deriving DecidableEq, Repr

namespace Graph

/-- The number of nodes. -/
def size (g : Graph) : Nat := g.edges.length

/-- The nodes that the edges of a node lead to. -/
def targets (g : Graph) (n : Nat) : List Nat := (g.edges[n]?).getD []

def ofEdges (edges : List (List Nat)) : Graph :=
  ⟨edges, (List.range edges.length).map fun n => edges.foldl (fun total ts => total + ts.count n) 0⟩

end Graph

def index (p : Program) : List Ident := p.modules.keys

/-- The numbers of the modules that a module instantiates, each once, in order. -/
def children (index : List Ident) (m : Module) : List Nat :=
  let numbers := m.instances.items.filterMap fun i =>
    if i.ref.kind == .module_ then index.idxOf? i.ref.id else none
  numbers.eraseDups.mergeSort (· ≤ ·)

def graph (p : Program) : Graph := Graph.ofEdges (p.modules.items.map (children (index p)))

end Netlist.Hierarchy
