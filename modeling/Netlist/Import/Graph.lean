import Netlist.Document.Decode
import Netlist.Import.Lookup
import Netlist.Symbol.Resolve

/-!
# The files of a design

The import graph holds every file that can be reached from the entry file.  It is
built depth first: a file is read when it is first imported, and gets the next
number; its imports are followed in the order in which they are declared.  A file
that is imported while its own imports are still being followed closes a cycle,
which ends the search without a graph.  Any other fault leaves a graph of what
could be loaded, marked as broken.

Files can change while the search goes on, for one of them may be the file that the
trace of the run is written to.  So reading takes what the search has met so far.  A
file is read just before it is loaded, but when a file imports two or more files that
are new, these are all read before the first of them is followed.

The search takes fuel.  The files on the way down are pairwise distinct files of
the tree, so one more than the number of entries of the tree suffices.
-/

namespace Netlist

/-- A namespace of a file and the file that it stands for. -/
structure ImportEdge where
  ns : String
  target : FileId
  /-- Where the namespace is declared. -/
  span : Span
  deriving DecidableEq, Repr

/-- A file of the graph. -/
structure FileNode where
  id : FileId
  path : String
  document : Document
  /-- Its imports, in order. -/
  imports : List ImportEdge := []

/-- The files of a design with their symbols. -/
structure ImportGraph where
  /-- The files in the order of discovery, the entry file first. -/
  nodes : List FileNode
  files : FileSet
  symbols : SymbolBase
  /-- Whether an error was reported on the way. -/
  broken : Bool

namespace ImportGraph

def node? (g : ImportGraph) (id : FileId) : Option FileNode := g.nodes.find? (·.id == id)

/-- The file that a namespace stands for in a file. -/
def bindings (g : ImportGraph) : Bindings := fun file ns =>
  match g.node? file with
  | none => none
  | some node => (node.imports.find? (·.ns == ns)).map (·.target)

/-- The documents, in the order of discovery. -/
def documents (g : ImportGraph) : List Document := g.nodes.map (·.document)

/-- A digest of the paths and contents of all files. -/
def digest (g : ImportGraph) : Digest :=
  Sha256.digest (g.nodes.flatMap fun node =>
    match g.files.get? node.id with
    | some file => Bytes.ofString file.path ++ [0] ++ file.digest
    | none => [])

end ImportGraph

namespace Import

/-! ## Faults -/

/-- What can be wrong with an import or an imported file. -/
inductive ImportProblem where
  | fileMissing (path : String)
  | unreadable (path : String) (error : FileError)
  | cycle (chain : List String)
  | badNamespace (ns : String)
  | blankPath (ns : String)
  | ambiguous (path : String) (candidates : List String)
  | uninspectable (path : String) (error : FileError)
  | missing (path place : String)
  | missingBelow (path : String) (roots : List String)

def ImportProblem.code : ImportProblem → Code
  | .fileMissing _ => .fileNotFound
  | .unreadable .. => .unreadableFile
  | .cycle _ => .importCycle
  | .badNamespace _ => .invalidImportPath
  | .blankPath _ => .invalidImportPath
  | .ambiguous .. => .ambiguousImport
  | .uninspectable .. => .unreadableFile
  | .missing .. => .fileNotFound
  | .missingBelow .. => .fileNotFound

def ImportProblem.message : ImportProblem → String
  | .fileMissing path => "design file " ++ path ++ " not found"
  | .unreadable path e => "cannot read " ++ path ++ ": " ++ e.message
  | .cycle chain => "import cycle: " ++ " -> ".intercalate chain
  | .badNamespace ns => "invalid namespace " ++ Text.quoted ns
  | .blankPath ns => "import " ++ Text.quoted ns ++ " has an empty path"
  | .ambiguous path candidates =>
    "import " ++ Text.quoted path ++ " matches " ++ Decimal.ofNat candidates.length ++ " files"
  | .uninspectable path e => "cannot inspect " ++ path ++ ": " ++ e.message
  | .missing path place => "imported file " ++ Text.quoted path ++ " not found (" ++ place ++ ")"
  | .missingBelow path roots =>
    "imported file " ++ Text.quoted path ++ " not found" ++
      (if roots.isEmpty then "" else " in " ++ ", ".intercalate roots)

def ImportProblem.notes : ImportProblem → List Note
  | .ambiguous _ candidates => candidates.map fun c => ⟨Span.nowhere, .text ("candidate " ++ c)⟩
  | _ => []

def ImportProblem.at_ (span : Span) (p : ImportProblem) : Diagnostic :=
  .error p.code span p.message p.notes

/-! ## Imports of one file -/

/-- An import whose file is known. -/
structure Target where
  entry : Entry
  /-- The absolute path of the file. -/
  path : String

/-- Whether a namespace can stand in front of a dot in a reference. -/
def isNamespace (ns : String) : Bool :=
  !ns.isEmpty && ns.toList.all fun c => c != '.' && c != ' ' && c != '\t'

/-- The file of an import of a file in the directory `dir`, or what is wrong with
the import. -/
def target (t : FileTree) (roots : List String) (dir : String) (entry : Entry) :
    Except Diagnostic Target :=
  let ns := entry.key
  let path := entry.value
  if !isNamespace ns.text then .error ((ImportProblem.badNamespace ns.text).at_ ns.span)
  else if Text.isBlankText path.text then .error ((ImportProblem.blankPath ns.text).at_ path.span)
  else
    match lookup t dir roots path.text with
    | .found file => .ok ⟨entry, file⟩
    | .ambiguous files => .error ((ImportProblem.ambiguous path.text files).at_ path.span)
    | .failed place e => .error ((ImportProblem.uninspectable place e).at_ path.span)
    | .missing place => .error ((ImportProblem.missing path.text place).at_ path.span)
    | .missingBelow roots => .error ((ImportProblem.missingBelow path.text roots).at_ path.span)

/-- The imports that lead to a file; the others are reported. -/
def targets (t : FileTree) (roots : List String) (dir : String) : List Entry → Logged (List Target)
  | [] => pure []
  | entry :: rest =>
    match target t roots dir entry with
    | .ok found => do return found :: (← targets t roots dir rest)
    | .error d => do
      Logged.report d
      targets t roots dir rest

/-! ## The search -/

/-- What the search met: it entered a file, or left one with its imports
followed. -/
inductive Visit where
  | enter (shownPath : String)
  | leave (imports : Nat)
  deriving DecidableEq, Repr

/-- How files are read. -/
structure Reading where
  /-- What is read at a path, given what the search has met so far. -/
  content : List Visit → String → Except FileError Bytes
  /-- How the trees of contents are found. -/
  parse : TreeParser := readTree

/-- Reads files that do not change. -/
def Reading.plain (t : FileTree) (parse : TreeParser := readTree) : Reading where
  content _ path := t.read path
  parse := parse

/-- The state of the search. -/
structure Search where
  /-- The files loaded so far. -/
  files : FileSet
  /-- Their nodes, in the order of discovery. -/
  nodes : List FileNode := []
  /-- What was met, in order. -/
  visits : List Visit := []
  /-- The files that were read ahead and not yet loaded, with what had been met then. -/
  ahead : List (String × List Visit) := []
  /-- Whether a cycle was met, which ends the search. -/
  cyclic : Bool := false

namespace Search

def node? (s : Search) (path : String) : Option FileNode := s.nodes.find? (·.path == path)

/-- The path that messages show. -/
def shownPath (s : Search) (path : String) : String :=
  if (s.node? path).isSome then s.files.shownPath (Path.clean path) else path

/-- Reads new files among the imports of a file ahead, if there are two or more. -/
def readAhead (s : Search) (imports : List Target) : Search :=
  let isNew (path : String) : Bool := (s.node? path).isNone && (s.ahead.lookup path).isNone
  let paths := ((imports.map (·.path)).filter isNew).eraseDups
  if paths.length < 2 then s else { s with ahead := paths.map (·, s.visits) ++ s.ahead }

/-- What had been met when the file at a path is or was read. -/
def metAt (s : Search) (path : String) : List Visit := (s.ahead.lookup path).getD s.visits

/-- Uses up what was read ahead at a path. -/
def take (s : Search) (path : String) : Search :=
  { s with ahead := s.ahead.filter fun e => e.1 != path }

/-- Gives the file at a path its imports and leaves it. -/
def leave (s : Search) (path : String) (edges : List ImportEdge) : Search :=
  { s with
    nodes := s.nodes.map fun n => if n.path == path then { n with imports := edges } else n
    visits := s.visits ++ [.leave edges.length] }

end Search

abbrev SearchM := StateT Search Logged

def reportProblem (span : Span) (p : ImportProblem) : SearchM Unit :=
  fun s => do
    Logged.report (p.at_ span)
    return ((), s)

/-- Loads a file: gives it the next number, reads its document and enters it. -/
def load (parse : TreeParser) (path : String) (content : Bytes) : SearchM FileNode := fun s => do
  let (content, flags) := normalize content
  let (id, files) := s.files.add path content flags
  let document ← Document.decode (.of id path content flags) parse
  let node : FileNode := { id := id, path := path, document := document }
  let s := { s with files := files, nodes := s.nodes ++ [node] }
  return (node, { s with visits := s.visits ++ [.enter (s.shownPath path)] })

/-- A namespace whose file another namespace of the same file stands for already. -/
def sameTarget (ns : Located) (first : String) : Diagnostic :=
  .warning .duplicateNamespace ns.span
    ("namespace " ++ Text.quoted ns.text ++ " imports the same file as " ++ Text.quoted first)

/-- Follows imports in order.  `before` holds the imports followed so far; the
result has an edge for each one whose file could be loaded. -/
def follow (visit : String → Span → SearchM (Option FileId)) :
    (before : List Target) → List Target → SearchM (List ImportEdge)
  | _, [] => pure []
  | before, t :: rest => do
    match before.find? (·.path == t.path) with
    | some first => fun s => do
      Logged.report (sameTarget t.entry.key first.entry.key.text)
      return ((), s)
    | none => pure ()
    let child ← visit t.path t.entry.value.span
    if (← get).cyclic then return []
    let edges ← follow visit (before ++ [t]) rest
    match child with
    | some id => return ⟨t.entry.key.text, id, t.entry.key.span⟩ :: edges
    | none => return edges

/-- Visits the file at a path that is imported at `from_`.  `stack` holds the files
whose imports are being followed, outermost first, and `deeper` visits with a longer
stack.  The result is the number of the file, if it could be loaded. -/
def visitWith (read : Reading) (t : FileTree) (roots : List String)
    (deeper : (stack : List String) → (path : String) → (from_ : Span) → SearchM (Option FileId))
    (stack : List String) (path : String) (from_ : Span) : SearchM (Option FileId) := do
  let s ← get
  if stack.contains path then
    let circle := stack.dropWhile (· != path) ++ [path]
    reportProblem from_ (.cycle (circle.map s.shownPath))
    modify fun s => { s with cyclic := true }
    return none
  match s.node? path with
  | some node => return some node.id
  | none =>
    set (s.take path)
    match read.content (s.metAt path) path with
    | .error e =>
      if e.fault == .notFound then reportProblem from_ (.fileMissing path)
      else reportProblem from_ (.unreadable path e)
      return none
    | .ok content =>
      let node ← load read.parse path content
      let found ← liftM (targets t roots (Path.dir path) node.document.imports)
      modify fun s => s.readAhead found
      let edges ← follow (deeper (stack ++ [path])) [] found
      modify fun s => s.leave path edges
      return some node.id

/-- Visits files down to a depth. -/
def visit (read : Reading) (t : FileTree) (roots : List String) :
    (fuel : Nat) → (stack : List String) → (path : String) → (from_ : Span) →
      SearchM (Option FileId)
  | 0 => fun _ _ _ => pure none
  | fuel + 1 => visitWith read t roots (visit read t roots fuel)

/-- Adds the symbols of documents in order. -/
def declareAll : SymbolBase → Allocator → List Document → Logged (SymbolBase × Allocator)
  | symbols, alloc, [] => pure (symbols, alloc)
  | symbols, alloc, d :: rest => do
    let (symbols, alloc) ← symbols.add alloc d
    declareAll symbols alloc rest

/-- What the search for the files of a design gives. -/
structure Resolution where
  /-- The graph, if no cycle was met. -/
  graph : Option ImportGraph
  files : FileSet
  /-- What was met, in order. -/
  visits : List Visit
  /-- The identifiers that are left. -/
  alloc : Allocator

/-- Loads an entry file and everything it imports, with a way of reading files.  `files`
holds the files loaded before. -/
def resolveWith (read : Reading) (t : FileTree) (roots : List String) (files : FileSet)
    (alloc : Allocator) (entry : String) : Logged Resolution :=
  let search :=
    visit read t roots (t.entries.length + 1) [] (Path.absolute t.workDir entry) Span.nowhere
  let found := search { files := files }
  let s := found.value.2
  if s.cyclic then ⟨⟨none, s.files, s.visits, alloc⟩, found.log⟩
  else
    let declared := declareAll {} alloc (s.nodes.map (·.document))
    let (symbols, alloc) := declared.value
    let broken := found.hasErrors || declared.hasErrors
    ⟨⟨some ⟨s.nodes, s.files, symbols, broken⟩, s.files, s.visits, alloc⟩,
      found.log ++ declared.log⟩

/-- Loads an entry file and everything it imports from files that do not change. -/
def resolve (t : FileTree) (roots : List String) (files : FileSet) (alloc : Allocator)
    (entry : String) (parse : TreeParser := readTree) : Logged Resolution :=
  resolveWith (.plain t parse) t roots files alloc entry

end Import

end Netlist
