import Netlist.Command.Run

/-!
# What a command looks at

A command works on a tree of files as a value.  To run it on a disk one has to know
which places of the disk the tree must hold.  They are found step by step: what the
files held so far import, and where the libraries are that their manifest names.
-/

namespace Netlist.Command

/-- The places that an import path may lead to. -/
def importPlaces (tree : FileTree) (roots : List String) (dir path : String) : List String :=
  if Path.isAbsolute path then [Path.clean path]
  else if Import.isExplicitRelative path then [Path.absolute tree.workDir (Path.join dir path)]
  else Import.placesBelow tree roots path

/-- The places that the imports of a file may lead to. -/
def placesOfFile (tree : FileTree) (roots : List String) (path : String) (content : Bytes) :
    List String :=
  let (id, fs) := FileSet.add { workDir := tree.workDir } path (normalize content).1 .none
  match fs.get? id with
  | none => []
  | some file =>
    (Document.decode file).value.imports.flatMap fun e =>
      importPlaces tree roots (Path.dir path) e.value.text

/-- The places that elaborating an entry file looks at. -/
def entryPlaces (call : Call) (tree : FileTree) (entry : String) : List String :=
  let dir := Path.absolute tree.workDir (Path.dir entry)
  let manifests := (Import.selfAndAncestors dir).map fun d => Path.join d Import.manifestName
  let manifest := ((Manifest.find tree (Path.dir entry)).toOption).join
  let roots := (runOptions call manifest none).roots
  let files := tree.filesBelow []
  Path.absolute tree.workDir entry :: manifests ++ files.flatMap fun (cs, content) =>
    placesOfFile tree roots (Path.ofComponents true cs) content

/-- The places that a command line looks at or writes to, as far as a tree tells. -/
def places (env : Environment) (tree : FileTree) (words : List String) : List String :=
  match chooseVerb words with
  | .ok (some verb, rest) =>
    match readWords (helpFlag :: verb.flags ++ globalFlags) {} rest with
    | .ok (given, args) =>
      let call : Call := ⟨env, words, given, args⟩
      let named := [given.text "trace" "", given.text "output" ""].filter fun p => !isChannel p
      let designs :=
        if verb == .elaborate || verb == .diag then args.flatMap (entryPlaces call tree) else []
      (named.map (Path.absolute tree.workDir) ++ designs).flatMap Import.selfAndAncestors
    | .error _ => []
  | _ => []

end Netlist.Command
