import Netlist.Command.Inputs

/-!
# The program

Loads the places of the disk that a command looks at, runs the command on them, and
writes back what it changed.
-/

namespace Netlist

/-- Adds what is at a place of the disk to a tree. -/
def loadPlace (tree : FileTree) (path : String) : IO FileTree := do
  match ← (IO.FS.readBinFile path).toBaseIO with
  | .ok content => return tree.addFile path content.toList
  | .error (.permissionDenied ..) => return tree.addEntry path .sealed
  | .error (.inappropriateType _ code _) =>
    return if code == 21 then tree.addDirectory path else tree
  | .error _ => return tree

/-- Loads the places that a command line looks at. -/
def loadPlaces (env : Command.Environment) (tree : FileTree) (words : List String) :
    IO FileTree := do
  let mut tree := tree
  let mut seen : List String := []
  repeat
    let known := seen
    let new := (Command.places env tree words).filter fun p => !known.contains p
    if new.isEmpty then break
    for path in new.eraseDups do
      seen := path :: seen
      tree ← loadPlace tree path
  return tree

/-- Loads the stored results. -/
def loadCache (tree : FileTree) (dir : String) : IO FileTree := do
  let mut tree := tree
  for path in Import.selfAndAncestors dir do
    tree ← loadPlace tree path
  match ← (IO.FS.realPath dir >>= fun d => d.walkDir).toBaseIO with
  | .error _ => return tree
  | .ok found =>
    for path in found do
      tree ← loadPlace tree path.toString
    return tree

/-- Writes to the disk what makes one tree differ from another. -/
def storeChanges (before after : FileTree) : IO Unit := do
  for cs in before.regularBelow [] do
    if (after.entry? cs).isNone then IO.FS.removeFile (Path.ofComponents true cs)
  for (cs, entry) in after.entries.reverse do
    let path := Path.ofComponents true cs
    match entry, before.entry? cs with
    | .directory, none => IO.FS.createDirAll path
    | .file new, some (.file old) => if new != old then IO.FS.writeBinFile path ⟨new.toArray⟩
    | .file new, some .sealed =>
      IO.FS.removeFile path
      IO.FS.writeBinFile path ⟨new.toArray⟩
    | .file new, _ => IO.FS.writeBinFile path ⟨new.toArray⟩
    | _, _ => pure ()

/-- The directory of stored results. -/
def cacheDirectory : IO String := do
  match ← IO.getEnv "XDG_CACHE_HOME" with
  | some base => if !base.isEmpty then return Path.join base "netc"
  | none => pure ()
  return Path.join ((← IO.getEnv "HOME").getD "/") ".cache/netc"

end Netlist

open Netlist in
/-- Runs the command line. -/
def main (words : List String) : IO UInt32 := do
  let stdout ← IO.getStdout
  let stderr ← IO.getStderr
  let workDir := (← IO.currentDir).toString
  let env : Command.Environment :=
    { libraryPath := (← IO.getEnv "NETC_LIB_PATH").getD ""
      cacheDir := ← cacheDirectory
      build := { toolchain := "lean4" }
      outputIsTerminal := ← stdout.isTty
      reportIsTerminal := ← stderr.isTty }
  let tree ← loadPlaces env (FileTree.empty workDir) words
  let tree ← loadCache tree (Path.absolute workDir env.cacheDir)
  let clock : IO Int := return Int.ofNat (← IO.monoNanosNow)
  let r ← Command.run clock env tree words
  storeChanges tree r.console.tree
  stdout.write ⟨r.console.output.toArray⟩
  stderr.write ⟨r.console.report.toArray⟩
  return if r.succeeded then 0 else 1
