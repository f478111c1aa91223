import TraitCatalog.CommandLine.Basic
import TraitCatalog.CommandLine.Places

/-!
# The program

The program copies the places that its command line looks at from the disk, executes the command
line on the copy and shows the outcome.
-/

namespace TraitCatalog.Disk

def pathTo (names : List Bytes) : String :=
  (Path.ofNames names).display

/-- A copy of the file at a place. Only fragments have content worth copying. -/
def copyFile (names : List Bytes) : IO (Option FileTree) := do
  if (Fragment.Format.ofPath? (.ofNames names)).isNone then return none
  match ← (IO.FS.readBinFile (pathTo names)).toBaseIO with
  | .ok content => return some (.file content.toList)
  | .error _ => return none

/-- A copy of what the disk holds at a place. Links to directories are not followed. -/
partial def copy (names : List Bytes) : IO (Option FileTree) := do
  let here := (← IO.currentDir) / pathTo names
  match ← here.readDir.toBaseIO with
  | .error _ => copyFile names
  | .ok entries =>
    let below ← entries.toList.filterMapM fun entry => do
      let name := Bytes.ofText entry.fileName
      let found ←
        match (← entry.path.symlinkMetadata).type with
        | .dir => copy (names ++ [name])
        | _ => copyFile (names ++ [name])
      return found.map (name, ·)
    return some (.directory below)

/-- Adds a place that a path passes, if it is not there yet: a directory without its entries, a file
without its content. -/
def addPassed (tree : FileTree) (names : List Bytes) : IO FileTree := do
  let here := (← IO.currentDir) / pathTo names
  match ← here.metadata.toBaseIO with
  | .error _ => return tree
  | .ok metadata =>
    match metadata.type with
    | .dir => return tree.makeDirectory names
    | _ => return FileTree.update (fun old => old.getD (.file [])) names (some tree)

def addPath (working : List Bytes) (tree : FileTree) (path : Path) : IO FileTree := do
  let stations := CommandLine.passed working path.components
  let tree ← stations.dropLast.foldlM addPassed tree
  let last := stations.getLast?.getD working
  match ← copy last with
  | none => return tree
  | some found => return FileTree.update (fun _ => found) last (some tree)

def workingNames : IO (List Bytes) := do
  let path := Path.ofText (← IO.currentDir).toString
  return path.components.filterMap fun component =>
    match component with
    | .normal name => some name
    | _ => none

def valueOf (name : String) : IO (Option Bytes) := do
  return (← IO.getEnv name).map Bytes.ofText

def environment (arguments : List Bytes) : IO CommandLine.Environment := do
  let working ← workingNames
  let rootVariable ← valueOf DocRoot.Source.environment.name
  let places := CommandLine.places working rootVariable arguments
  let tree ← places.foldlM (addPath working) (.directory [])
  return {
    files := ⟨tree, working⟩
    rootVariable
    orderVariable := ← valueOf Setting.orderVariable
    activateAfterVariable := ← valueOf Setting.activateAfterVariable
    logVariable := ← valueOf CommandLine.logVariableName }

end TraitCatalog.Disk

open TraitCatalog in
/-- Executes the command line. The journal goes before the errors. -/
def main (arguments : List String) : IO UInt32 := do
  let arguments := arguments.map Bytes.ofText
  let outcome := CommandLine.execute (← Disk.environment arguments) arguments
  IO.print outcome.output
  for entry in outcome.journal do
    IO.eprintln entry.line
  IO.eprint outcome.errors
  return .ofNat outcome.code
