import TraitCatalog.FileSystem.Basic
import TraitCatalog.Fragment

/-!
# Finding and loading fragments

`discover` lists the fragment files below a directory by increasing path, in whichever order the file
system enumerates them. `loadAll` loads them in that order and stops at the first that is refused.
-/

namespace TraitCatalog

namespace Fragment

inductive LoadError where
  | noDirectory (directory : Path)
  | outside (path directory : Path)
  | unsupported (path : Path)
  | unreadable (path : Path) (fault : FileFault)
  | badContent (error : ContentError)
  | badLocation (error : Interface.LocationError)

def LoadError.report : LoadError → Report
  | .noDirectory directory =>
    .rule s!"implementors directory {directory.display} does not exist"
  | .outside path directory =>
    ⟨[s!"fragment {path.display} is outside {directory.display}"], .rule "prefix not found"⟩
  | .unsupported path =>
    .rule s!"unsupported fragment {path.display} (expected .js or .json)"
  | .unreadable path fault => ⟨[s!"reading fragment {path.display}"], .file fault⟩
  | .badContent error => error.report
  | .badLocation error => .rule error.message

end Fragment

namespace FileSystem

open Fragment (Format LoadError)

def readFragment (files : FileSystem) (path : Path) : Except LoadError Fragment.Content :=
  match Format.ofPath? path with
  | none => .error (.unsupported path)
  | some format =>
    match files.readText path with
    | .error fault => .error (.unreadable path fault)
    | .ok text => (format.parse text path.display).mapError .badContent

def loadFragment (files : FileSystem) (directory path : Path) : Except LoadError Fragment :=
  match path.below? directory with
  | none => .error (.outside path directory)
  | some relative =>
    match files.readFragment path with
    | .error error => .error error
    | .ok ⟨some interface, contributions⟩ => .ok ⟨relative, interface, contributions⟩
    | .ok ⟨none, contributions⟩ =>
      match Interface.ofPath relative with
      | .error error => .error (.badLocation error)
      | .ok interface => .ok ⟨relative, interface, contributions⟩

mutual

/-- The paths of the fragment files in a tree that stands at a path, in the order of enumeration. A
directory is gone into, whatever its name is. -/
def fragmentPaths (path : Path) : FileTree → List Path
  | .file _ => if (Format.ofPath? path).isSome then [path] else []
  | .directory entries => fragmentPathsBelow path entries

def fragmentPathsBelow (directory : Path) : List (Bytes × FileTree) → List Path
  | [] => []
  | (name, tree) :: rest =>
    fragmentPaths (directory.join ⟨name⟩) tree ++ fragmentPathsBelow directory rest

end

/-- The paths of the fragment files below a directory, in increasing order. -/
def discover (files : FileSystem) (directory : Path) : Except LoadError (List Path) :=
  match files.find directory with
  | .ok (.directory entries) => .ok ((fragmentPathsBelow directory entries).mergeSort Path.le)
  | _ => .error (.noDirectory directory)

def loadAll (files : FileSystem) (directory : Path) : Except LoadError (List Fragment) := do
  (← files.discover directory).mapM (files.loadFragment directory)

end FileSystem
end TraitCatalog
