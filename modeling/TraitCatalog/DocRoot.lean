import TraitCatalog.FileSystem.Basic
import TraitCatalog.Report

/-!
# The documentation root

A documentation root is a directory with a directory `implementors` in it. One that is named has to
be a root; otherwise the nearest root around the working directory is taken.
-/

namespace TraitCatalog.DocRoot

def fragmentsName : Path := .ofText "implementors"

inductive Source where
  | option
  | environment
deriving DecidableEq

def Source.name : Source → String
  | .option => "--root"
  | .environment => "IMPLEMENTORS_ROOT"

inductive Error where
  | notARoot (path : Path) (source : Source)
  | noneAround (working : Path)
  | unresolved (path : Path) (fault : FileFault)
deriving DecidableEq

def Error.report : Error → Report
  | .notARoot path source =>
    .rule s!"{path.display} (from {source.name}) does not contain an 'implementors' directory"
  | .noneAround working =>
    .rule s!"no 'implementors' directory in {working.display} or its ancestors. Pass --root or set IMPLEMENTORS_ROOT."
  | .unresolved path fault => ⟨[s!"resolving {path.display}"], .file fault⟩

def isRoot (files : FileSystem) (path : Path) : Bool :=
  files.isDirectory (path.join fragmentsName)

/-- The places from the given one up to the root of the file system. -/
def upward (names : List Bytes) : List (List Bytes) :=
  ((List.range (names.length + 1)).map names.take).reverse

def enclosing? (files : FileSystem) : Option Path :=
  ((upward files.working).map Path.ofNames).find? (isRoot files)

/-- The path that was named for the root, by the option or else by the variable, if that is not
empty. -/
def named? (option : Option Path) (setting : Option Bytes) : Option (Path × Source) :=
  match option, setting with
  | some path, _ => some (path, .option)
  | none, some (byte :: rest) => some (⟨byte :: rest⟩, .environment)
  | none, _ => none

/-- The documentation root before its path is made canonical. -/
def choose (files : FileSystem) (option : Option Path) (setting : Option Bytes) :
    Except Error Path :=
  match named? option setting with
  | some (path, source) =>
    if isRoot files path then .ok path else .error (.notARoot path source)
  | none =>
    match enclosing? files with
    | some path => .ok path
    | none => .error (.noneAround files.workingPath)

def find (files : FileSystem) (option : Option Path) (setting : Option Bytes) :
    Except Error Path :=
  match choose files option setting with
  | .error error => .error error
  | .ok path => (files.canonical path).mapError (.unresolved path)

end TraitCatalog.DocRoot
