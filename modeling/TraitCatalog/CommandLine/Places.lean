import TraitCatalog.CommandLine.Arguments
import TraitCatalog.DocRoot

/-!
# Places

A command line looks at few places of a file system: the files that it checks, or the directories
of fragments that can belong to its documentation root. `places` lists them, so that a run needs no
more of the file system than these.
-/

namespace TraitCatalog.CommandLine

/-- The paths that a command line can look at, each with all that is below it. -/
def places (working : List Bytes) (rootVariable : Option Bytes) (arguments : List Bytes) :
    List Path :=
  match parse arguments with
  | none => []
  | some ⟨_, .check files⟩ => files
  | some ⟨settings, _⟩ =>
    match DocRoot.named? settings.root rootVariable with
    | some (path, _) => [path.join DocRoot.fragmentsName]
    | none => (DocRoot.upward working).map fun names =>
        (Path.ofNames names).join DocRoot.fragmentsName

/-- The places that a path passes on its way from a start, the end included. -/
def passed (start : List Bytes) : List Path.Component → List (List Bytes)
  | [] => [start]
  | .root :: rest => passed [] rest
  | .current :: rest => passed start rest
  | .parent :: rest => start :: passed start.dropLast rest
  | .normal name :: rest => start :: passed (start ++ [name]) rest

end TraitCatalog.CommandLine
