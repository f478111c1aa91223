import TraitCatalog.Interface.Basic
import TraitCatalog.Path

/-!
# The interface of a file

The file `core/fmt/trait.Display.js` documents the interface `core::fmt::Display`: the directories
are its first segments, and the file name without `trait.` and without its extension is the last.
-/

namespace TraitCatalog.Interface

inductive LocationError where
  | notText (path : Path)
  /-- The path starts at the root or goes up. -/
  | notRelative (path : Path)
  | emptyPath
  /-- The file name does not start with `trait.`. -/
  | notTraitPage (path : Path)
  /-- Nothing follows `trait.`. -/
  | unnamed (path : Path)
  | malformed (error : ParseError)
deriving DecidableEq

def LocationError.message : LocationError → String
  | .notText path => s!"non UTF-8 segment in {path.display}"
  | .notRelative path =>
    s!"fragment path {path.display} must be relative to the implementors directory"
  | .emptyPath => "empty fragment path"
  | .notTraitPage path =>
    s!"fragment {path.display} is not a trait page (expected a 'trait.' prefix)"
  | .unnamed path => s!"fragment {path.display} names no trait"
  | .malformed error => error.message

def names (path : Path) : List Path.Component → Except LocationError (List String)
  | [] => .ok []
  | .current :: rest => names path rest
  | .normal name :: rest =>
    match name.text? with
    | none => .error (.notText path)
    | some text => (names path rest).map (text :: ·)
  | .root :: _ | .parent :: _ => .error (.notRelative path)

def item? (fileName : String) : Option (List Char) :=
  let name := fileName.toList
  Text.dropWord? "trait.".toList (((Text.splitLast? '.' name).map Prod.fst).getD name)

/-- The interface of a file, from the components below the directory of fragments. `path` is the
one that errors show. -/
def ofComponents (path : Path) (components : List Path.Component) :
    Except LocationError Interface :=
  match names path components with
  | .error error => .error error
  | .ok segments =>
    match segments.getLast? with
    | none => .error .emptyPath
    | some fileName =>
      match item? fileName with
      | none => .error (.notTraitPage path)
      | some [] => .error (.unnamed path)
      | some item =>
        (parse ("::".intercalate (segments.dropLast ++ [String.ofList item]))).mapError .malformed

def ofPath (path : Path) : Except LocationError Interface :=
  ofComponents path path.components

end TraitCatalog.Interface
