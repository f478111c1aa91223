import TraitCatalog.Document.Basic
import TraitCatalog.Interface.Location
import TraitCatalog.Json.Value
import TraitCatalog.Schema
import TraitCatalog.Script.Basic

/-!
# Fragments

A fragment is a file that contributes to one interface, as a script or as a document. A document may
declare its interface; otherwise the place of the file tells it.
-/

namespace TraitCatalog

structure Fragment where
  /-- The path of the file below the directory of fragments. -/
  path : Path
  interface : Interface
  contributions : List Contribution
deriving DecidableEq

namespace Fragment

inductive Format where
  | script
  | json
deriving DecidableEq

/-- The extension of a file tells its form. -/
def Format.ofPath? (path : Path) : Option Format :=
  match path.extension? with
  | none => none
  | some extension =>
    if extension = Bytes.ofText "js" then some .script
    else if extension = Bytes.ofText "json" then some .json
    else none

structure Content where
  declared : Option Interface
  contributions : List Contribution
deriving DecidableEq

/-- Why the text of a fragment was refused. `origin` says where the text came from. -/
inductive ContentError where
  | badScript (origin : String) (error : Script.Error)
  | badJson (origin : String) (fault : Json.Fault)
  | invalid (origin : String) (violations : List Schema.Violation)
  | undecodable (origin : String)
  | badInterface (error : Interface.ParseError)

def ContentError.report : ContentError → Report
  | .badScript origin error => error.report.within s!"parsing fragment script {origin}"
  | .badJson origin fault => ⟨[s!"parsing fragment JSON {origin}"], .json fault⟩
  | .invalid origin violations =>
    let lines := "\n".intercalate (violations.map Schema.Violation.message)
    .rule s!"{origin} failed fragment schema validation:\n{lines}"
  | .undecodable origin => ⟨[s!"decoding fragment {origin}"], .json .mismatched⟩
  | .badInterface error => .rule error.message

def Content.ofDocument (document : Document) : Except ContentError Content :=
  match document.interface with
  | .error error => .error (.badInterface error)
  | .ok declared => .ok ⟨declared, document.contributions⟩

def Content.ofJsonText (text origin : String) : Except ContentError Content :=
  match Json.parse text with
  | .error fault => .error (.badJson origin fault)
  | .ok value =>
    match Schema.violations value with
    | [] =>
      match Document.ofJson? value with
      | none => .error (.undecodable origin)
      | some document => Content.ofDocument document
    | violations => .error (.invalid origin violations)

def Format.parse (format : Format) (text origin : String) : Except ContentError Content :=
  match format with
  | .script =>
    match Script.parse text with
    | .error error => .error (.badScript origin error)
    | .ok contributions => .ok ⟨none, contributions⟩
  | .json => Content.ofJsonText text origin

end Fragment
end TraitCatalog
