import TraitCatalog.Contribution
import TraitCatalog.Interface.Basic
import TraitCatalog.Json.Printer

/-!
# Fragment documents

The JSON form of a fragment: the version of its format, the interface if it declares one, and the
descriptors of each library.
-/

namespace TraitCatalog

structure Document where
  version : String
  declared : Option String
  implementors : Table Library (List Descriptor)
deriving DecidableEq

namespace Document

def currentVersion : String := "implementors_fragment_v1"

def interface (document : Document) : Except Interface.ParseError (Option Interface) :=
  match document.declared with
  | none => .ok none
  | some text => (Interface.parse text).map some

/-- One contribution for each library, in increasing order of the libraries. -/
def contributions (document : Document) : List Contribution :=
  document.implementors.entries.map fun entry => ⟨entry.1, entry.2⟩

/-! ### Values -/

def implementorsJson (document : Document) : Json :=
  .ofTable (document.implementors.mapValues .ofTexts)

def toJson (document : Document) : Json :=
  .object (("implementors", document.implementorsJson) ::
    (document.declared.toList.map fun text => ("interface", .string text)) ++
    [("schema_version", .string document.version)])

/-- The document as text: version, interface, libraries. -/
def render (document : Document) : String :=
  Json.compact (.object (("schema_version", .string document.version) ::
    (document.declared.toList.map fun text => ("interface", .string text)) ++
    [("implementors", document.implementorsJson)]))

def texts? : Json → Option (List String)
  | .array items => items.mapM Json.text?
  | _ => none

def implementors? : Json → Option (Table Library (List Descriptor))
  | .object members =>
    members.foldlM (fun table entry => (texts? entry.2).map (table.insert entry.1)) .empty
  | _ => none

/-- The text of a declared interface; null declares none. -/
def declared? : Option Json → Option (Option String)
  | none | some .null => some none
  | some (.string text) => some (some text)
  | some _ => none

def ofParts? (version : Json) (declared : Option Json) (implementors : Json) : Option Document := do
  return ⟨← version.text?, ← declared? declared, ← implementors? implementors⟩

/-- The document that a value holds, as an object or as the array of its three parts. -/
def ofJson? (value : Json) : Option Document :=
  match value with
  | .array [version, declared, implementors] => ofParts? version (some declared) implementors
  | value => do
    ofParts? (← value.member? "schema_version") (value.member? "interface")
      (← value.member? "implementors")

end Document
end TraitCatalog
