import TraitCatalog.Document.Basic
import TraitCatalog.Json.Value

/-!
# Reading documents from text

`Document.read` takes a document straight from its text, in one pass: the first problem of the text
decides. Members with other names are passed over. A document may also be written as an array of its
three parts.
-/

namespace TraitCatalog.Document

open Json (Fault Reader)

structure Draft where
  version : Option String := none
  declared : Option (Option String) := none
  implementors : Option (Table Library (List Descriptor)) := none

def Draft.finish : Draft → Except Fault Document
  | ⟨some version, declared, some implementors⟩ =>
    .ok ⟨version, declared.getD none, implementors⟩
  | _ => .error .mismatched

def implementorsReader : Reader (Table Library (List Descriptor)) :=
  Json.tableOf (Json.arrayOf Json.textOf)

/-- How the member with a name is read. A part of the document is not given twice. -/
def field (draft : Draft) (name : String) : Except Fault (Reader Draft) :=
  if name = "schema_version" then
    if draft.version.isSome then .error .mismatched
    else .ok (Json.textOf.map fun text => { draft with version := some text })
  else if name = "interface" then
    if draft.declared.isSome then .error .mismatched
    else .ok (Json.optionalTextOf.map fun text => { draft with declared := some text })
  else if name = "implementors" then
    if draft.implementors.isSome then .error .mismatched
    else .ok (implementorsReader.map fun table => { draft with implementors := some table })
  else .ok (Json.skip.map fun _ => draft)

/-- Reads the members of a document, from behind the opening brace. -/
def ofMembers : Reader Document := fun text =>
  match Reader.members Json.Quoted.literal field {} text with
  | .error fault => .error fault
  | .ok draft =>
    match draft.value.finish with
    | .error fault => .error fault
    | .ok document => .ok ⟨document, draft.rest, draft.shorter⟩

def nextItem : Reader Unit := fun text =>
  match found : Json.skipGap text with
  | [] => .error .truncated
  | ',' :: rest => .ok ⟨(), rest, Json.length_lt_of_skipGap_eq found⟩
  | ']' :: _ => .error .mismatched
  | _ => .error .malformed

def firstItem : Reader String := fun text =>
  match Json.skipGap text with
  | ']' :: _ => .error .mismatched
  | _ => Json.textOf text

/-- Reads the three parts of a document, from behind the opening bracket. -/
def ofItems : Reader Document := fun text => do
  let version ← firstItem text
  let second ← nextItem version.rest
  let declared ← Json.optionalTextOf second.rest
  let third ← nextItem declared.rest
  let implementors ← implementorsReader third.rest
  let closing ← Reader.symbol ']' implementors.rest
  return ⟨⟨version.value, declared.value, implementors.value⟩, closing.rest, by
    have := version.shorter
    have := second.shorter
    have := declared.shorter
    have := third.shorter
    have := implementors.shorter
    have := closing.shorter
    omega⟩

def reader : Reader Document := .afterGap fun
  | [] => .error .truncated
  | '\x7b' :: rest => (ofMembers rest).map .behind
  | '[' :: rest => (ofItems rest).map .behind
  | text => .error (Json.mismatch text)

def read (text : String) : Except Fault Document :=
  reader.run text

end TraitCatalog.Document
