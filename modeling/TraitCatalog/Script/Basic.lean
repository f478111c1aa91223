import TraitCatalog.Script.Body
import TraitCatalog.Script.Header

/-!
# Fragment scripts

A generated script assigns to each library an array of descriptors. Only the assignments matter;
whatever stands around them is passed over.
-/

namespace TraitCatalog.Script

open Text (position)

inductive Error where
  /-- The assignment at a place, counted in bytes, names no library. -/
  | emptyLibrary (place : Nat)
  | badBody (library : Library) (error : BodyError)
  | noAssignment
deriving DecidableEq

def Error.report : Error → Report
  | .emptyLibrary place =>
    .rule s!"implementors assignment at byte {place} has an empty library key"
  | .badBody library error => error.report.within s!"parsing implementors of '{library}'"
  | .noAssignment => .rule "no implementors assignment found"

/-- The assignments in `text`, an ending of the script `source`. -/
def assignments (source text : List Char) : Except Error (List Contribution) :=
  match find? text with
  | none => .ok []
  | some header =>
    if header.library.isEmpty then .error (.emptyLibrary (position source header.start))
    else
      match body header.body with
      | .error error => .error (.badBody (String.ofList header.library) error)
      | .ok array =>
        have : array.rest.length < text.length :=
          Nat.lt_trans array.shorter header.shorter
        match assignments source array.rest with
        | .error error => .error error
        | .ok others => .ok (⟨String.ofList header.library, array.value⟩ :: others)
termination_by text.length

def parse (source : String) : Except Error (List Contribution) :=
  match assignments source.toList source.toList with
  | .ok [] => .error .noAssignment
  | result => result

end TraitCatalog.Script
