import TraitCatalog.Contribution
import TraitCatalog.Json.Quoted
import TraitCatalog.Report

/-!
# Descriptor arrays

The array on the right of an assignment holds JSON string literals with commas between them. A comma
may also follow the last one. Blanks of any kind may stand around them.
-/

namespace TraitCatalog.Script

open Json (Parsed)
open Text (skipBlanks length_skipBlanks_le position)

/-- Why a descriptor array was refused. Places are counted in bytes from behind its opening
bracket. -/
inductive BodyError where
  | unterminated
  /-- Something other than a literal stands where one is due. -/
  | unexpectedItem (found : Char) (place : Nat)
  | badLiteral (place : Nat) (fault : Json.Fault)
  /-- Something other than a comma or a bracket follows a literal. -/
  | unexpectedAfter (found : Char) (place : Nat)
deriving DecidableEq

def BodyError.report : BodyError → Report
  | .unterminated => .rule "unterminated descriptor array"
  | .unexpectedItem found place =>
    .rule s!"unexpected '{found}' in descriptor array at byte {place}"
  | .badLiteral place fault =>
    ⟨[s!"invalid descriptor literal at byte {place}"], .json fault⟩
  | .unexpectedAfter found place =>
    .rule s!"unexpected '{found}' after descriptor at byte {place}"

theorem length_behind_lt {c d : Char} {rest more : List Char} (literal : Parsed (List Char) rest)
    (found : skipBlanks literal.rest = d :: more) : more.length < (c :: rest).length := by
  have bound := length_skipBlanks_le literal.rest
  rw [found, List.length_cons] at bound
  have shorter := literal.shorter
  rw [List.length_cons]
  omega

/-- The descriptors from `text`, an ending of the array `whole` that starts where a literal or the
closing bracket is due. -/
def descriptors (whole text : List Char) : Except BodyError (Parsed (List Descriptor) text) :=
  match text with
  | [] => .error .unterminated
  | c :: rest =>
    if c = ']' then .ok (.single [] c rest)
    else if c = '"' then
      match Json.Quoted.body rest with
      | .error fault => .error (.badLiteral (position whole (c :: rest)) fault)
      | .ok literal =>
        match found : skipBlanks literal.rest with
        | [] => .error .unterminated
        | d :: more =>
          have shorter : more.length < (c :: rest).length := length_behind_lt literal found
          if d = ']' then .ok ⟨[String.ofList literal.value], more, shorter⟩
          else if d = ',' then
            match descriptors whole (skipBlanks more) with
            | .error error => .error error
            | .ok others =>
              .ok ⟨String.ofList literal.value :: others.value, others.rest,
                Nat.lt_trans (others.within (length_skipBlanks_le more)).shorter shorter⟩
          else .error (.unexpectedAfter d (position whole (d :: more)))
    else .error (.unexpectedItem c (position whole (c :: rest)))
termination_by text.length
decreasing_by exact Nat.lt_of_le_of_lt (length_skipBlanks_le more) shorter

/-- Reads a descriptor array, from behind its opening bracket to behind its closing one. -/
def body (text : List Char) : Except BodyError (Parsed (List Descriptor) text) :=
  (descriptors text (skipBlanks text)).map (Parsed.within · (length_skipBlanks_le text))

end TraitCatalog.Script
