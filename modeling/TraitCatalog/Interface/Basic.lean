import TraitCatalog.Text.Blank

/-!
# Interfaces

An interface is named by the segments of its path with `::` between them. A segment is one or more
ASCII letters, digits and underscores.
-/

namespace TraitCatalog

structure Interface where
  text : String
deriving DecidableEq

namespace Interface

/-! ### Order -/

instance : LT Interface := ⟨fun a b => a.text < b.text⟩

instance : LE Interface := ⟨fun a b => a.text ≤ b.text⟩

instance : DecidableLT Interface := fun a b => inferInstanceAs (Decidable (a.text < b.text))

instance : Std.IsLinearOrder Interface where
  le_refl a := Std.le_refl (a := a.text)
  le_trans _ _ _ := Std.le_trans (α := String)
  le_antisymm a b ab ba := by
    obtain ⟨text⟩ := a
    obtain ⟨text'⟩ := b
    exact congrArg Interface.mk (Std.le_antisymm (α := String) ab ba)
  le_total a b := Std.le_total (a := a.text) (b := b.text)

instance : Std.LawfulOrderLT Interface where
  lt_iff a b := Std.LawfulOrderLT.lt_iff a.text b.text

/-! ### Parsing -/

inductive ParseError where
  | blank
  /-- The text, trimmed, is not a path of segments. -/
  | invalid (text : String)
deriving DecidableEq

def ParseError.message : ParseError → String
  | .blank => "interface path must not be empty"
  | .invalid text => s!"invalid interface path '{text}'"

def isSegmentChar (c : Char) : Bool :=
  c.isAlphanum || c == '_'

/-- Cuts a text at each `::`, from the left. -/
def splitSegments : List Char → List (List Char)
  | [] => [[]]
  | ':' :: ':' :: rest => [] :: splitSegments rest
  | c :: rest =>
    match splitSegments rest with
    | [] => [[c]]
    | first :: others => (c :: first) :: others

def isSegment (text : List Char) : Bool :=
  !text.isEmpty && text.all isSegmentChar

/-- Reads the path of an interface; blanks at its ends are left out. -/
def parse (text : String) : Except ParseError Interface :=
  let trimmed := Text.trimChars text.toList
  if trimmed.isEmpty then .error .blank
  else if (splitSegments trimmed).all isSegment then .ok ⟨String.ofList trimmed⟩
  else .error (.invalid (String.ofList trimmed))

end Interface
end TraitCatalog
