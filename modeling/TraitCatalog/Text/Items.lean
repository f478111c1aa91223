import TraitCatalog.Text.Blank

/-!
# Lists of names in one text

A list of names is written with commas, blanks or any mixture of them between the names.
-/

namespace TraitCatalog.Text

def isSeparator (c : Char) : Bool :=
  c == ',' || isBlank c

/-- The runs of characters between separators; empty runs are no items. -/
def items (text : String) : List String :=
  ((text.toList.splitOnP isSeparator).filter (!·.isEmpty)).map String.ofList

end TraitCatalog.Text
