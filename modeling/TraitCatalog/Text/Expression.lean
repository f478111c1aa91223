/-!
# Regular expressions

An expression is matched against a whole text, one character after the other. `rests` are the
expressions that the text behind a character may match, so that matching needs no search.
-/

namespace TraitCatalog.Text

inductive Expression where
  | text (chars : List Char)
  | oneOf (ranges : List (Char × Char))
  | next (first second : Expression)
  | star (part : Expression)
  | plus (part : Expression)
deriving DecidableEq

namespace Expression

/-! ### Matching -/

/-- Whether the empty text matches. -/
def nullable : Expression → Bool
  | .text chars => chars.isEmpty
  | .oneOf _ => false
  | .next first second => first.nullable && second.nullable
  | .star _ => true
  | .plus part => part.nullable

def inRanges (c : Char) (ranges : List (Char × Char)) : Bool :=
  ranges.any fun range => range.1 ≤ c && c ≤ range.2

def rests (c : Char) : Expression → List Expression
  | .text [] => []
  | .text (first :: others) => if first = c then [.text others] else []
  | .oneOf ranges => if inRanges c ranges then [.text []] else []
  | .next first second =>
    (first.rests c).map (.next · second) ++ if first.nullable then second.rests c else []
  | .star part => (part.rests c).map (.next · (.star part))
  | .plus part => (part.rests c).map (.next · (.star part))

def matchesAny (expressions : List Expression) (text : List Char) : Bool :=
  (text.foldl (fun left c => left.flatMap (rests c)) expressions).any nullable

def matchesAll (expression : Expression) (text : List Char) : Bool :=
  matchesAny [expression] text

/-! ### Spelling -/

/-- A character with a backslash before it if it is a sign otherwise. -/
def spellChar (c : Char) : List Char :=
  if ".+*?()|[]^$-\\\x7b\x7d".toList.contains c then ['\\', c] else [c]

def spellRange (range : Char × Char) : List Char :=
  if range.1 = range.2 then spellChar range.1 else spellChar range.1 ++ '-' :: spellChar range.2

/-- Whether a sign of repetition needs parentheses before it. -/
def isLong : Expression → Bool
  | .text chars => chars.length != 1
  | .next _ _ => true
  | _ => false

def grouped (expression : Expression) (spelled : List Char) : List Char :=
  if expression.isLong then '(' :: spelled ++ [')'] else spelled

def spell : Expression → List Char
  | .text chars => chars.flatMap spellChar
  | .oneOf ranges => '[' :: ranges.flatMap spellRange ++ [']']
  | .next first second => first.spell ++ second.spell
  | .star part => part.grouped part.spell ++ ['*']
  | .plus part => part.grouped part.spell ++ ['+']

/-- The expression as it is written, with anchors at both ends. -/
def source (expression : Expression) : String :=
  String.ofList ('^' :: expression.spell ++ ['$'])

end Expression
end TraitCatalog.Text
