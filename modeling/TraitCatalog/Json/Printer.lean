import TraitCatalog.Json.Quoted

/-!
# Writing values

`Json.compact` writes a value without gaps, `Json.pretty` with one item or member to a line.
-/

namespace TraitCatalog.Json

def Number.chars : Number → List Char
  | .integer value => (toString value).toList
  | .double value => value.chars

def joined (separator : List Char) (parts : List (List Char)) : List Char :=
  separator.intercalate parts

mutual

def compactChars : Json → List Char
  | .null => "null".toList
  | .bool true => "true".toList
  | .bool false => "false".toList
  | .number value => value.chars
  | .string text => Quoted.write text
  | .array items => '[' :: joined [','] (compactItems items) ++ [']']
  | .object members => '\x7b' :: joined [','] (compactMembers members) ++ ['\x7d']

def compactItems : List Json → List (List Char)
  | [] => []
  | item :: rest => compactChars item :: compactItems rest

def compactMembers : List (String × Json) → List (List Char)
  | [] => []
  | (name, value) :: rest => (Quoted.write name ++ ':' :: compactChars value) :: compactMembers rest

end

def compact (value : Json) : String :=
  String.ofList value.compactChars

def lineStart (level : Nat) : List Char :=
  '\n' :: List.replicate (2 * level) ' '

/-- Brackets around parts that stand on lines of their own; without parts the brackets meet. -/
def block (level : Nat) (opening closing : Char) (parts : List (List Char)) : List Char :=
  match parts with
  | [] => [opening, closing]
  | parts =>
    opening :: lineStart (level + 1) ++ joined (',' :: lineStart (level + 1)) parts ++
      lineStart level ++ [closing]

mutual

/-- The value with one part to a line, inside `level` levels. -/
def prettyChars (level : Nat) : Json → List Char
  | .array items => block level '[' ']' (prettyItems (level + 1) items)
  | .object members => block level '\x7b' '\x7d' (prettyMembers (level + 1) members)
  | .null => "null".toList
  | .bool true => "true".toList
  | .bool false => "false".toList
  | .number value => value.chars
  | .string text => Quoted.write text

def prettyItems (level : Nat) : List Json → List (List Char)
  | [] => []
  | item :: rest => prettyChars level item :: prettyItems level rest

def prettyMembers (level : Nat) : List (String × Json) → List (List Char)
  | [] => []
  | (name, value) :: rest =>
    (Quoted.write name ++ ':' :: ' ' :: prettyChars level value) :: prettyMembers level rest

end

def pretty (value : Json) : String :=
  String.ofList (value.prettyChars 0)

end TraitCatalog.Json
