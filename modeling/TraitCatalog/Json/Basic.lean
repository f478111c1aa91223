import TraitCatalog.Json.Double
import TraitCatalog.Table

/-!
# JSON values

An object keeps its members in strictly increasing order of their names, so a value has one
representation. `Fault` is why a text is not the JSON that was asked for.
-/

namespace TraitCatalog

namespace Json

/-- Integers of at most 64 bits stay exact; every other number is a double. -/
inductive Number where
  | integer (value : Int)
  | double (value : Double)
deriving DecidableEq

inductive Fault where
  /-- The text is not JSON, or lies past a limit of the reader. -/
  | malformed
  /-- The text ends where more has to follow. -/
  | truncated
  /-- The text is JSON of another shape than the one that was asked for. -/
  | mismatched
deriving DecidableEq

end Json

inductive Json where
  | null
  | bool (value : Bool)
  | number (value : Json.Number)
  | string (text : String)
  | array (items : List Json)
  | object (members : List (String × Json))

namespace Json

def member? (name : String) : Json → Option Json
  | .object members => Entries.get? name members
  | _ => none

def descend? (names : List String) (value : Json) : Option Json :=
  names.foldlM (fun value name => value.member? name) value

def text? : Json → Option String
  | .string text => some text
  | _ => none

def ofTexts (texts : List String) : Json :=
  .array (texts.map .string)

def ofTable (table : Table String Json) : Json :=
  .object table.entries

end Json
end TraitCatalog
