import TraitCatalog.Json.Numeral
import TraitCatalog.Json.Quoted

/-!
# Reading values

`Json.parse` reads a whole text as one value. Readers of a certain shape (`textOf`, `arrayOf`) refuse
a value of another shape: a scalar after it was read, an array or object at its bracket.
-/

namespace TraitCatalog.Json

def scalar : Reader Json := fun text =>
  match text with
  | [] => .error .truncated
  | c :: rest =>
    if c = 'n' then (Reader.keyword .null "ull".toList rest).map .behind
    else if c = 't' then
      (Reader.keyword (.bool true) "rue".toList rest).map .behind
    else if c = 'f' then
      (Reader.keyword (.bool false) "alse".toList rest).map .behind
    else if c = '"' then
      (Quoted.body rest).map fun body => (body.map (.string ∘ String.ofList)).behind
    else if c = '-' ∨ Numeral.isDigit c then
      (Numeral.number (c :: rest)).map (Parsed.map .number)
    else .error .malformed

/-- How deep arrays and objects may nest. -/
def depthLimit : Nat := 127

/-- Adds a member to an object that was read so far; a later member of the same name replaces an
earlier one. -/
def addMember (value : Reader Json) (members : List (String × Json)) (name : String) :
    Except Fault (Reader (List (String × Json))) :=
  .ok (value.map fun found => Entries.insert name found members)

/-- Reads a value, after a gap, with room for so many levels of nesting. -/
def value : (room : Nat) → Reader Json
  | 0 => .afterGap fun
    | '[' :: _ | '\x7b' :: _ => .error .malformed
    | text => scalar text
  | room + 1 => .afterGap fun
    | '[' :: rest =>
      (Reader.items (value room) rest).map fun items => (items.map .array).behind
    | '\x7b' :: rest =>
      (Reader.members Quoted.literal (addMember (value room)) [] rest).map fun members =>
        (members.map .object).behind
    | text => scalar text

def parse (text : String) : Except Fault Json :=
  Reader.run (value depthLimit) text

/-! ### Passing over values -/

def skipScalar : Reader Unit := fun text =>
  match text with
  | [] => .error .truncated
  | c :: rest =>
    if c = 'n' then (Reader.keyword () "ull".toList rest).map .behind
    else if c = 't' then (Reader.keyword () "rue".toList rest).map .behind
    else if c = 'f' then (Reader.keyword () "alse".toList rest).map .behind
    else if c = '"' then (Quoted.skipBody rest).map .behind
    else if c = '-' ∨ Numeral.isDigit c then Numeral.skip (c :: rest)
    else .error .malformed

def skipWithin : (room : Nat) → Reader Unit
  | 0 => .afterGap skipScalar
  | room + 1 => .afterGap fun
    | '[' :: rest =>
      (Reader.items (skipWithin room) rest).map fun items => (items.map fun _ => ()).behind
    | '\x7b' :: rest =>
      (Reader.members Quoted.skip (fun _ _ => .ok (skipWithin room)) () rest).map .behind
    | text => skipScalar text

/-- Passes over a value of any depth: a text nests no deeper than it is long. -/
def skip : Reader Unit := fun text =>
  skipWithin text.length text

/-! ### Values of a certain shape -/

/-- The fault of a value that has another shape than the one that was asked for. -/
def mismatch (text : List Char) : Fault :=
  match text with
  | '[' :: _ | '\x7b' :: _ => .mismatched
  | _ =>
    match scalar text with
    | .error fault => fault
    | .ok _ => .mismatched

def textOf : Reader String := .afterGap fun
  | '"' :: rest =>
    (Quoted.body rest).map fun body => (body.map String.ofList).behind
  | text => .error (mismatch text)

def optionalTextOf : Reader (Option String) := .afterGap fun
  | 'n' :: rest => (Reader.keyword none "ull".toList rest).map .behind
  | text => textOf.map some text

def arrayOf {α : Type} (item : Reader α) : Reader (List α) := .afterGap fun
  | '[' :: rest => (Reader.items item rest).map .behind
  | text => .error (mismatch text)

/-- Reads an object into a table; a later member of the same name replaces an earlier one. -/
def tableOf {α : Type} (item : Reader α) : Reader (Table String α) := .afterGap fun
  | '\x7b' :: rest =>
    (Reader.members Quoted.literal
      (fun table name => .ok (item.map fun found => table.insert name found))
      Table.empty rest).map .behind
  | text => .error (mismatch text)

end TraitCatalog.Json
