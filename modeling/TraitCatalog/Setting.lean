import TraitCatalog.LoadPlan
import TraitCatalog.Text.Blank
import TraitCatalog.Text.Bytes

/-!
# Settings from the environment

A variable that is unset, not UTF-8 or blank sets nothing. Otherwise its value, trimmed, has to be
one that the setting knows.
-/

namespace TraitCatalog.Setting

def value? (raw : Option Bytes) : Option String :=
  match raw.bind Bytes.text? with
  | none => none
  | some text =>
    let trimmed := Text.trim text
    if trimmed.isEmpty then none else some trimmed

inductive Error where
  | unknownOrder (name : String)
  | notACount (text : String)
deriving DecidableEq

def orderVariable : String := "IMPLEMENTORS_ORDER"

def activateAfterVariable : String := "IMPLEMENTORS_ACTIVATE_AFTER"

def Error.message : Error → String
  | .unknownOrder name => LoadOrder.unknownMessage name
  | .notACount text =>
    s!"{activateAfterVariable} must be a non-negative integer, got '{text}'"

/-- The greatest count: a count is a word of 64 bits. -/
def greatestCount : UInt64 := 18446744073709551615

def digit? (c : Char) : Option UInt64 :=
  if c.isDigit then some (c.val - 48).toUInt64 else none

/-- A count with one more digit behind it, unless that would be a longer word. -/
def append? (count digit : UInt64) : Option UInt64 :=
  if count ≤ (greatestCount - digit) / 10 then some (count * 10 + digit) else none

def digits? (text : List Char) : Option UInt64 :=
  if text.isEmpty then none
  else text.foldlM (fun count c => (digit? c).bind (append? count)) 0

/-- A count: digits, one plus sign before them if any. -/
def count? (text : String) : Option Nat :=
  (digits? (match text.toList with | '+' :: rest => rest | digits => digits)).map UInt64.toNat

def order (raw : Option Bytes) : Except Error (Option LoadOrder) :=
  match value? raw with
  | none => .ok none
  | some name =>
    match LoadOrder.ofName? name with
    | some order => .ok (some order)
    | none => .error (.unknownOrder name)

def activateAfter (raw : Option Bytes) : Except Error (Option Nat) :=
  match value? raw with
  | none => .ok none
  | some text =>
    match count? text with
    | some count => .ok (some count)
    | none => .error (.notACount text)

end TraitCatalog.Setting
