import TraitCatalog.Json.Reader

/-!
# Numerals

A numeral is read in two steps: `Numeral.read` finds its parts, `Numeral.value?` gives the number
they stand for. Of the digits only those are kept that fit into 64 bits; further digits before the
point count as zeros, further ones behind it are dropped.
-/

namespace TraitCatalog.Json

structure Numeral where
  negative : Bool
  whole : List Char
  fraction : Option (List Char)
  /-- Whether the exponent is negative, and its digits. -/
  power : Option (Bool × List Char)

namespace Numeral

def isDigit (c : Char) : Bool := '0' ≤ c && c ≤ '9'

def digitValue (c : Char) : Nat := c.toNat - 48

/-! ### Reading -/

/-- One digit or more. `ended` is the fault of a text that ends before the first of them. -/
def digits (ended : Fault) : Reader (List Char)
  | [] => .error ended
  | c :: rest =>
    if isDigit c then
      .ok ⟨c :: rest.takeWhile isDigit, rest.dropWhile isDigit,
        Nat.lt_succ_of_le (List.dropWhile_sublist isDigit).length_le⟩
    else .error .malformed

/-- The digits before the point: a zero stands alone. -/
def wholePart (ended : Fault) : Reader (List Char) := fun text =>
  match digits ended text with
  | .ok ⟨'0' :: _ :: _, _, _⟩ => .error .malformed
  | result => result

def exponentDigits (ended : Fault) (negative : Bool) : Reader (Bool × List Char) :=
  .map (negative, ·) (digits ended)

def exponentPart (ended : Fault) : Reader (Bool × List Char)
  | '+' :: rest => (exponentDigits ended false rest).map .behind
  | '-' :: rest => (exponentDigits ended true rest).map .behind
  | text => exponentDigits ended false text

def withPower (ended : Fault) (numeral : Numeral) {text : List Char} (rest : List Char)
    (shorter : rest.length < text.length) : Except Fault (Parsed Numeral text) :=
  match rest with
  | c :: more =>
    if c = 'e' ∨ c = 'E' then
      match exponentPart ended more with
      | .error fault => .error fault
      | .ok part => .ok ⟨{ numeral with power := some part.value }, part.rest,
          Nat.lt_trans part.shorter (Nat.lt_trans (Nat.lt_succ_self _) shorter)⟩
    else .ok ⟨numeral, c :: more, shorter⟩
  | [] => .ok ⟨numeral, [], shorter⟩

def unsigned (ended : Fault) (negative : Bool) : Reader Numeral := fun text =>
  match wholePart ended text with
  | .error fault => .error fault
  | .ok whole =>
    let numeral : Numeral := ⟨negative, whole.value, none, none⟩
    match found : whole.rest with
    | '.' :: more =>
      match digits ended more with
      | .error fault => .error fault
      | .ok fraction =>
        withPower ended { numeral with fraction := some fraction.value } fraction.rest (by
          have first := whole.shorter
          have second := fraction.shorter
          rw [found, List.length_cons] at first
          omega)
    | _ => withPower ended numeral whole.rest whole.shorter

/-- Reads the parts of a numeral. `ended` is the fault of a text that ends within it. -/
def read (ended : Fault) : Reader Numeral
  | '-' :: rest => (unsigned ended true rest).map .behind
  | text => unsigned ended false text

/-! ### Value -/

/-- What 64 bits cannot hold any more: `2^64`. -/
def wordBound : Nat := 18446744073709551616

def signBound : Nat := 9223372036854775808

/-- Appends digits to a number as long as it stays below `wordBound`, and says how many were taken. -/
def absorb (value : Nat) : List Char → Nat × Nat
  | [] => (value, 0)
  | c :: rest =>
    let next := value * 10 + digitValue c
    if next < wordBound then
      let (final, taken) := absorb next rest
      (final, taken + 1)
    else (value, 0)

def powerValue : Option (Bool × List Char) → Int
  | none => 0
  | some (negative, digits) =>
    let size : Nat := digits.foldl (fun value c => value * 10 + digitValue c) 0
    if negative then -(size : Int) else size

def double? (numeral : Numeral) : Option Double := do
  let (whole, taken) := absorb 0 numeral.whole
  let (kept, behind) := absorb whole (numeral.fraction.getD [])
  let missing : Nat := numeral.whole.length - taken
  let exponent := (missing : Int) - behind + powerValue numeral.power
  return ⟨numeral.negative, ← Magnitude.ofDecimal? kept exponent⟩

/-- The integer that plain digits stand for, if it has at most 64 bits. A negative zero is no
integer. -/
def integer? (numeral : Numeral) : Option Int :=
  if numeral.fraction.isSome ∨ numeral.power.isSome then none
  else
    let size := numeral.whole.foldl (fun value c => value * 10 + digitValue c) 0
    if numeral.negative then
      if 0 < size ∧ size ≤ signBound then some (-(size : Int)) else none
    else if size < wordBound then some size
    else none

def value? (numeral : Numeral) : Option Number :=
  match numeral.integer? with
  | some value => some (.integer value)
  | none => numeral.double?.map .double

def number : Reader Number := fun text =>
  match read .truncated text with
  | .error fault => .error fault
  | .ok numeral =>
    match numeral.value.value? with
    | none => .error .malformed
    | some value => .ok ⟨value, numeral.rest, numeral.shorter⟩

/-- Passes over a number. A number that is cut off counts as malformed here. -/
def skip : Reader Unit :=
  .map (fun _ => ()) (read .malformed)

end Numeral
end TraitCatalog.Json
