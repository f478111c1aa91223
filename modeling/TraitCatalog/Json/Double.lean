/-!
# Binary64 numbers

A finite double is a sign and a magnitude `mantissa · 2^exponent`. Every operation is exact
arithmetic on fractions followed by one rounding to the nearest magnitude, ties to an even mantissa.
-/

namespace TraitCatalog.Json

/-- The number `mantissa · 2^exponent`. -/
structure Magnitude where
  mantissa : Nat
  exponent : Int
deriving DecidableEq

namespace Magnitude

def leastExponent : Int := -1074

def greatestExponent : Int := 971

def zero : Magnitude := ⟨0, leastExponent⟩

/-- The least mantissa of full length: `2^52`. -/
def leastNormal : Nat := 4503599627370496

def num (value : Magnitude) : Nat :=
  value.mantissa * Nat.pow 2 value.exponent.toNat

def den (value : Magnitude) : Nat :=
  Nat.pow 2 (-value.exponent).toNat

/-- The whole number nearest to `num / den`, the even one of two. -/
def roundDiv (num den : Nat) : Nat :=
  let quotient := num / den
  let twice := 2 * (num % den)
  if twice < den then quotient
  else if den < twice then quotient + 1
  else quotient + quotient % 2

/-- Whether `base ^ exponent ≤ num / den`. -/
def powerLe (base : Nat) (exponent : Int) (num den : Nat) : Bool :=
  den * Nat.pow base exponent.toNat ≤ num * Nat.pow base (-exponent).toNat

/-- The magnitude nearest to `num / den`, none when that is past the greatest double. -/
def nearest? (num den : Nat) : Option Magnitude :=
  if num = 0 then some zero else
  let scale : Int := (num.log2 : Int) - (den.log2 : Int)
  let scale := if powerLe 2 scale num den then scale else scale - 1
  let exponent := max leastExponent (scale - 52)
  let mantissa := roundDiv (num * Nat.pow 2 (-exponent).toNat) (den * Nat.pow 2 exponent.toNat)
  let value : Magnitude :=
    if mantissa = 2 * leastNormal then ⟨leastNormal, exponent + 1⟩ else ⟨mantissa, exponent⟩
  if greatestExponent < value.exponent then none else some value

def tenPower (k : Nat) : Magnitude :=
  (nearest? (Nat.pow 10 k) 1).getD zero

/-- The greatest power of ten that is within the doubles. -/
def greatestTen : Nat := 308

def times? (a b : Magnitude) : Option Magnitude :=
  nearest? (a.num * b.num) (a.den * b.den)

def dividedBy (a b : Magnitude) : Magnitude :=
  (nearest? (a.num * b.den) (a.den * b.num)).getD zero

/-- Divides by `10^k`. A divisor past the greatest power of ten is taken in portions, each with a
rounding of its own, until nothing is left of the value. -/
def shrink (value : Magnitude) (k : Nat) : Magnitude :=
  if k ≤ greatestTen then value.dividedBy (tenPower k)
  else if value.mantissa = 0 then value
  else (value.dividedBy (tenPower greatestTen)).shrink (k - greatestTen)
termination_by k
decreasing_by simp only [greatestTen] at *; omega

/-- The double read from `digits · 10^exponent`: the digits and the power of ten are each rounded,
then their product or quotient. -/
def ofDecimal? (digits : Nat) (exponent : Int) : Option Magnitude := do
  let value ← nearest? digits 1
  if exponent < 0 then some (value.shrink (-exponent).toNat)
  else if value.mantissa = 0 then some value
  else if greatestTen < exponent.toNat then none
  else value.times? (tenPower exponent.toNat)

/-! ### Fewest digits -/

def leadingTen (num den : Nat) : Int :=
  if den ≤ num then ((Nat.toDigits 10 (num / den)).length : Int) - 1
  else -(((List.range 400).find? fun k : Nat => powerLe 10 (-(k : Int)) num den).getD 0 : Nat)

structure Decimal where
  digits : Nat
  exponent : Int

/-- Of the two multiples of `10^exponent` around the value the one that reads back as the value,
the nearer one if both do, and the even one if both are equally near. -/
def onGrid? (value : Magnitude) (exponent : Int) : Option Decimal :=
  let num := value.num * Nat.pow 10 (-exponent).toNat
  let den := value.den * Nat.pow 10 exponent.toNat
  let below := num / den
  let readsBack (digits : Nat) : Bool :=
    nearest? (digits * Nat.pow 10 exponent.toNat) (Nat.pow 10 (-exponent).toNat) == some value
  let nearer := roundDiv num den
  let farther := if nearer = below then below + 1 else below
  if readsBack nearer then some ⟨nearer, exponent⟩
  else if readsBack farther then some ⟨farther, exponent⟩
  else none

/-- The decimal with the fewest digits that reads back as the value. Seventeen digits always do. -/
def shortest (value : Magnitude) : Decimal :=
  let leading := leadingTen value.num value.den
  ((List.range 17).findSome? fun more : Nat => value.onGrid? (leading - more)).getD ⟨0, 0⟩

end Magnitude

structure Double where
  negative : Bool
  magnitude : Magnitude
deriving DecidableEq

namespace Double

/-- The decimal digits of a number, without zeros at the end, and the power of ten of the last one
that is kept. -/
def significant (decimal : Magnitude.Decimal) : List Char × Int :=
  let digits := Nat.toDigits 10 decimal.digits
  let kept := (digits.reverse.dropWhile (· == '0')).reverse
  (kept, decimal.exponent + (digits.length - kept.length : Nat))

def exponentChars (exponent : Int) : List Char :=
  'e' :: (if exponent < 0 then '-' else '+') :: Nat.toDigits 10 exponent.natAbs

/-- Positional with at least one digit after the point from `10^-5` up to `10^16`, with an exponent
outside. -/
def layout (digits : List Char) (exponent : Int) : List Char :=
  let point := digits.length + exponent
  if 0 ≤ exponent ∧ point ≤ 16 then
    digits ++ List.replicate exponent.toNat '0' ++ ['.', '0']
  else if 0 < point ∧ point ≤ 16 then
    digits.take point.toNat ++ '.' :: digits.drop point.toNat
  else if -5 < point ∧ point ≤ 0 then
    '0' :: '.' :: List.replicate (-point).toNat '0' ++ digits
  else
    match digits with
    | [digit] => digit :: exponentChars (point - 1)
    | first :: others => first :: '.' :: others ++ exponentChars (point - 1)
    | [] => []

/-- The numeral of a double: the fewest digits that read back. -/
def chars (value : Double) : List Char :=
  let unsigned :=
    if value.magnitude.mantissa = 0 then ['0', '.', '0']
    else
      let (digits, exponent) := significant value.magnitude.shortest
      layout digits exponent
  if value.negative then '-' :: unsigned else unsigned

end Double
end TraitCatalog.Json
