import TraitCatalog.Json.Reader
import TraitCatalog.Text.Blank

/-!
# String literals

`Quoted.literal` reads a JSON string literal and `Quoted.write` writes one. `Quoted.skip` passes over
a literal whose text nobody asks for: there an escape may name half of a surrogate pair.
-/

namespace TraitCatalog.Json.Quoted

open Text

/-! ### Escapes -/

def hexValue? (c : Char) : Option Nat :=
  if '0' ≤ c ∧ c ≤ '9' then some (c.toNat - 48)
  else if 'a' ≤ c ∧ c ≤ 'f' then some (c.toNat - 87)
  else if 'A' ≤ c ∧ c ≤ 'F' then some (c.toNat - 55)
  else none

def quad? (a b c d : Char) : Option Nat := do
  return (((← hexValue? a) * 16 + (← hexValue? b)) * 16 + (← hexValue? c)) * 16 + (← hexValue? d)

/-- Reads four hexadecimal digits. With less than four bytes left the text counts as ended,
whatever they are. -/
def hexQuad : Reader Nat
  | a :: b :: c :: d :: rest =>
    match quad? a b c d with
    | some value => .ok (Parsed.single value d rest).behind.behind.behind
    | none => .error .malformed
  | text => .error (if byteLength text < 4 then .truncated else .malformed)

def isLeading (unit : Nat) : Bool := 0xD800 ≤ unit && unit ≤ 0xDBFF

def isTrailing (unit : Nat) : Bool := 0xDC00 ≤ unit && unit ≤ 0xDFFF

/-- The character of a surrogate pair. -/
def pairChar (leading trailing : Nat) : Char :=
  Char.ofNat (0x10000 + (leading - 0xD800) * 0x400 + (trailing - 0xDC00))

/-- Reads the second half of a surrogate pair, which is an escape of its own. -/
def trailingHalf (leading : Nat) : Reader Char
  | [] => .error .truncated
  | '\\' :: [] => .error .truncated
  | '\\' :: 'u' :: rest =>
    match hexQuad rest with
    | .error fault => .error fault
    | .ok unit =>
      if isTrailing unit.value then
        .ok (unit.map (pairChar leading)).behind.behind
      else .error .malformed
  | _ => .error .malformed

/-- Reads the character named by `\u`, from behind the letter. -/
def unicode : Reader Char := fun text =>
  match hexQuad text with
  | .error fault => .error fault
  | .ok unit =>
    if isTrailing unit.value then .error .malformed
    else if isLeading unit.value then
      (trailingHalf unit.value unit.rest).map (Parsed.within · (Nat.le_of_lt unit.shorter))
    else .ok ⟨Char.ofNat unit.value, unit.rest, unit.shorter⟩

def shortEscape? : Char → Option Char
  | '"' => some '"'
  | '\\' => some '\\'
  | '/' => some '/'
  | 'b' => some '\x08'
  | 'f' => some '\x0c'
  | 'n' => some '\n'
  | 'r' => some '\r'
  | 't' => some '\t'
  | _ => none

def escape : Reader Char
  | [] => .error .truncated
  | letter :: rest =>
    match shortEscape? letter with
    | some c => .ok (.single c letter rest)
    | none => if letter = 'u' then (unicode rest).map .behind else .error .malformed

def skipEscape : Reader Unit
  | [] => .error .truncated
  | letter :: rest =>
    match shortEscape? letter with
    | some _ => .ok (.single () letter rest)
    | none =>
      if letter = 'u' then (hexQuad rest).map fun unit => (unit.map fun _ => ()).behind
      else .error .malformed

/-! ### Literals -/

/-- Control characters are only written as escapes. -/
def isControl (c : Char) : Bool := c.toNat < 0x20

/-- The characters of a literal, from behind its opening quote. -/
def body (text : List Char) : Except Fault (Parsed (List Char) text) :=
  match text with
  | [] => .error .truncated
  | c :: rest =>
    if c = '"' then .ok (.single [] c rest)
    else if c = '\\' then
      match escape rest with
      | .error fault => .error fault
      | .ok escaped =>
        have shorter : escaped.rest.length < (c :: rest).length :=
          Nat.lt_succ_of_lt escaped.shorter
        match body escaped.rest with
        | .error fault => .error fault
        | .ok others =>
          .ok ⟨escaped.value :: others.value, others.rest, Nat.lt_trans others.shorter shorter⟩
    else if isControl c then .error .malformed
    else
      match body rest with
      | .error fault => .error fault
      | .ok others => .ok (others.map (c :: ·)).behind
termination_by text.length
decreasing_by
  · exact shorter
  · exact Nat.lt_succ_self rest.length

def skipBody (text : List Char) : Except Fault (Parsed Unit text) :=
  match text with
  | [] => .error .truncated
  | c :: rest =>
    if c = '"' then .ok (.single () c rest)
    else if c = '\\' then
      match skipEscape rest with
      | .error fault => .error fault
      | .ok escaped =>
        have shorter : escaped.rest.length < (c :: rest).length :=
          Nat.lt_succ_of_lt escaped.shorter
        match skipBody escaped.rest with
        | .error fault => .error fault
        | .ok others => .ok (others.within (Nat.le_of_lt shorter))
    else if isControl c then .error .malformed
    else
      match skipBody rest with
      | .error fault => .error fault
      | .ok others => .ok others.behind
termination_by text.length
decreasing_by
  · exact shorter
  · exact Nat.lt_succ_self rest.length

def quoted {α : Type} (inside : Reader α) : Reader α
  | [] => .error .truncated
  | c :: rest =>
    if c = '"' then (inside rest).map .behind else .error .malformed

def literal : Reader String :=
  .afterGap (.map String.ofList (quoted body))

def skip : Reader Unit :=
  .afterGap (quoted skipBody)

/-! ### Writing -/

def hexDigit (n : Nat) : Char :=
  Char.ofNat (if n < 10 then 48 + n else 87 + n)

def escaped (c : Char) : List Char :=
  match c with
  | '"' => ['\\', '"']
  | '\\' => ['\\', '\\']
  | '\x08' => ['\\', 'b']
  | '\x0c' => ['\\', 'f']
  | '\n' => ['\\', 'n']
  | '\r' => ['\\', 'r']
  | '\t' => ['\\', 't']
  | c =>
    if isControl c then
      ['\\', 'u', '0', '0', hexDigit (c.toNat / 16), hexDigit (c.toNat % 16)]
    else [c]

def write (text : String) : List Char :=
  '"' :: text.toList.flatMap escaped ++ ['"']

end TraitCatalog.Json.Quoted
