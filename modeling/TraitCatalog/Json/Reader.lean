import TraitCatalog.Json.Basic

/-!
# Readers

A reader takes a value off the front of a text and leaves a shorter rest, or says why it cannot.
Since the rest is shorter, the loops over the items of an array and over the members of an object
end for every reader of items.
-/

namespace TraitCatalog.Json

/-- A value read from the front of `text`, and the text that follows it. -/
structure Parsed (α : Type) (text : List Char) where
  value : α
  rest : List Char
  shorter : rest.length < text.length

abbrev Reader (α : Type) := (text : List Char) → Except Fault (Parsed α text)

namespace Parsed

variable {α β : Type}

def map {text : List Char} (f : α → β) (parsed : Parsed α text) : Parsed β text :=
  ⟨f parsed.value, parsed.rest, parsed.shorter⟩

/-- What was read from an ending of a text was read from the text. -/
def within {text tail : List Char} (parsed : Parsed α tail) (bound : tail.length ≤ text.length) :
    Parsed α text :=
  ⟨parsed.value, parsed.rest, Nat.lt_of_lt_of_le parsed.shorter bound⟩

def single (value : α) (c : Char) (rest : List Char) : Parsed α (c :: rest) :=
  ⟨value, rest, Nat.lt_succ_self rest.length⟩

def behind {c : Char} {rest : List Char} (parsed : Parsed α rest) : Parsed α (c :: rest) :=
  ⟨parsed.value, parsed.rest, Nat.lt_succ_of_lt parsed.shorter⟩

end Parsed

/-! ### Gaps -/

/-- The characters that may stand between the tokens of a JSON text. -/
def isGap (c : Char) : Bool :=
  c == ' ' || c == '\t' || c == '\n' || c == '\r'

def skipGap (text : List Char) : List Char :=
  text.dropWhile isGap

theorem length_skipGap_le (text : List Char) : (skipGap text).length ≤ text.length :=
  (List.dropWhile_sublist isGap).length_le

theorem length_lt_of_skipGap_eq {text rest : List Char} {c : Char}
    (found : skipGap text = c :: rest) : rest.length < text.length := by
  have bound := length_skipGap_le text
  rw [found, List.length_cons] at bound
  omega

namespace Reader

variable {α β κ σ : Type}

def map (f : α → β) (reader : Reader α) : Reader β :=
  fun text => (reader text).map (Parsed.map f)

def afterGap (reader : Reader α) : Reader α :=
  fun text => (reader (skipGap text)).map (Parsed.within · (length_skipGap_le text))

def symbol (c : Char) : Reader Unit := fun text =>
  match found : skipGap text with
  | [] => .error .truncated
  | first :: rest =>
    if first = c then .ok ⟨(), rest, length_lt_of_skipGap_eq found⟩ else .error .malformed

def keyword (value : α) : List Char → Reader α
  | [], _ => .error .malformed
  | [last], c :: rest => if c = last then .ok (.single value c rest) else .error .malformed
  | letter :: others, c :: rest =>
    if c = letter then (keyword value others rest).map .behind
    else .error .malformed
  | _ :: _, [] => .error .truncated

/-! ### Arrays -/

def itemsFrom (item : Reader α) (text : List Char) : Except Fault (Parsed (List α) text) :=
  match item text with
  | .error fault => .error fault
  | .ok first =>
    match found : skipGap first.rest with
    | [] => .error .truncated
    | c :: rest =>
      have shorter : rest.length < text.length :=
        Nat.lt_trans (length_lt_of_skipGap_eq found) first.shorter
      if c = ']' then .ok ⟨[first.value], rest, shorter⟩
      else if c = ',' then
        match itemsFrom item rest with
        | .error fault => .error fault
        | .ok others =>
          .ok ⟨first.value :: others.value, others.rest, Nat.lt_trans others.shorter shorter⟩
      else .error .malformed
termination_by text.length

def items (item : Reader α) : Reader (List α) := fun text =>
  match found : skipGap text with
  | ']' :: rest => .ok ⟨[], rest, length_lt_of_skipGap_eq found⟩
  | _ => itemsFrom item text

/-! ### Objects -/

/-- Gathers the members from the first one to the closing brace. `field` gets what was gathered
and the next name, before the colon; it refuses the name or says how the value is read. -/
def membersFrom (name : Reader κ) (field : σ → κ → Except Fault (Reader σ)) (gathered : σ)
    (text : List Char) : Except Fault (Parsed σ text) :=
  match name text with
  | .error fault => .error fault
  | .ok key =>
    match field gathered key.value with
    | .error fault => .error fault
    | .ok reader =>
      match symbol ':' key.rest with
      | .error fault => .error fault
      | .ok colon =>
        match reader colon.rest with
        | .error fault => .error fault
        | .ok next =>
          match found : skipGap next.rest with
          | [] => .error .truncated
          | c :: rest =>
            have shorter : rest.length < text.length :=
              Nat.lt_trans (length_lt_of_skipGap_eq found)
                (Nat.lt_trans next.shorter (Nat.lt_trans colon.shorter key.shorter))
            if c = '}' then .ok ⟨next.value, rest, shorter⟩
            else if c = ',' then
              match membersFrom name field next.value rest with
              | .error fault => .error fault
              | .ok others => .ok (others.within (Nat.le_of_lt shorter))
            else .error .malformed
termination_by text.length

def members (name : Reader κ) (field : σ → κ → Except Fault (Reader σ)) (start : σ) : Reader σ :=
  fun text =>
    match found : skipGap text with
    | '}' :: rest => .ok ⟨start, rest, length_lt_of_skipGap_eq found⟩
    | _ => membersFrom name field start text

/-- Reads a whole text: behind the value only a gap may follow. -/
def run (reader : Reader α) (text : String) : Except Fault α :=
  match reader text.toList with
  | .error fault => .error fault
  | .ok parsed => if skipGap parsed.rest = [] then .ok parsed.value else .error .malformed

end Reader
end TraitCatalog.Json
