import TraitCatalog.Text.Blank
import TraitCatalog.Text.Cut

/-!
# Assignment headers

A header is `implementors['library'] = [`, with either kind of quote around the library and with any
blanks between its tokens behind the first bracket.
-/

namespace TraitCatalog.Script

open Text (skipBlanks length_skipBlanks_le dropWord? dropWord?_eq_some_iff)

/-- The text behind one character, which blanks may precede. -/
def mark? (c : Char) (text : List Char) : Option (List Char) :=
  match skipBlanks text with
  | first :: rest => if first = c then some rest else none
  | [] => none

def upTo? (quote : Char) (text : List Char) : Option (List Char × List Char) :=
  match text.dropWhile (· != quote) with
  | _ :: rest => some (text.takeWhile (· != quote), rest)
  | [] => none

def singleQuote : Char := '\x27'

def doubleQuote : Char := '"'

def key? (text : List Char) : Option (List Char × List Char) :=
  match skipBlanks text with
  | first :: rest =>
    if first = singleQuote then upTo? singleQuote rest
    else if first = doubleQuote then upTo? doubleQuote rest
    else none
  | [] => none

def header? (text : List Char) : Option (List Char × List Char) := do
  let (key, rest) ← key? (← dropWord? "implementors[".toList text)
  return (key, ← mark? '[' (← mark? '=' (← mark? ']' rest)))

structure Header (text : List Char) where
  /-- The text from the header on. -/
  start : List Char
  library : List Char
  /-- The text behind the header. -/
  body : List Char
  shorter : body.length < text.length

/-! ### Length -/

theorem length_mark?_lt {c : Char} {text rest : List Char} (found : mark? c text = some rest) :
    rest.length < text.length := by
  have bound := length_skipBlanks_le text
  unfold mark? at found
  split at found
  · rename_i first tail skipped
    rw [skipped, List.length_cons] at bound
    split at found
    · cases found
      omega
    · cases found
  · cases found

theorem length_upTo?_lt {quote : Char} {text key rest : List Char}
    (found : upTo? quote text = some (key, rest)) : rest.length < text.length := by
  have bound := (List.dropWhile_sublist (· != quote) (l := text)).length_le
  unfold upTo? at found
  split at found
  · rename_i first tail dropped
    rw [dropped, List.length_cons] at bound
    simp only [Option.some.injEq, Prod.mk.injEq] at found
    rw [← found.2]
    omega
  · simp at found

theorem length_key?_lt {text key rest : List Char} (found : key? text = some (key, rest)) :
    rest.length < text.length := by
  have bound := length_skipBlanks_le text
  unfold key? at found
  split at found
  · rename_i first tail skipped
    rw [skipped, List.length_cons] at bound
    split at found
    · have := length_upTo?_lt found; omega
    · split at found
      · have := length_upTo?_lt found; omega
      · simp at found
  · simp at found

theorem length_header?_lt {text key rest : List Char} (found : header? text = some (key, rest)) :
    rest.length < text.length := by
  simp only [header?, Option.bind_eq_bind, Option.bind_eq_some_iff, Option.pure_def,
    Option.some.injEq, Prod.mk.injEq, Prod.exists] at found
  obtain ⟨_, word, _, _, key, _, bracket, _, equals, _, opening, _, rfl⟩ := found
  have := congrArg List.length (dropWord?_eq_some_iff.1 word)
  rw [List.length_append] at this
  have := length_key?_lt key
  have := length_mark?_lt bracket
  have := length_mark?_lt equals
  have := length_mark?_lt opening
  omega

/-! ### Search -/

def find? (text : List Char) : Option (Header text) :=
  match text with
  | [] => none
  | c :: rest =>
    match found : header? (c :: rest) with
    | some (library, body) => some ⟨c :: rest, library, body, length_header?_lt found⟩
    | none =>
      (find? rest).map fun later =>
        ⟨later.start, later.library, later.body, Nat.lt_succ_of_lt later.shorter⟩

end TraitCatalog.Script
