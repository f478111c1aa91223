/-!
# Cutting texts

What stands behind a word, what stands around the last of several separators, and what stands before
and behind a place that is counted in bytes.
-/

namespace TraitCatalog.Text

variable {α : Type}

def dropWord? [DecidableEq α] : (word text : List α) → Option (List α)
  | [], text => some text
  | _ :: _, [] => none
  | c :: word, d :: text => if c = d then dropWord? word text else none

theorem dropWord?_eq_some_iff [DecidableEq α] {word text rest : List α} :
    dropWord? word text = some rest ↔ text = word ++ rest := by
  fun_induction dropWord? word text with
  | case1 => simp
  | case2 => simp
  | case3 c word text ih => simpa using ih
  | case4 c word d text differ => simp [Ne.symm differ]

def splitLast? [BEq α] (separator : α) (text : List α) : Option (List α × List α) :=
  match text.reverse.dropWhile (· != separator) with
  | [] => none
  | _ :: before => some (before.reverse, (text.reverse.takeWhile (· != separator)).reverse)

/-- The text without as many of its first characters as take `count` bytes in UTF-8. -/
def dropBytes : (count : Nat) → List Char → List Char
  | 0, text => text
  | _ + 1, [] => []
  | count + 1, c :: rest => dropBytes (count + 1 - c.utf8Size) rest

def takeBytes : (count : Nat) → List Char → List Char
  | 0, _ => []
  | _ + 1, [] => []
  | count + 1, c :: rest => c :: takeBytes (count + 1 - c.utf8Size) rest

end TraitCatalog.Text
