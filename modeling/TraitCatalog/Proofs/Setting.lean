import Mathlib.Data.List.Forall2
import Mathlib.Data.List.Induction
import Mathlib.Data.Nat.Digits.Defs
import TraitCatalog.Proofs.Text.Blank
import TraitCatalog.Proofs.Text.ByteOrder
import TraitCatalog.Setting

/-!
# Counts from the environment

A count is read into a word of 64 bits, digit by digit, and given up at the first digit that does not
fit. `foldlM_append?_eq_some_iff` shows that this loses nothing: the loop ends with a word exactly when
the number that the digits write, leading zeros and all, fits into it.
-/

namespace TraitCatalog.Setting

open Text (Blank TrimsTo trim trimsTo_trim trim_eq_empty_iff)

/-! ### Numerals -/

def IsDigit (c : Char) (n : Nat) : Prop :=
  "0123456789".toList[n]? = some c

/-- The number that decimal digits write, the last of them in the lowest place. -/
def Denotes (digits : List Char) (n : Nat) : Prop :=
  ∃ values : List Nat, List.Forall₂ IsDigit digits.reverse values ∧ n = Nat.ofDigits 10 values

/-- Digits with their number, and a plus sign before them or nothing. -/
def Numeral (text : List Char) (n : Nat) : Prop :=
  ∃ sign digits, (sign = [] ∨ sign = ['+']) ∧ digits ≠ [] ∧ text = sign ++ digits ∧ Denotes digits n

theorem isDigit_lt {c : Char} {n : Nat} (digit : IsDigit c n) : n < 10 :=
  (List.getElem?_eq_some_iff.1 digit).1

theorem denotes_nil_iff {n : Nat} : Denotes [] n ↔ n = 0 := by
  simp [Denotes]

theorem denotes_concat_iff {digits : List Char} {c : Char} {n : Nat} :
    Denotes (digits ++ [c]) n ↔
      ∃ front last, Denotes digits front ∧ IsDigit c last ∧ n = front * 10 + last := by
  unfold Denotes
  rw [List.reverse_append, List.reverse_singleton, List.singleton_append]
  constructor
  · intro written
    obtain ⟨values, digit, number⟩ := written
    obtain ⟨last, others, lastDigit, othersDigit, rfl⟩ := List.forall₂_cons_left_iff.1 digit
    refine ⟨_, last, ⟨others, othersDigit, rfl⟩, lastDigit, ?_⟩
    rw [number, Nat.ofDigits_cons]
    omega
  · intro written
    obtain ⟨_, last, ⟨others, othersDigit, rfl⟩, lastDigit, number⟩ := written
    refine ⟨last :: others, .cons lastDigit othersDigit, ?_⟩
    rw [number, Nat.ofDigits_cons]
    omega

theorem isDigit_unique {c : Char} {m n : Nat} (first : IsDigit c m) (second : IsDigit c n) : m = n := by
  have table : ∀ i < 10, ∀ j < 10, "0123456789".toList[i]? = "0123456789".toList[j]? → i = j := by
    decide
  exact table m (isDigit_lt first) n (isDigit_lt second) (first.trans second.symm)

/-! ### Words -/

theorem digit?_eq_some_iff {c : Char} {digit : UInt64} :
    digit? c = some digit ↔ IsDigit c digit.toNat := by
  have table : ∀ n < 10, "0123456789".toList[n]? = some (Char.ofNat (n + 48)) := by decide
  have places : ∀ n < 10, (Char.ofNat (n + 48)).isDigit = true ∧
      ((Char.ofNat (n + 48)).val - 48).toUInt64.toNat = n := by decide
  unfold digit?
  constructor
  · intro found
    split at found
    · rename_i isDigit
      obtain rfl := Option.some.inj found
      have range : 48 ≤ c.val.toNat ∧ c.val.toNat ≤ 57 := by
        simpa [Char.isDigit, UInt32.le_iff_toNat_le] using isDigit
      have value : (c.val - 48).toUInt64.toNat = c.toNat - 48 := by
        have above : 48 ≤ c.val := UInt32.le_iff_toNat_le.2 range.1
        rw [UInt32.toNat_toUInt64, UInt32.toNat_sub_of_le _ _ above]
        rfl
      have place : c.toNat - 48 + 48 = c.toNat := Nat.sub_add_cancel range.1
      rw [IsDigit, value, table _ (by have : c.toNat ≤ 57 := range.2; omega), place, Char.ofNat_toNat]
    · cases found
  · intro listed
    obtain ⟨isDigit, value⟩ := places _ (isDigit_lt listed)
    rw [IsDigit, table _ (isDigit_lt listed), Option.some.injEq] at listed
    rw [← listed, if_pos isDigit, Option.some.injEq, ← UInt64.toNat_inj, value]

theorem append?_eq_some_iff {count digit word : UInt64} (small : digit.toNat < 10) :
    append? count digit = some word ↔ word.toNat = count.toNat * 10 + digit.toNat := by
  have greatest : greatestCount.toNat = 18446744073709551615 := rfl
  have below : digit ≤ greatestCount := by
    rw [UInt64.le_iff_toNat_le, greatest]
    omega
  have room : count ≤ (greatestCount - digit) / 10 ↔
      count.toNat * 10 + digit.toNat < 18446744073709551616 := by
    rw [UInt64.le_iff_toNat_le, UInt64.toNat_div, UInt64.toNat_sub_of_le _ _ below, greatest,
      show (10 : UInt64).toNat = 10 from rfl]
    omega
  have bound := word.toNat_lt
  unfold append?
  split
  · rename_i fits
    have exact : (count * 10 + digit).toNat = count.toNat * 10 + digit.toNat := by
      rw [UInt64.toNat_add, UInt64.toNat_mul, show (10 : UInt64).toNat = 10 from rfl]
      have := room.1 fits
      omega
    rw [Option.some.injEq, ← UInt64.toNat_inj, exact]
    exact eq_comm
  · rename_i full
    have := mt room.2 full
    constructor
    · intro none_some
      cases none_some
    · omega

theorem foldlM_append?_eq_some_iff {digits : List Char} {word : UInt64} :
    digits.foldlM (fun count c => (digit? c).bind (append? count)) 0 = some word ↔
      Denotes digits word.toNat := by
  induction digits using List.reverseRecOn generalizing word with
  | nil =>
    rw [denotes_nil_iff, List.foldlM_nil, Option.pure_def, Option.some.injEq, ← UInt64.toNat_inj]
    exact eq_comm
  | append_singleton digits c ih =>
    rw [List.foldlM_append, denotes_concat_iff]
    simp only [List.foldlM_cons, List.foldlM_nil, bind_pure, Option.bind_eq_bind,
      Option.bind_eq_some_iff, digit?_eq_some_iff, ih]
    constructor
    · intro read
      obtain ⟨count, written, digit, isDigit, appended⟩ := read
      exact ⟨_, _, written, isDigit, (append?_eq_some_iff (isDigit_lt isDigit)).1 appended⟩
    · -- What is written before the last digit is a smaller number, so it fits into a word as well.
      intro written
      obtain ⟨front, last, frontWritten, isDigit, number⟩ := written
      have bound := word.toNat_lt
      have small := isDigit_lt isDigit
      have frontWord : (UInt64.ofNat front).toNat = front :=
        UInt64.toNat_ofNat_of_lt' (show front < 2 ^ 64 by omega)
      have lastWord : (UInt64.ofNat last).toNat = last :=
        UInt64.toNat_ofNat_of_lt' (show last < 2 ^ 64 by omega)
      refine ⟨UInt64.ofNat front, ?_, UInt64.ofNat last, ?_, ?_⟩
      · rwa [frontWord]
      · rwa [lastWord]
      · rw [append?_eq_some_iff (by omega), frontWord, lastWord, number]

/-! ### Counts -/

theorem digits?_eq_some_iff {digits : List Char} {word : UInt64} :
    digits? digits = some word ↔ digits ≠ [] ∧ Denotes digits word.toNat := by
  unfold digits?
  split
  · rename_i empty
    simp [List.isEmpty_iff.1 empty]
  · rename_i some_digit
    rw [foldlM_append?_eq_some_iff]
    exact (and_iff_right (by simpa using some_digit)).symm

theorem plus_not_mem {digits : List Char} {n : Nat} (written : Denotes digits n) : '+' ∉ digits := by
  obtain ⟨values, digit, -⟩ := written
  intro member
  have no_plus : ∀ k < 10, "0123456789".toList[k]? ≠ some '+' := by decide
  obtain ⟨i, bound, same⟩ := List.getElem_of_mem (List.mem_reverse.2 member)
  have plusDigit := digit.get bound (digit.length_eq ▸ bound)
  rw [List.get_eq_getElem, same] at plusDigit
  exact no_plus _ (isDigit_lt plusDigit) plusDigit

theorem numeral_plus_iff {rest : List Char} {n : Nat} :
    Numeral ('+' :: rest) n ↔ rest ≠ [] ∧ Denotes rest n := by
  constructor
  · intro numeral
    obtain ⟨sign, digits, rfl | rfl, some_digit, cut, written⟩ := numeral
    · rw [List.nil_append] at cut
      exact absurd (cut ▸ List.mem_cons_self) (plus_not_mem written)
    · obtain rfl := (List.cons.inj cut).2
      exact ⟨some_digit, written⟩
  · intro digits
    exact ⟨['+'], rest, .inr rfl, digits.1, rfl, digits.2⟩

theorem numeral_iff_of_unsigned {text : List Char} {n : Nat} (unsigned : text.head? ≠ some '+') :
    Numeral text n ↔ text ≠ [] ∧ Denotes text n := by
  constructor
  · intro numeral
    obtain ⟨sign, digits, rfl | rfl, some_digit, rfl, written⟩ := numeral
    · exact ⟨some_digit, written⟩
    · exact absurd rfl unsigned
  · intro digits
    exact ⟨[], text, .inl rfl, digits.1, rfl, digits.2⟩

theorem map_toNat_digits?_eq_some_iff {digits : List Char} {n : Nat} :
    (digits? digits).map UInt64.toNat = some n ↔ (digits ≠ [] ∧ Denotes digits n) ∧ n < 2 ^ 64 := by
  simp only [Option.map_eq_some_iff, digits?_eq_some_iff]
  constructor
  · intro read
    obtain ⟨word, written, rfl⟩ := read
    exact ⟨written, word.toNat_lt⟩
  · intro written
    have word : (UInt64.ofNat n).toNat = n := UInt64.toNat_ofNat_of_lt' written.2
    exact ⟨UInt64.ofNat n, by rw [word]; exact written.1, word⟩

theorem count?_eq_some_iff {text : List Char} {n : Nat} :
    count? (String.ofList text) = some n ↔ Numeral text n ∧ n < 2 ^ 64 := by
  unfold count?
  rw [String.toList_ofList]
  split
  · rw [map_toNat_digits?_eq_some_iff, numeral_plus_iff]
  · rename_i unsigned
    rw [map_toNat_digits?_eq_some_iff, numeral_iff_of_unsigned]
    intro first
    obtain ⟨rest, same⟩ := List.head?_eq_some_iff.1 first
    exact unsigned rest same

theorem Numeral.ne_nil {text : List Char} {n : Nat} (numeral : Numeral text n) : text ≠ [] := by
  obtain ⟨sign, digits, -, some_digit, rfl, -⟩ := numeral
  simp [some_digit]

theorem Denotes.unique {digits : List Char} {m n : Nat} (first : Denotes digits m)
    (second : Denotes digits n) : m = n := by
  obtain ⟨values, digit, rfl⟩ := first
  obtain ⟨values', digit', rfl⟩ := second
  have unique : Relator.RightUnique IsDigit := fun _ _ _ left right => isDigit_unique left right
  rw [List.right_unique_forall₂' unique digit digit']

theorem Numeral.unique {text : List Char} {m n : Nat} (first : Numeral text m)
    (second : Numeral text n) : m = n := by
  by_cases signed : text.head? = some '+'
  · obtain ⟨rest, rfl⟩ := List.head?_eq_some_iff.1 signed
    exact (numeral_plus_iff.1 first).2.unique (numeral_plus_iff.1 second).2
  · exact ((numeral_iff_of_unsigned signed).1 first).2.unique
      ((numeral_iff_of_unsigned signed).1 second).2

/-! ### Variables -/

theorem value?_ofText (text : String) :
    value? (some (Bytes.ofText text)) = if trim text = "" then none else some (trim text) := by
  simp [value?, Bytes.text?_ofText, String.isEmpty_iff]

theorem value?_of_not_text {bytes : Bytes} (notText : ∀ text, bytes ≠ Bytes.ofText text) :
    value? (some bytes) = none := by
  have unread : Bytes.text? bytes = none := by
    rw [Option.eq_none_iff_forall_ne_some]
    intro text read
    exact notText text (Bytes.text?_eq_some_iff.1 read)
  simp [value?, unread]

theorem value?_eq_some_iff {raw : Option Bytes} {value : String} :
    value? raw = some value ↔
      ∃ text trimmed, raw = some (Bytes.ofText text) ∧ TrimsTo text.toList trimmed ∧ trimmed ≠ [] ∧
        value = String.ofList trimmed := by
  constructor
  · intro found
    cases raw with
    | none => cases found
    | some bytes =>
      by_cases isText : ∃ text, bytes = Bytes.ofText text
      · obtain ⟨text, rfl⟩ := isText
        rw [value?_ofText] at found
        split at found
        · cases found
        · rename_i some_left
          obtain rfl := Option.some.inj found
          exact ⟨text, _, rfl, trimsTo_trim text, by simpa using some_left, String.ofList_toList.symm⟩
      · rw [value?_of_not_text (not_exists.1 isText)] at found
        cases found
  · intro read
    obtain ⟨text, trimmed, rfl, trims, some_left, rfl⟩ := read
    rw [trims.eq_trim] at some_left
    rw [value?_ofText, if_neg (by simpa using some_left), trims.eq_trim, String.ofList_toList]

theorem value?_eq_none_iff {raw : Option Bytes} :
    value? raw = none ↔
      raw = none ∨ (∃ bytes, raw = some bytes ∧ ∀ text, bytes ≠ Bytes.ofText text) ∨
        ∃ text, raw = some (Bytes.ofText text) ∧ Blank text.toList := by
  constructor
  · intro missing
    cases raw with
    | none => exact .inl rfl
    | some bytes =>
      refine .inr ?_
      by_cases isText : ∃ text, bytes = Bytes.ofText text
      · obtain ⟨text, rfl⟩ := isText
        rw [value?_ofText] at missing
        split at missing
        · rename_i empty
          exact .inr ⟨text, rfl, trim_eq_empty_iff.1 empty⟩
        · cases missing
      · exact .inl ⟨bytes, rfl, not_exists.1 isText⟩
  · intro unset
    obtain rfl | ⟨bytes, rfl, notText⟩ | ⟨text, rfl, blank⟩ := unset
    · rfl
    · exact value?_of_not_text notText
    · rw [value?_ofText, if_pos (trim_eq_empty_iff.2 blank)]

/-! ### Activation points -/

theorem activateAfter_eq_ok_none_iff {raw : Option Bytes} :
    activateAfter raw = .ok none ↔ value? raw = none := by
  unfold activateAfter
  cases value? raw with
  | none => simp
  | some value => cases counted : count? value <;> simp [counted]

theorem activateAfter_eq_ok_some_iff {raw : Option Bytes} {n : Nat} :
    activateAfter raw = .ok (some n) ↔
      ∃ text trimmed, raw = some (Bytes.ofText text) ∧ TrimsTo text.toList trimmed ∧
        Numeral trimmed n ∧ n < 2 ^ 64 := by
  have read : activateAfter raw = .ok (some n) ↔
      ∃ value, value? raw = some value ∧ count? value = some n := by
    unfold activateAfter
    cases value? raw with
    | none => simp
    | some value => cases counted : count? value <;> simp [counted]
  rw [read]
  constructor
  · intro counted
    obtain ⟨value, found, counted⟩ := counted
    obtain ⟨text, trimmed, set, trims, -, rfl⟩ := value?_eq_some_iff.1 found
    exact ⟨text, trimmed, set, trims, count?_eq_some_iff.1 counted⟩
  · intro written
    obtain ⟨text, trimmed, set, trims, numeral, fits⟩ := written
    exact ⟨_, value?_eq_some_iff.2 ⟨text, trimmed, set, trims, numeral.ne_nil, rfl⟩,
      count?_eq_some_iff.2 ⟨numeral, fits⟩⟩

theorem activateAfter_eq_error_iff {raw : Option Bytes} {error : Error} :
    activateAfter raw = .error error ↔
      ∃ text trimmed, raw = some (Bytes.ofText text) ∧ TrimsTo text.toList trimmed ∧ trimmed ≠ [] ∧
        (¬∃ n, Numeral trimmed n ∧ n < 2 ^ 64) ∧ error = .notACount (String.ofList trimmed) := by
  have read : activateAfter raw = .error error ↔
      ∃ value, value? raw = some value ∧ (¬∃ n, count? value = some n) ∧ error = .notACount value := by
    unfold activateAfter
    cases value? raw with
    | none => simp
    | some value => cases counted : count? value <;> simp [counted, eq_comm]
  rw [read]
  constructor
  · intro refused
    obtain ⟨value, found, notCounted, rfl⟩ := refused
    obtain ⟨text, trimmed, set, trims, some_left, rfl⟩ := value?_eq_some_iff.1 found
    simp only [count?_eq_some_iff] at notCounted
    exact ⟨text, trimmed, set, trims, some_left, notCounted, rfl⟩
  · intro written
    obtain ⟨text, trimmed, set, trims, some_left, notCounted, rfl⟩ := written
    refine ⟨_, value?_eq_some_iff.2 ⟨text, trimmed, set, trims, some_left, rfl⟩, ?_, rfl⟩
    simpa only [count?_eq_some_iff] using notCounted

/-- A variable sets the activation point that its text writes in decimal, if that is a number of 64 bits.
It sets nothing if it is unset, no text or blank, and anything else is refused, numbers that are too
large among them. -/
theorem activateAfter_reads_numerals (raw : Option Bytes) :
    (∀ n, activateAfter raw = .ok (some n) ↔
      ∃ text trimmed, raw = some (Bytes.ofText text) ∧ TrimsTo text.toList trimmed ∧
        Numeral trimmed n ∧ n < 2 ^ 64) ∧
    (activateAfter raw = .ok none ↔
      raw = none ∨ (∃ bytes, raw = some bytes ∧ ∀ text, bytes ≠ Bytes.ofText text) ∨
        ∃ text, raw = some (Bytes.ofText text) ∧ Blank text.toList) ∧
    (∀ error, activateAfter raw = .error error ↔
      ∃ text trimmed, raw = some (Bytes.ofText text) ∧ TrimsTo text.toList trimmed ∧ trimmed ≠ [] ∧
        (¬∃ n, Numeral trimmed n ∧ n < 2 ^ 64) ∧ error = .notACount (String.ofList trimmed)) ∧
    (∀ text trimmed n, raw = some (Bytes.ofText text) → TrimsTo text.toList trimmed →
      Numeral trimmed n → 2 ^ 64 ≤ n →
        activateAfter raw = .error (.notACount (String.ofList trimmed))) := by
  refine ⟨fun n => activateAfter_eq_ok_some_iff, ?_, fun error => activateAfter_eq_error_iff, ?_⟩
  · rw [activateAfter_eq_ok_none_iff, value?_eq_none_iff]
  · intro text trimmed n set trims numeral large
    refine activateAfter_eq_error_iff.2 ⟨text, trimmed, set, trims, numeral.ne_nil, ?_, rfl⟩
    intro small
    obtain ⟨m, other, fits⟩ := small
    have same := numeral.unique other
    omega

-- Leading zeros make the numeral longer than the word; one more than the greatest count is refused.
theorem activateAfter_reads_numerals_greatest :
    activateAfter (some (Bytes.ofText "\u00a0+00018446744073709551615 ")) =
      .ok (some 18446744073709551615) ∧
    activateAfter (some (Bytes.ofText "18446744073709551616")) =
      .error (.notACount "18446744073709551616") := by
  have digits : Denotes "00018446744073709551615".toList 18446744073709551615 :=
    ⟨[5, 1, 6, 1, 5, 5, 9, 0, 7, 3, 7, 0, 4, 4, 7, 6, 4, 4, 8, 1, 0, 0, 0], by
      repeat constructor, by decide⟩
  have above : Denotes "18446744073709551616".toList 18446744073709551616 :=
    ⟨[6, 1, 6, 1, 5, 5, 9, 0, 7, 3, 7, 0, 4, 4, 7, 6, 4, 4, 8, 1], by repeat constructor, by decide⟩
  have trims : TrimsTo "\u00a0+00018446744073709551615 ".toList "+00018446744073709551615".toList :=
    (show trim "\u00a0+00018446744073709551615 " = "+00018446744073709551615" by decide) ▸
      trimsTo_trim _
  have unchanged : TrimsTo "18446744073709551616".toList "18446744073709551616".toList :=
    (show trim "18446744073709551616" = "18446744073709551616" by decide) ▸ trimsTo_trim _
  constructor
  · exact ((activateAfter_reads_numerals _).1 _).2
      ⟨_, _, rfl, trims, ⟨['+'], _, .inr rfl, by decide, rfl, digits⟩, by decide⟩
  · exact (activateAfter_reads_numerals _).2.2.2 _ _ _ rfl unchanged
      ⟨[], _, .inl rfl, by decide, rfl, above⟩ (by decide)

end TraitCatalog.Setting
