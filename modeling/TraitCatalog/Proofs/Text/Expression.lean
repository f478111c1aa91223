import Mathlib.Computability.Language
import TraitCatalog.Text.Expression

/-!
# What expressions match

An expression stands for a language, and matching decides it (`matchesAll_iff`). The step of the argument
is one character: what may follow it is the union of the languages of `rests` (`exists_mem_rests_iff`).
-/

open Computability

namespace TraitCatalog.Text.Expression

def language : Expression → Language Char
  | .text chars => {chars}
  | .oneOf ranges => {text | ∃ c, text = [c] ∧ ∃ range ∈ ranges, range.1 ≤ c ∧ c ≤ range.2}
  | .next first second => first.language * second.language
  | .star part => part.language∗
  | .plus part => part.language * part.language∗

theorem mem_language_text_iff {chars text : List Char} :
    text ∈ (Expression.text chars).language ↔ text = chars :=
  Iff.rfl

theorem mem_language_oneOf_iff {ranges : List (Char × Char)} {text : List Char} :
    text ∈ (Expression.oneOf ranges).language ↔ ∃ c, text = [c] ∧ inRanges c ranges = true := by
  simp only [inRanges, List.any_eq_true, Bool.and_eq_true, decide_eq_true_eq]
  exact Iff.rfl

theorem nil_mem_mul_iff {first second : Language Char} :
    [] ∈ first * second ↔ [] ∈ first ∧ [] ∈ second := by
  rw [Language.mem_mul]
  constructor
  · intro cut
    obtain ⟨front, inFirst, back, inSecond, nothing⟩ := cut
    obtain ⟨rfl, rfl⟩ := List.append_eq_nil_iff.1 nothing
    exact ⟨inFirst, inSecond⟩
  · intro both
    exact ⟨[], both.1, [], both.2, rfl⟩

theorem nullable_iff {expression : Expression} :
    expression.nullable = true ↔ [] ∈ expression.language := by
  induction expression with
  | text chars =>
    rw [nullable, List.isEmpty_iff]
    exact eq_comm
  | oneOf ranges =>
    refine iff_of_false Bool.false_ne_true ?_
    rintro ⟨c, nothing, _⟩
    cases nothing
  | next first second firstIh secondIh =>
    rw [nullable, Bool.and_eq_true, firstIh, secondIh, language, nil_mem_mul_iff]
  | star part => exact iff_of_true rfl (Language.nil_mem_kstar _)
  | plus part ih =>
    rw [nullable, ih, language, nil_mem_mul_iff]
    exact (and_iff_left (Language.nil_mem_kstar _)).symm

/-! ### One character -/

theorem cons_mem_mul_iff {first second : Language Char} {c : Char} {text : List Char} :
    c :: text ∈ first * second ↔
      (∃ front back, c :: front ∈ first ∧ back ∈ second ∧ front ++ back = text) ∨
      [] ∈ first ∧ c :: text ∈ second := by
  rw [Language.mem_mul]
  constructor
  · intro cut
    obtain ⟨front, inFirst, back, inSecond, same⟩ := cut
    cases front with
    | nil => exact Or.inr ⟨inFirst, same ▸ inSecond⟩
    | cons d front =>
      obtain ⟨rfl, rfl⟩ := List.cons.inj same
      exact Or.inl ⟨front, back, inFirst, inSecond, rfl⟩
  · intro cut
    obtain ⟨front, back, inFirst, inSecond, rfl⟩ | ⟨empty, inSecond⟩ := cut
    · exact ⟨c :: front, inFirst, back, inSecond, rfl⟩
    · exact ⟨[], empty, c :: text, inSecond, rfl⟩

theorem cons_mem_kstar_iff {part : Language Char} {c : Char} {text : List Char} :
    c :: text ∈ part∗ ↔ ∃ front back, c :: front ∈ part ∧ back ∈ part∗ ∧ front ++ back = text := by
  constructor
  · intro repeated
    obtain ⟨pieces, whole, each⟩ := Language.mem_kstar_iff_exists_nonempty.1 repeated
    cases pieces with
    | nil => cases whole
    | cons piece pieces =>
      obtain ⟨⟨inPart, some_char⟩, others⟩ := List.forall_mem_cons.1 each
      obtain ⟨d, front, rfl⟩ := List.exists_cons_of_ne_nil some_char
      obtain ⟨rfl, rfl⟩ := List.cons.inj whole
      exact ⟨front, pieces.flatten, inPart, Language.join_mem_kstar fun piece member =>
        (others piece member).1, rfl⟩
  · intro cut
    obtain ⟨front, back, inPart, repeated, rfl⟩ := cut
    obtain ⟨pieces, rfl, each⟩ := Language.mem_kstar.1 repeated
    exact Language.mem_kstar.2
      ⟨(c :: front) :: pieces, rfl, List.forall_mem_cons.2 ⟨inPart, each⟩⟩

theorem exists_mem_map_next_iff {rests : List Expression} {second : Expression} {text : List Char} :
    (∃ rest ∈ rests.map fun rest => Expression.next rest second, text ∈ rest.language) ↔
      ∃ front back, (∃ rest ∈ rests, front ∈ rest.language) ∧ back ∈ second.language ∧
        front ++ back = text := by
  constructor
  · intro found
    obtain ⟨_, member, matched⟩ := found
    obtain ⟨rest, present, rfl⟩ := List.mem_map.1 member
    obtain ⟨front, inRest, back, inSecond, same⟩ := Language.mem_mul.1 matched
    exact ⟨front, back, ⟨rest, present, inRest⟩, inSecond, same⟩
  · intro cut
    obtain ⟨front, back, ⟨rest, present, inRest⟩, inSecond, rfl⟩ := cut
    exact ⟨.next rest second, List.mem_map_of_mem present, Language.append_mem_mul inRest inSecond⟩

theorem exists_mem_rests_iff {expression : Expression} {c : Char} {text : List Char} :
    (∃ rest ∈ expression.rests c, text ∈ rest.language) ↔ c :: text ∈ expression.language := by
  induction expression generalizing text with
  | text chars =>
    rw [mem_language_text_iff]
    cases chars with
    | nil => simp [rests]
    | cons d chars =>
      by_cases same : d = c
      · simp [rests, same, mem_language_text_iff]
      · simp [rests, same, Ne.symm same]
  | oneOf ranges =>
    rw [mem_language_oneOf_iff]
    by_cases inside : inRanges c ranges = true
    · simp [rests, inside, mem_language_text_iff]
    · simp [rests, inside]
  | next first second firstIh secondIh =>
    rw [language, cons_mem_mul_iff, rests, ← nullable_iff]
    simp only [← firstIh, ← secondIh, ← exists_mem_map_next_iff]
    by_cases empty : first.nullable = true
    · simp [empty, or_and_right, exists_or]
    · simp [empty]
  | star part ih =>
    rw [language, cons_mem_kstar_iff, rests, exists_mem_map_next_iff]
    simp only [ih]
    rfl
  | plus part ih =>
    -- A part that is passed over leaves the others, which start with a part as well.
    rw [language, cons_mem_mul_iff, cons_mem_kstar_iff, rests, exists_mem_map_next_iff]
    simp only [ih]
    exact (or_iff_left_of_imp And.right).symm

/-! ### Whole texts -/

theorem matchesAny_iff {expressions : List Expression} {text : List Char} :
    matchesAny expressions text = true ↔
      ∃ expression ∈ expressions, text ∈ expression.language := by
  unfold matchesAny
  induction text generalizing expressions with
  | nil => simp only [List.foldl_nil, List.any_eq_true, nullable_iff]
  | cons c text ih =>
    rw [List.foldl_cons, ih]
    simp only [← exists_mem_rests_iff, List.mem_flatMap]
    constructor
    · intro found
      obtain ⟨rest, ⟨expression, present, member⟩, matched⟩ := found
      exact ⟨expression, present, rest, member, matched⟩
    · intro found
      obtain ⟨expression, present, rest, member, matched⟩ := found
      exact ⟨rest, ⟨expression, present, member⟩, matched⟩

theorem matchesAll_iff {expression : Expression} {text : List Char} :
    expression.matchesAll text = true ↔ text ∈ expression.language := by
  rw [matchesAll, matchesAny_iff]
  simp only [List.mem_singleton, exists_eq_left]

end TraitCatalog.Text.Expression
