import TraitCatalog.Proofs.Interface.Language
import TraitCatalog.Proofs.Text.Expression
import TraitCatalog.Schema

/-!
# The pattern of interface paths

`pathLanguage` is the regular expression `[A-Za-z0-9_]+(::[A-Za-z0-9_]+)*`, built from the operations on
languages. `IsPath` is this language (`mem_pathLanguage_iff`), and the pattern of the schema stands for it
(`Schema.language_pathPattern`), so the schema and the parser, which trims a text and cuts it at its
colons, decide one language.
-/

open Computability

namespace TraitCatalog

namespace Interface

/-! ### The language -/

def letter : Language Char :=
  {text | ∃ c : Char, text = [c] ∧
    ('A' ≤ c ∧ c ≤ 'Z' ∨ 'a' ≤ c ∧ c ≤ 'z' ∨ '0' ≤ c ∧ c ≤ '9' ∨ c = '_')}

def word : Language Char :=
  letter * letter∗

/-- `[A-Za-z0-9_]+(::[A-Za-z0-9_]+)*` -/
def pathLanguage : Language Char :=
  word * ({[':', ':']} * word)∗

theorem isSegmentChar_iff_range {c : Char} :
    isSegmentChar c = true ↔
      'A' ≤ c ∧ c ≤ 'Z' ∨ 'a' ≤ c ∧ c ≤ 'z' ∨ '0' ≤ c ∧ c ≤ '9' ∨ c = '_' := by
  rw [isSegmentChar_iff]
  unfold Char.isAlphanum Char.isAlpha Char.isUpper Char.isLower Char.isDigit
  simp only [Bool.or_eq_true, Bool.and_eq_true, decide_eq_true_eq, or_assoc]
  rfl

theorem mem_letter_iff {text : List Char} :
    text ∈ letter ↔ ∃ c, text = [c] ∧ isSegmentChar c = true := by
  simp only [isSegmentChar_iff_range]
  rfl

theorem mem_kstar_letter_iff {text : List Char} :
    text ∈ letter∗ ↔ ∀ c ∈ text, isSegmentChar c = true := by
  rw [Language.mem_kstar]
  constructor
  · rintro ⟨pieces, rfl, each⟩ c member
    obtain ⟨piece, present, inside⟩ := List.mem_flatten.1 member
    obtain ⟨d, rfl, proper⟩ := mem_letter_iff.1 (each piece present)
    exact List.mem_singleton.1 inside ▸ proper
  · intro proper
    refine ⟨text.map fun c => [c], by simp [← List.flatMap_def], fun piece member => ?_⟩
    obtain ⟨c, present, rfl⟩ := List.mem_map.1 member
    exact mem_letter_iff.2 ⟨c, rfl, proper c present⟩

theorem mem_word_iff {text : List Char} : text ∈ word ↔ IsSegment text := by
  rw [word, Language.mem_mul]
  constructor
  · rintro ⟨first, inLetter, others, inStar, rfl⟩
    obtain ⟨c, rfl, proper⟩ := mem_letter_iff.1 inLetter
    have chars : ∀ d ∈ c :: others, isSegmentChar d = true :=
      List.forall_mem_cons.2 ⟨proper, mem_kstar_letter_iff.1 inStar⟩
    exact ⟨List.cons_ne_nil c others, fun d member => isSegmentChar_iff.1 (chars d member)⟩
  · intro proper
    cases text with
    | nil => exact absurd rfl proper.1
    | cons c rest =>
      obtain ⟨first, later⟩ := List.forall_mem_cons.1 proper.2
      refine ⟨[c], ?_, rest, ?_, rfl⟩
      · exact mem_letter_iff.2 ⟨c, rfl, isSegmentChar_iff.2 first⟩
      · exact mem_kstar_letter_iff.2 fun d member => isSegmentChar_iff.2 (later d member)

/-- A segment with any number of segments behind it, each behind two colons. -/
theorem isPath_append_flatten {segment : List Char} (proper : IsSegment segment)
    {others : List (List Char)} (each : ∀ other ∈ others, other ∈ {[':', ':']} * word) :
    IsPath (segment ++ others.flatten) := by
  induction others generalizing segment with
  | nil => simpa using IsPath.last proper
  | cons other others ih =>
    obtain ⟨first, later⟩ := List.forall_mem_cons.1 each
    obtain ⟨colons, rfl, next, inWord, rfl⟩ := Language.mem_mul.1 first
    simpa using IsPath.more proper (ih (mem_word_iff.1 inWord) later)

theorem mem_pathLanguage_iff {text : List Char} : text ∈ pathLanguage ↔ IsPath text := by
  rw [pathLanguage, Language.mem_mul]
  constructor
  · rintro ⟨segment, inWord, rest, inStar, rfl⟩
    obtain ⟨others, rfl, each⟩ := Language.mem_kstar.1 inStar
    exact isPath_append_flatten (mem_word_iff.1 inWord) each
  · intro path
    induction path with
    | last proper =>
      exact ⟨_, mem_word_iff.2 proper, [], Language.nil_mem_kstar _, List.append_nil _⟩
    | @more segment rest proper others ih =>
      obtain ⟨next, inWord, later, inStar, rfl⟩ := ih
      obtain ⟨pieces, rfl, each⟩ := Language.mem_kstar.1 inStar
      have piece : [':', ':'] ++ next ∈ ({[':', ':']} * word : Language Char) :=
        Language.append_mem_mul rfl inWord
      refine ⟨segment, mem_word_iff.2 proper, _,
        Language.join_mem_kstar (List.forall_mem_cons.2 ⟨piece, each⟩), ?_⟩
      simp

end Interface

/-! ### The pattern -/

namespace Schema

open Interface

theorem inRanges_iff {c : Char} :
    Text.Expression.inRanges c [('A', 'Z'), ('a', 'z'), ('0', '9'), ('_', '_')] = true ↔
      isSegmentChar c = true := by
  have underscore : '_' ≤ c ∧ c ≤ '_' ↔ c = '_' :=
    ⟨fun between => Char.le_antisymm between.2 between.1, fun same => same ▸ ⟨Char.le_refl _, Char.le_refl _⟩⟩
  rw [isSegmentChar_iff_range, ← underscore]
  simp [Text.Expression.inRanges]

theorem language_segmentPattern : segmentPattern.language = word := by
  have letters : (Text.Expression.oneOf [('A', 'Z'), ('a', 'z'), ('0', '9'), ('_', '_')]).language =
      letter := by
    ext text
    simp only [Text.Expression.mem_language_oneOf_iff, mem_letter_iff, inRanges_iff]
  rw [segmentPattern, Text.Expression.language, letters, word]

theorem language_pathPattern : pathPattern.language = pathLanguage := by
  rw [pathLanguage, ← language_segmentPattern]
  rfl

-- As the schema writes it.
example : pathPattern.source = "^[A-Za-z0-9_]+(::[A-Za-z0-9_]+)*$" := by decide

theorem matchesPath_iff {text : List Char} : matchesPath text = true ↔ IsPath text := by
  rw [matchesPath, Text.Expression.matchesAll_iff, language_pathPattern, mem_pathLanguage_iff]

end Schema

/-! ### Parsing -/

namespace Interface

theorem parse_eq_ok_self_iff {text : String} : parse text = .ok ⟨text⟩ ↔ IsPath text.toList := by
  refine ⟨fun read => ?_, parse_of_isPath⟩
  obtain ⟨path, same⟩ := parse_eq_ok_iff.1 read
  have kept : text = String.ofList (Text.trimChars text.toList) := congrArg Interface.text same
  rw [kept, String.toList_ofList]
  exact path

/-- The parser and the pattern of the schema decide one language: a text names an interface if it is in
the language once the blanks at its ends are left out, and is an interface as it stands if the pattern
matches it. -/
theorem parse_agrees_with_pattern (text : String) :
    Text.TrimsTo text.toList (Text.trim text).toList ∧
    (∀ interface, parse text = .ok interface ↔
      (Text.trim text).toList ∈ pathLanguage ∧ interface = ⟨Text.trim text⟩) ∧
    (Schema.matchesPath text.toList = true ↔ text.toList ∈ pathLanguage) ∧
    (Schema.matchesPath text.toList = true ↔ parse text = .ok ⟨text⟩) ∧
    (∀ interface, parse text = .ok interface → parse interface.text = .ok interface) := by
  refine ⟨Text.trimsTo_trim text, fun interface => ?_, ?_, ?_, fun interface read => ?_⟩
  · rw [parse_eq_ok_iff, mem_pathLanguage_iff, Text.trim, String.toList_ofList]
  · rw [Schema.matchesPath_iff, mem_pathLanguage_iff]
  · rw [Schema.matchesPath_iff, parse_eq_ok_self_iff]
  · obtain ⟨path, rfl⟩ := parse_eq_ok_iff.1 read
    refine parse_of_isPath ?_
    rwa [String.toList_ofList]

-- Three colons are cut after the second, so the third is left at the front of a segment.
example : splitSegments "a:::b".toList = ["a".toList, ":b".toList] ∧
    Schema.matchesPath "a:::b".toList = false := by decide

end Interface
end TraitCatalog
