import TraitCatalog.Interface.Basic
import TraitCatalog.Proofs.Text.Blank

/-!
# The language of interface paths

`IsPath` is the language `[A-Za-z0-9_]+(::[A-Za-z0-9_]+)*`, and `Interface.parse` takes a text of it as it
stands.
-/

namespace TraitCatalog.Interface

/-! ### Paths -/

/-- One or more ASCII letters, digits and underscores. -/
def IsSegment (text : List Char) : Prop :=
  text ≠ [] ∧ ∀ c ∈ text, c.isAlphanum = true ∨ c = '_'

/-- Segments with two colons between them. -/
inductive IsPath : List Char → Prop where
  | last {segment : List Char} (proper : IsSegment segment) : IsPath segment
  | more {segment rest : List Char} (proper : IsSegment segment) (others : IsPath rest) :
      IsPath (segment ++ ':' :: ':' :: rest)

theorem isSegmentChar_iff {c : Char} : isSegmentChar c = true ↔ c.isAlphanum = true ∨ c = '_' := by
  simp [isSegmentChar]

theorem IsSegment.chars {segment : List Char} (proper : IsSegment segment) :
    ∀ c ∈ segment, isSegmentChar c = true :=
  fun c member => isSegmentChar_iff.2 (proper.2 c member)

theorem isSegment_iff {text : List Char} : isSegment text = true ↔ IsSegment text := by
  simp [isSegment, IsSegment, isSegmentChar_iff]

theorem isPath_iff {text : List Char} :
    IsPath text ↔ IsSegment text ∨
      ∃ segment rest, IsSegment segment ∧ IsPath rest ∧ text = segment ++ ':' :: ':' :: rest := by
  constructor
  · intro path
    cases path with
    | last proper => exact Or.inl proper
    | more proper others => exact Or.inr ⟨_, _, proper, others, rfl⟩
  · rintro (proper | ⟨segment, rest, proper, others, rfl⟩)
    · exact .last proper
    · exact .more proper others

theorem not_isPath_nil : ¬IsPath [] := by
  rw [isPath_iff]
  rintro (proper | ⟨segment, rest, _, _, same⟩)
  · exact proper.1 rfl
  · simp at same

/-- What may follow a character of a segment. -/
def Continues (rest : List Char) : Prop :=
  rest = [] ∨ IsPath rest ∨ ∃ more, rest = ':' :: ':' :: more ∧ IsPath more

theorem isSegment_cons {c : Char} {rest : List Char} :
    IsSegment (c :: rest) ↔ isSegmentChar c = true ∧ (rest = [] ∨ IsSegment rest) := by
  simp only [IsSegment, isSegmentChar_iff, List.forall_mem_cons]
  cases rest <;> simp

theorem isPath_cons_iff {c : Char} {rest : List Char} :
    IsPath (c :: rest) ↔ isSegmentChar c = true ∧ Continues rest := by
  constructor
  · intro path
    rcases isPath_iff.1 path with proper | ⟨segment, others, proper, otherPath, same⟩
    · obtain ⟨first, later⟩ := isSegment_cons.1 proper
      exact ⟨first, later.imp id fun proper => Or.inl (.last proper)⟩
    · cases segment with
      | nil => exact absurd rfl proper.1
      | cons d segment =>
        obtain ⟨rfl, rfl⟩ := List.cons.inj same
        obtain ⟨first, later⟩ := isSegment_cons.1 proper
        rcases later with rfl | proper
        · exact ⟨first, Or.inr (Or.inr ⟨others, rfl, otherPath⟩)⟩
        · exact ⟨first, Or.inr (Or.inl (.more proper otherPath))⟩
  · rintro ⟨first, rfl | path | ⟨more, rfl, path⟩⟩
    · exact .last (isSegment_cons.2 ⟨first, Or.inl rfl⟩)
    · cases path with
      | last proper => exact .last (isSegment_cons.2 ⟨first, Or.inr proper⟩)
      | more proper others => exact .more (isSegment_cons.2 ⟨first, Or.inr proper⟩) others
    · exact .more (isSegment_cons.2 ⟨first, Or.inl rfl⟩) path

theorem isSegmentChar_colon : isSegmentChar ':' = false := by decide

/-! ### Parsing -/

theorem splitSegments_ne_nil (text : List Char) : splitSegments text ≠ [] := by
  fun_cases splitSegments text <;> simp

theorem splitSegments_cons {c : Char} (text : List Char) (other : c ≠ ':') {first : List Char}
    {others : List (List Char)} (split : splitSegments text = first :: others) :
    splitSegments (c :: text) = (c :: first) :: others := by
  rw [splitSegments.eq_3 c text fun _ colon => absurd colon other, split]

theorem ne_colon {c : Char} (proper : isSegmentChar c = true) : c ≠ ':' := by
  rintro rfl
  rw [isSegmentChar_colon] at proper
  cases proper

theorem splitSegments_segment {segment : List Char} (proper : ∀ c ∈ segment, isSegmentChar c = true) :
    splitSegments segment = [segment] := by
  induction segment with
  | nil => rfl
  | cons c segment ih =>
    obtain ⟨first, later⟩ := List.forall_mem_cons.1 proper
    exact splitSegments_cons segment (ne_colon first) (ih later)

theorem splitSegments_append {segment : List Char} (rest : List Char)
    (proper : ∀ c ∈ segment, isSegmentChar c = true) :
    splitSegments (segment ++ ':' :: ':' :: rest) = segment :: splitSegments rest := by
  induction segment with
  | nil => rfl
  | cons c segment ih =>
    obtain ⟨first, later⟩ := List.forall_mem_cons.1 proper
    exact splitSegments_cons _ (ne_colon first) (ih later)

theorem IsPath.splitSegments {text : List Char} (path : IsPath text) :
    (splitSegments text).all isSegment = true := by
  induction path with
  | last proper =>
    rw [splitSegments_segment proper.chars]
    simp [isSegment_iff.2 proper]
  | more proper _ ih =>
    rw [splitSegments_append _ proper.chars]
    simp [isSegment_iff.2 proper, ih]

theorem toNat_of_segmentChar {c : Char} (proper : c.isAlphanum = true ∨ c = '_') :
    48 ≤ c.toNat ∧ c.toNat ≤ 122 := by
  rcases proper with proper | rfl
  · unfold Char.isAlphanum Char.isAlpha Char.isUpper Char.isLower Char.isDigit at proper
    simp only [Bool.or_eq_true, Bool.and_eq_true, decide_eq_true_eq, UInt32.le_iff_toNat_le,
      ge_iff_le] at proper
    have same : c.val.toNat = c.toNat := rfl
    simp at proper
    omega
  · decide

theorem isBlank_eq_false_of_segmentChar {c : Char} (proper : c.isAlphanum = true ∨ c = '_') :
    Text.isBlank c = false := by
  have range := toNat_of_segmentChar proper
  simp only [Text.isBlank, Bool.or_eq_false_iff, Bool.and_eq_false_iff, decide_eq_false_iff_not,
    beq_eq_false_iff_ne]
  omega

theorem IsPath.not_blank {text : List Char} (path : IsPath text) :
    ∀ c ∈ text, Text.isBlank c = false := by
  have chars : ∀ {segment}, IsSegment segment → ∀ c ∈ segment, Text.isBlank c = false :=
    fun proper c member => isBlank_eq_false_of_segmentChar (proper.2 c member)
  induction path with
  | last proper => exact chars proper
  | more proper _ ih =>
    intro c member
    rcases List.mem_append.1 member with inside | behind
    · exact chars proper c inside
    · rcases List.mem_cons.1 behind with rfl | behind
      · decide
      · rcases List.mem_cons.1 behind with rfl | behind
        · decide
        · exact ih c behind

/-- Where the pieces of a text are segments, except that the first may be empty, the text continues a
segment. -/
theorem continues_of_splitSegments {text first : List Char} {others : List (List Char)}
    (split : splitSegments text = first :: others) (chars : ∀ c ∈ first, isSegmentChar c = true)
    (proper : others.all isSegment = true) : Continues text := by
  fun_induction splitSegments text generalizing first others with
  | case1 => exact Or.inl rfl
  | case2 rest ih =>
    obtain ⟨rfl, rfl⟩ := List.cons.inj split
    refine Or.inr (Or.inr ⟨rest, rfl, ?_⟩)
    cases later : splitSegments rest with
    | nil => exact absurd later (splitSegments_ne_nil rest)
    | cons next more =>
      rw [later, List.all_cons, Bool.and_eq_true, isSegment_iff] at proper
      rcases ih later proper.1.chars proper.2 with rfl | path | ⟨_, rfl, _⟩
      · exact absurd (List.cons.inj later).1.symm proper.1.1
      · exact path
      · exact absurd (List.cons.inj later).1.symm proper.1.1
  | case3 c rest _ nothing => exact absurd nothing (splitSegments_ne_nil rest)
  | case4 c rest _ next more later ih =>
    obtain ⟨rfl, rfl⟩ := List.cons.inj split
    obtain ⟨here, nextChars⟩ := List.forall_mem_cons.1 chars
    exact Or.inr (Or.inl (isPath_cons_iff.2 ⟨here, ih later nextChars proper⟩))

theorem isPath_iff_splitSegments {text : List Char} :
    IsPath text ↔ (splitSegments text).all isSegment = true := by
  refine ⟨IsPath.splitSegments, fun proper => ?_⟩
  cases split : splitSegments text with
  | nil => exact absurd split (splitSegments_ne_nil text)
  | cons first others =>
    rw [split, List.all_cons, Bool.and_eq_true, isSegment_iff] at proper
    rcases continues_of_splitSegments split proper.1.chars proper.2 with rfl | path | ⟨_, rfl, _⟩
    · exact absurd (List.cons.inj split).1.symm proper.1.1
    · exact path
    · exact absurd (List.cons.inj split).1.symm proper.1.1

/-- The interfaces that are read are the trimmed texts of the language. -/
theorem parse_eq_ok_iff {text : String} {interface : Interface} :
    parse text = .ok interface ↔
      IsPath (Text.trimChars text.toList) ∧
        interface = ⟨String.ofList (Text.trimChars text.toList)⟩ := by
  unfold parse
  generalize Text.trimChars text.toList = trimmed
  by_cases blank : trimmed = []
  · subst blank
    simp [not_isPath_nil]
  · have some_text : ¬trimmed.isEmpty = true := by simpa using blank
    rw [isPath_iff_splitSegments, if_neg some_text]
    split
    · rename_i proper
      rw [Except.ok.injEq, eq_comm, and_iff_right proper]
    · rename_i improper
      exact iff_of_false (by simp) fun both => improper both.1

/-- A text of the language is the interface that it names. -/
theorem parse_of_isPath {text : String} (path : IsPath text.toList) : parse text = .ok ⟨text⟩ := by
  have trimmed := Text.trimChars_eq_self path.not_blank
  have some_text : ¬text.toList.isEmpty = true := by
    intro empty
    rw [List.isEmpty_iff.1 empty] at path
    exact not_isPath_nil path
  simp only [parse, trimmed, if_neg some_text, path.splitSegments, if_true, String.ofList_toList]

theorem isPath_of_parse {text : String} {interface : Interface} (read : parse text = .ok interface) :
    IsPath interface.text.toList := by
  obtain ⟨path, rfl⟩ := parse_eq_ok_iff.1 read
  rwa [String.toList_ofList]

/-! ### Joining -/

theorem isPath_intercalate {segments : List (List Char)} (some_segment : segments ≠ [])
    (proper : ∀ segment ∈ segments, IsSegment segment) : IsPath ([':', ':'].intercalate segments) := by
  obtain ⟨first, others, rfl⟩ := List.exists_cons_of_ne_nil some_segment
  induction others generalizing first with
  | nil => simpa using IsPath.last (proper first List.mem_cons_self)
  | cons next others ih =>
    obtain ⟨here, later⟩ := List.forall_mem_cons.1 proper
    simpa using IsPath.more here (ih next (List.cons_ne_nil next others) later)

theorem splitSegments_intercalate {segments : List (List Char)} (some_segment : segments ≠ [])
    (proper : ∀ segment ∈ segments, IsSegment segment) :
    splitSegments ([':', ':'].intercalate segments) = segments := by
  obtain ⟨first, others, rfl⟩ := List.exists_cons_of_ne_nil some_segment
  induction others generalizing first with
  | nil => simpa using splitSegments_segment (proper first List.mem_cons_self).chars
  | cons next others ih =>
    obtain ⟨here, later⟩ := List.forall_mem_cons.1 proper
    have cut := splitSegments_append ([':', ':'].intercalate (next :: others)) here.chars
    rw [ih next (List.cons_ne_nil next others) later] at cut
    simpa using cut

end TraitCatalog.Interface
