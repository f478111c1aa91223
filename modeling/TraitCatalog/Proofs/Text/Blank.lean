import TraitCatalog.Text.Blank

/-!
# Passing over blanks

`skipBlanks` stops at the first character that is not blank, so what it leaves is settled by any way
to cut the blanks off (`skipBlanks_eq_cons_iff`). A text without blanks is not trimmed, and what is
trimmed off any text is blank (`trimsTo_trim`).
-/

namespace TraitCatalog.Text

def Blank (text : List Char) : Prop :=
  ∀ c ∈ text, isBlank c = true

theorem blank_nil : Blank [] :=
  fun _ member => absurd member List.not_mem_nil

theorem blank_space : Blank [' '] :=
  List.forall_mem_singleton.2 (by decide)

theorem Blank.append {left right : List Char} (leftBlank : Blank left) (rightBlank : Blank right) :
    Blank (left ++ right) :=
  List.forall_mem_append.2 ⟨leftBlank, rightBlank⟩

theorem skipBlanks_append {blanks text : List Char} (blank : Blank blanks) :
    skipBlanks (blanks ++ text) = skipBlanks text :=
  List.dropWhile_append_of_pos blank

theorem skipBlanks_cons {c : Char} {rest : List Char} (visible : isBlank c = false) :
    skipBlanks (c :: rest) = c :: rest :=
  List.dropWhile_cons_of_neg (by simp [visible])

theorem exists_blanks (text : List Char) : ∃ blanks, Blank blanks ∧ text = blanks ++ skipBlanks text :=
  ⟨text.takeWhile isBlank, List.all_eq_true.1 List.all_takeWhile,
    List.takeWhile_append_dropWhile.symm⟩

theorem isBlank_eq_false_of_skipBlanks {text rest : List Char} {c : Char}
    (left : skipBlanks text = c :: rest) : isBlank c = false := by
  have stopped := List.head?_dropWhile_not isBlank text
  rw [show text.dropWhile isBlank = c :: rest from left] at stopped
  simpa using stopped

theorem skipBlanks_eq_cons_iff {text rest : List Char} {c : Char} :
    skipBlanks text = c :: rest ↔
      isBlank c = false ∧ ∃ blanks, Blank blanks ∧ text = blanks ++ c :: rest := by
  constructor
  · intro left
    obtain ⟨blanks, blank, same⟩ := exists_blanks text
    exact ⟨isBlank_eq_false_of_skipBlanks left, blanks, blank, left ▸ same⟩
  · rintro ⟨visible, blanks, blank, rfl⟩
    rw [skipBlanks_append blank, skipBlanks_cons visible]

theorem skipBlanks_suffix (text : List Char) : skipBlanks text <:+ text :=
  List.dropWhile_suffix _

theorem skipBlanks_eq_self {text : List Char} (visible : ∀ c ∈ text, isBlank c = false) :
    skipBlanks text = text := by
  cases text with
  | nil => rfl
  | cons c rest => exact skipBlanks_cons (visible c List.mem_cons_self)

theorem trimChars_eq_self {text : List Char} (visible : ∀ c ∈ text, isBlank c = false) :
    trimChars text = text := by
  have reversed : ∀ c ∈ text.reverse, isBlank c = false :=
    fun c member => visible c (List.mem_reverse.1 member)
  rw [trimChars, skipBlanks_eq_self visible, skipBlanks_eq_self reversed, List.reverse_reverse]

/-! ### Trimming -/

/-- The second text is the first without the blanks at its two ends. -/
structure TrimsTo (text trimmed : List Char) : Prop where
  between : ∃ before behind, Blank before ∧ Blank behind ∧ text = before ++ trimmed ++ behind
  first : ∀ c ∈ trimmed.head?, isBlank c = false
  last : ∀ c ∈ trimmed.getLast?, isBlank c = false

theorem isBlank_head?_skipBlanks (text : List Char) :
    ∀ c ∈ (skipBlanks text).head?, isBlank c = false := by
  intro c first
  cases left : skipBlanks text with
  | nil => simp [left] at first
  | cons d rest =>
    rw [left] at first
    obtain rfl := Option.some.inj first
    exact isBlank_eq_false_of_skipBlanks left

theorem trimsTo_trim (text : String) : TrimsTo text.toList (trim text).toList := by
  rw [trim, String.toList_ofList]
  obtain ⟨before, blankBefore, front⟩ := exists_blanks text.toList
  obtain ⟨behind, blankBehind, back⟩ := exists_blanks (skipBlanks text.toList).reverse
  have kept : skipBlanks text.toList = trimChars text.toList ++ behind.reverse := by
    have reversed := congrArg List.reverse back
    rwa [List.reverse_reverse, List.reverse_append] at reversed
  refine ⟨⟨before, behind.reverse, blankBefore, ?_, ?_⟩, ?_, ?_⟩
  · exact fun c member => blankBehind c (List.mem_reverse.1 member)
  · rw [List.append_assoc, ← kept]
    exact front
  · -- The first character that is kept is the first that `skipBlanks` leaves.
    intro c first
    refine isBlank_head?_skipBlanks text.toList c ?_
    rw [kept, List.head?_append, Option.mem_def.1 first]
    rfl
  · intro c last
    refine isBlank_head?_skipBlanks (skipBlanks text.toList).reverse c ?_
    rwa [trimChars, List.getLast?_reverse] at last

theorem skipBlanks_eq_nil_of_blank {text : List Char} (blank : Blank text) : skipBlanks text = [] := by
  rw [← List.append_nil text, skipBlanks_append blank]
  rfl

theorem skipBlanks_eq_self_of_head? {text : List Char} (visible : ∀ c ∈ text.head?, isBlank c = false) :
    skipBlanks text = text := by
  cases text with
  | nil => rfl
  | cons c rest => exact skipBlanks_cons (visible c rfl)

theorem TrimsTo.eq_trim {text : String} {trimmed : List Char} (trims : TrimsTo text.toList trimmed) :
    trimmed = (trim text).toList := by
  obtain ⟨⟨before, behind, beforeBlank, behindBlank, cut⟩, first, last⟩ := trims
  rw [trim, String.toList_ofList, trimChars, cut, List.append_assoc, skipBlanks_append beforeBlank]
  cases trimmed with
  | nil =>
    rw [List.nil_append, skipBlanks_eq_nil_of_blank behindBlank]
    rfl
  | cons c rest =>
    have reversedBlank : Blank behind.reverse :=
      fun d member => behindBlank d (List.mem_reverse.1 member)
    rw [List.cons_append, skipBlanks_cons (first c rfl), ← List.cons_append, List.reverse_append,
      skipBlanks_append reversedBlank, skipBlanks_eq_self_of_head? (by rwa [List.head?_reverse]),
      List.reverse_reverse]

theorem trim_eq_empty_iff {text : String} : trim text = "" ↔ Blank text.toList := by
  constructor
  · intro empty
    obtain ⟨before, behind, beforeBlank, behindBlank, cut⟩ := (trimsTo_trim text).between
    rw [empty, String.toList_empty, List.append_nil] at cut
    rw [cut]
    exact beforeBlank.append behindBlank
  · intro blank
    rw [trim, trimChars, skipBlanks_eq_nil_of_blank blank]
    rfl

end TraitCatalog.Text
