import TraitCatalog.Proofs.Json.Literal
import TraitCatalog.Proofs.Text.Blank
import TraitCatalog.Script.Basic

/-!
# The grammar of assignments

`IsHeader` and `IsArray` say which texts are a header and a descriptor array, in terms of the pieces
they are put together from. The two readers take such a piece off the front of a text and accept
nothing else (`header?_eq_some_iff`, `reads_body_iff`), so at most one header and one array start at
any place of a script.
-/

namespace TraitCatalog.Script

open Json (Reads reads_ok not_reads_error reads_within)
open Json.Quoted (Spells)
open Text (Blank blank_nil isBlank skipBlanks skipBlanks_append skipBlanks_cons
  skipBlanks_eq_cons_iff length_skipBlanks_le exists_blanks dropWord?_eq_some_iff position)

/-! ### Headers -/

/-- A header for a library: the word, the library in quotes of one kind, the bracket, the sign and the
opening bracket of the array, with blanks anywhere behind the word. -/
inductive IsHeader (library : List Char) : List Char → Prop where
  | mk {quote : Char} {first second third fourth : List Char}
      (kind : quote = singleQuote ∨ quote = doubleQuote) (unquoted : quote ∉ library)
      (firstBlank : Blank first) (secondBlank : Blank second) (thirdBlank : Blank third)
      (fourthBlank : Blank fourth) :
      IsHeader library ("implementors[".toList ++ (first ++ quote :: (library ++ quote ::
        (second ++ ']' :: (third ++ '=' :: (fourth ++ ['[']))))))

theorem mark?_eq_some_iff {c : Char} (visible : isBlank c = false) {text rest : List Char} :
    mark? c text = some rest ↔ ∃ blanks, Blank blanks ∧ text = blanks ++ c :: rest := by
  unfold mark?
  split
  · rename_i first tail skipped
    constructor
    · intro found
      split at found
      · rename_i same
        obtain rfl := Option.some.inj found
        exact (skipBlanks_eq_cons_iff.1 (same ▸ skipped)).2
      · cases found
    · rintro ⟨blanks, blank, rfl⟩
      rw [skipBlanks_append blank, skipBlanks_cons visible] at skipped
      obtain ⟨rfl, rfl⟩ := List.cons.inj skipped
      exact if_pos rfl
  · rename_i skipped
    constructor
    · intro found
      cases found
    · rintro ⟨blanks, blank, rfl⟩
      rw [skipBlanks_append blank, skipBlanks_cons visible] at skipped
      cases skipped

theorem upTo?_eq_some_iff {quote : Char} {text key rest : List Char} :
    upTo? quote text = some (key, rest) ↔ quote ∉ key ∧ text = key ++ quote :: rest := by
  constructor
  · intro found
    unfold upTo? at found
    split at found
    · rename_i c tail dropped
      obtain ⟨rfl, rfl⟩ := Prod.mk.inj (Option.some.inj found)
      have stopped : c = quote := by
        have head := List.head?_dropWhile_not (· != quote) text
        rw [dropped] at head
        simpa using head
      constructor
      · intro member
        simpa using List.all_eq_true.1 List.all_takeWhile quote member
      · have parts := List.takeWhile_append_dropWhile (p := (· != quote)) (l := text)
        rw [dropped, stopped] at parts
        exact parts.symm
    · cases found
  · rintro ⟨unquoted, rfl⟩
    have passed : ∀ c ∈ key, (c != quote) = true := by
      intro c member
      exact bne_iff_ne.2 fun same => unquoted (same ▸ member)
    simp [upTo?, List.dropWhile_append_of_pos passed, List.takeWhile_append_of_pos passed]

theorem isBlank_quote {quote : Char} (kind : quote = singleQuote ∨ quote = doubleQuote) :
    isBlank quote = false := by
  rcases kind with rfl | rfl <;> decide

theorem key?_eq_some_iff {text key rest : List Char} :
    key? text = some (key, rest) ↔
      ∃ quote blanks, (quote = singleQuote ∨ quote = doubleQuote) ∧ quote ∉ key ∧ Blank blanks ∧
        text = blanks ++ quote :: (key ++ quote :: rest) := by
  constructor
  · intro found
    unfold key? at found
    split at found
    · rename_i first tail skipped
      obtain ⟨-, blanks, blank, rfl⟩ := skipBlanks_eq_cons_iff.1 skipped
      have inside : (first = singleQuote ∨ first = doubleQuote) ∧
          upTo? first tail = some (key, rest) := by
        split at found
        · rename_i single
          exact ⟨Or.inl single, single ▸ found⟩
        · split at found
          · rename_i double
            exact ⟨Or.inr double, double ▸ found⟩
          · cases found
      obtain ⟨unquoted, rfl⟩ := upTo?_eq_some_iff.1 inside.2
      exact ⟨first, blanks, inside.1, unquoted, blank, rfl⟩
    · cases found
  · rintro ⟨quote, blanks, kind, unquoted, blank, rfl⟩
    have inside := upTo?_eq_some_iff.2 ⟨unquoted, Eq.refl (key ++ quote :: rest)⟩
    unfold key?
    rw [skipBlanks_append blank, skipBlanks_cons (isBlank_quote kind)]
    rcases kind with rfl | rfl
    · simpa using inside
    · simpa [show doubleQuote ≠ singleQuote by decide] using inside

theorem header?_eq_some_iff {text library rest : List Char} :
    header? text = some (library, rest) ↔
      ∃ header, IsHeader library header ∧ text = header ++ rest := by
  simp only [header?, Option.bind_eq_bind, Option.bind_eq_some_iff, Option.pure_def,
    Option.some.injEq, Prod.mk.injEq, Prod.exists, dropWord?_eq_some_iff, key?_eq_some_iff,
    mark?_eq_some_iff (show isBlank ']' = false by decide),
    mark?_eq_some_iff (show isBlank '=' = false by decide),
    mark?_eq_some_iff (show isBlank '[' = false by decide)]
  constructor
  · rintro ⟨_, rfl, _, _, ⟨quote, first, kind, unquoted, firstBlank, rfl⟩, _,
      ⟨second, secondBlank, rfl⟩, _, ⟨third, thirdBlank, rfl⟩, _, ⟨fourth, fourthBlank, rfl⟩,
      rfl, rfl⟩
    exact ⟨_, .mk kind unquoted firstBlank secondBlank thirdBlank fourthBlank, by simp⟩
  · rintro ⟨_, ⟨kind, unquoted, firstBlank, secondBlank, thirdBlank, fourthBlank⟩, rfl⟩
    exact ⟨_, List.append_assoc .., _, _, ⟨_, _, kind, unquoted, firstBlank, by simp⟩, _,
      ⟨_, secondBlank, rfl⟩, _, ⟨_, thirdBlank, rfl⟩, _, ⟨_, fourthBlank, rfl⟩, rfl, rfl⟩

/-! ### Arrays -/

def IsLiteral (descriptor : Descriptor) (text : List Char) : Prop :=
  ∃ spelling, Spells spelling descriptor.toList ∧ text = '"' :: (spelling ++ ['"'])

inductive IsItems : List Descriptor → List Char → Prop where
  | one {descriptor : Descriptor} {literal blanks : List Char}
      (written : IsLiteral descriptor literal) (blank : Blank blanks) :
      IsItems [descriptor] (literal ++ blanks)
  | more {descriptor : Descriptor} {descriptors : List Descriptor}
      {literal before behind items : List Char} (written : IsLiteral descriptor literal)
      (beforeBlank : Blank before) (behindBlank : Blank behind) (others : IsItems descriptors items) :
      IsItems (descriptor :: descriptors) (literal ++ (before ++ ',' :: (behind ++ items)))

/-- A descriptor array from behind its opening bracket; a comma may follow the last literal. -/
inductive IsArray : List Descriptor → List Char → Prop where
  | empty {blanks : List Char} (blank : Blank blanks) : IsArray [] (blanks ++ [']'])
  | items {descriptors : List Descriptor} {blanks items : List Char} (blank : Blank blanks)
      (listed : IsItems descriptors items) : IsArray descriptors (blanks ++ (items ++ [']']))
  | comma {descriptors : List Descriptor} {blanks items behind : List Char} (blank : Blank blanks)
      (listed : IsItems descriptors items) (behindBlank : Blank behind) :
      IsArray descriptors (blanks ++ (items ++ ',' :: (behind ++ [']'])))

theorem IsArray.blanks {descriptors : List Descriptor} {blanks array : List Char}
    (blank : Blank blanks) (written : IsArray descriptors array) :
    IsArray descriptors (blanks ++ array) := by
  cases written with
  | empty moreBlank =>
    rw [← List.append_assoc]
    exact .empty (blank.append moreBlank)
  | items moreBlank listed =>
    rw [← List.append_assoc]
    exact .items (blank.append moreBlank) listed
  | comma moreBlank listed behindBlank =>
    rw [← List.append_assoc]
    exact .comma (blank.append moreBlank) listed behindBlank

theorem IsArray.cons {descriptor : Descriptor} {descriptors : List Descriptor}
    {literal before array : List Char} (written : IsLiteral descriptor literal)
    (beforeBlank : Blank before) (others : IsArray descriptors array) :
    IsArray (descriptor :: descriptors) (literal ++ (before ++ ',' :: array)) := by
  cases others with
  | empty blank =>
    have whole := IsArray.comma blank_nil (.one written beforeBlank) blank
    simpa using whole
  | items blank listed =>
    have whole := IsArray.items blank_nil (.more written beforeBlank blank listed)
    simpa using whole
  | comma blank listed behindBlank =>
    have whole := IsArray.comma blank_nil (.more written beforeBlank blank listed) behindBlank
    simpa using whole

theorem exists_literal {text : List Char} {literal : Json.Parsed (List Char) text}
    (read : Json.Quoted.body text = .ok literal) :
    ∃ front, IsLiteral (String.ofList literal.value) front ∧ '"' :: text = front ++ literal.rest := by
  obtain ⟨spelling, spelled, same⟩ := Json.Quoted.reads_body_iff.1 ⟨literal, read, rfl, rfl⟩
  refine ⟨_, ⟨spelling, ?_, rfl⟩, ?_⟩
  · rwa [String.toList_ofList]
  · simpa using same

theorem exists_literal_next {text more : List Char} {c : Char} {literal : Json.Parsed (List Char) text}
    (read : Json.Quoted.body text = .ok literal) (next : skipBlanks literal.rest = c :: more) :
    ∃ front before, IsLiteral (String.ofList literal.value) front ∧ Blank before ∧
      '"' :: text = front ++ (before ++ c :: more) := by
  obtain ⟨front, written, same⟩ := exists_literal read
  obtain ⟨-, before, blank, left⟩ := skipBlanks_eq_cons_iff.1 next
  exact ⟨front, before, written, blank, left ▸ same⟩

theorem isArray_of_reads_descriptors {whole text rest : List Char} {found : List Descriptor}
    (read : Reads (descriptors whole text) found rest) :
    ∃ array, IsArray found array ∧ text = array ++ rest := by
  fun_induction descriptors whole text generalizing found with
  | case1 => exact absurd read not_reads_error
  | case2 more =>
    obtain ⟨rfl, rfl⟩ := reads_ok.1 read
    exact ⟨[']'], .empty blank_nil, rfl⟩
  | case3 => exact absurd read not_reads_error
  | case4 => exact absurd read not_reads_error
  | case5 text literal readLiteral more _ next _ =>
    obtain ⟨rfl, rfl⟩ := reads_ok.1 read
    obtain ⟨front, before, written, blank, same⟩ := exists_literal_next readLiteral next
    exact ⟨_, .items blank_nil (.one written blank), by simp [same]⟩
  | case6 => exact absurd read not_reads_error
  | case7 text literal readLiteral more others readOthers _ next _ _ ih =>
    obtain ⟨rfl, left⟩ := reads_ok.1 read
    obtain ⟨front, before, written, blank, same⟩ := exists_literal_next readLiteral next
    obtain ⟨array, writtenOthers, behind⟩ := ih ⟨others, readOthers, rfl, left⟩
    obtain ⟨blanks, blanksBlank, split⟩ := exists_blanks more
    refine ⟨_, .cons written blank (writtenOthers.blanks blanksBlank), ?_⟩
    rw [same, split, behind]
    simp
  | case8 => exact absurd read not_reads_error
  | case9 => exact absurd read not_reads_error

theorem reads_descriptors_close (whole rest : List Char) :
    Reads (descriptors whole (']' :: rest)) [] rest := by
  rw [descriptors, if_pos rfl]
  exact reads_ok.2 ⟨rfl, rfl⟩

theorem exists_parsed {literal before more : List Char} {c : Char} {descriptor : Descriptor}
    (written : IsLiteral descriptor literal) (blank : Blank before) (visible : isBlank c = false) :
    ∃ text, ∃ parsed : Json.Parsed (List Char) text,
      literal ++ (before ++ c :: more) = '"' :: text ∧ Json.Quoted.body text = .ok parsed ∧
        String.ofList parsed.value = descriptor ∧ skipBlanks parsed.rest = c :: more := by
  obtain ⟨spelling, spelled, rfl⟩ := written
  obtain ⟨parsed, read, value, left⟩ :=
    Json.Quoted.reads_body_of_spells spelled (before ++ c :: more)
  refine ⟨_, parsed, by simp, read, ?_, ?_⟩
  · rw [value, String.ofList_toList]
  · rw [left, skipBlanks_append blank, skipBlanks_cons visible]

/-- What is done behind a literal is settled by the next character that is not blank. -/
theorem descriptors_quote {whole text more : List Char} {c : Char}
    {literal : Json.Parsed (List Char) text} (read : Json.Quoted.body text = .ok literal)
    (next : skipBlanks literal.rest = c :: more) :
    descriptors whole ('"' :: text) =
      if c = ']' then .ok ⟨[String.ofList literal.value], more, length_behind_lt literal next⟩
      else if c = ',' then
        (descriptors whole (skipBlanks more)).map fun others =>
          ⟨String.ofList literal.value :: others.value, others.rest,
            Nat.lt_trans (others.within (length_skipBlanks_le more)).shorter
              (length_behind_lt literal next)⟩
      else .error (.unexpectedAfter c (position whole (c :: more))) := by
  rw [descriptors, if_neg (by decide), if_pos rfl]
  simp only [read]
  split
  · rename_i stopped
    rw [next] at stopped
    cases stopped
  · rename_i stopped
    obtain ⟨rfl, rfl⟩ := List.cons.inj (next.symm.trans stopped)
    cases descriptors whole (skipBlanks more) <;> rfl

theorem descriptors_quote_end {whole text : List Char} {literal : Json.Parsed (List Char) text}
    (read : Json.Quoted.body text = .ok literal) (next : skipBlanks literal.rest = []) :
    descriptors whole ('"' :: text) = .error .unterminated := by
  rw [descriptors, if_neg (by decide), if_pos rfl]
  simp only [read]
  split
  · rfl
  · rename_i stopped
    rw [next] at stopped
    cases stopped

/-- Behind a literal the array is closed, or a comma follows and it goes on behind the blanks. -/
theorem reads_descriptors_literal {whole literal before more rest : List Char} {c : Char}
    {descriptor : Descriptor} {others : List Descriptor} (written : IsLiteral descriptor literal)
    (blank : Blank before)
    (continued : (c = ']' ∧ others = [] ∧ more = rest) ∨
      (c = ',' ∧ Reads (descriptors whole (skipBlanks more)) others rest)) :
    Reads (descriptors whole (literal ++ (before ++ c :: more))) (descriptor :: others) rest := by
  have visible : isBlank c = false := by
    rcases continued with ⟨rfl, _⟩ | ⟨rfl, _⟩ <;> decide
  obtain ⟨text, parsed, same, read, rfl, next⟩ := exists_parsed written blank visible
  rw [same, descriptors_quote read next]
  rcases continued with ⟨rfl, rfl, rfl⟩ | ⟨rfl, parsedOthers, found, rfl, rfl⟩
  · rw [if_pos rfl]
    exact reads_ok.2 ⟨rfl, rfl⟩
  · rw [if_neg (by decide), if_pos rfl, found]
    exact reads_ok.2 ⟨rfl, rfl⟩

theorem skipBlanks_items {listed : List Descriptor} {blanks items rest : List Char}
    (blank : Blank blanks) (written : IsItems listed items) :
    skipBlanks (blanks ++ (items ++ rest)) = items ++ rest := by
  rw [skipBlanks_append blank]
  -- Items start with the quote of their first literal.
  cases written with
  | one written _ =>
    obtain ⟨_, _, rfl⟩ := written
    exact skipBlanks_cons (by decide)
  | more written _ _ _ =>
    obtain ⟨_, _, rfl⟩ := written
    exact skipBlanks_cons (by decide)

theorem reads_descriptors_items {whole items close rest : List Char} {listed : List Descriptor}
    (written : IsItems listed items)
    (closed : close = ']' :: rest ∨ ∃ behind, Blank behind ∧ close = ',' :: (behind ++ ']' :: rest)) :
    Reads (descriptors whole (items ++ close)) listed rest := by
  induction written with
  | one written blank =>
    rw [List.append_assoc]
    rcases closed with rfl | ⟨behind, behindBlank, rfl⟩
    · exact reads_descriptors_literal written blank (.inl ⟨rfl, rfl, rfl⟩)
    · refine reads_descriptors_literal written blank (.inr ⟨rfl, ?_⟩)
      rw [skipBlanks_append behindBlank, skipBlanks_cons (by decide)]
      exact reads_descriptors_close whole rest
  | more written beforeBlank behindBlank others ih =>
    rw [List.append_assoc, List.append_assoc, List.cons_append, List.append_assoc]
    refine reads_descriptors_literal written beforeBlank (.inr ⟨rfl, ?_⟩)
    rw [skipBlanks_items behindBlank others]
    exact ih

/-- An array is read from behind its opening bracket exactly when one stands there. -/
theorem reads_body_iff {text rest : List Char} {found : List Descriptor} :
    Reads (body text) found rest ↔ ∃ array, IsArray found array ∧ text = array ++ rest := by
  unfold body
  rw [reads_within]
  constructor
  · intro read
    obtain ⟨array, written, same⟩ := isArray_of_reads_descriptors read
    obtain ⟨blanks, blank, split⟩ := exists_blanks text
    refine ⟨blanks ++ array, written.blanks blank, ?_⟩
    rw [List.append_assoc, ← same, ← split]
  · rintro ⟨_, written, rfl⟩
    cases written with
    | empty blank =>
      rw [List.append_assoc, skipBlanks_append blank, List.singleton_append,
        skipBlanks_cons (by decide)]
      exact reads_descriptors_close _ rest
    | items blank listed =>
      rw [List.append_assoc, List.append_assoc, skipBlanks_items blank listed]
      exact reads_descriptors_items listed (.inl rfl)
    | comma blank listed behindBlank =>
      rw [List.append_assoc, List.append_assoc, skipBlanks_items blank listed]
      exact reads_descriptors_items listed (.inr ⟨_, behindBlank, by simp⟩)

end TraitCatalog.Script
