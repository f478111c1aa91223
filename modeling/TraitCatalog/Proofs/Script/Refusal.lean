import TraitCatalog.Proofs.Script.Grammar
import TraitCatalog.Proofs.Text.Position

/-!
# Where an array is refused

An array that was begun can be resumed with any text: the reader then answers as if it had started
there (`Begun.body_eq_error`, `Begun.reads_body`). So what stands before the place of an error can
still become an array, and with the character at that place it cannot.
-/

namespace TraitCatalog.Script

open Json (Reads reads_within)
open Text (Blank isBlank skipBlanks skipBlanks_append skipBlanks_cons skipBlanks_eq_self_of_head?
  isBlank_head?_skipBlanks isBlank_eq_false_of_skipBlanks exists_blanks byteLength position position_append)

/-- Some continuation makes the text an array that is read to its end. -/
def Viable (front : List Char) : Prop :=
  ∃ more found, Reads (body (front ++ more)) found []

/-- With this character behind the text no continuation is read as an array. -/
def Lost (front : List Char) (c : Char) : Prop :=
  ∀ more, ∃ error, body (front ++ c :: more) = .error error

def BodyError.Describes (text : List Char) : BodyError → Prop
  | .unterminated => Viable text
  | .unexpectedItem found place | .unexpectedAfter found place =>
    ∃ front behind, text = front ++ found :: behind ∧ byteLength front = place ∧ Viable front ∧
      Lost front found
  | .badLiteral place _ =>
    ∃ front behind, text = front ++ '"' :: behind ∧ byteLength front = place ∧ Viable front ∧
      ∀ literal, literal <+: '"' :: behind → ¬∃ descriptor, IsLiteral descriptor literal

/-- An array that was begun, up to where a literal or the closing bracket is due. -/
inductive Begun : List Char → Prop where
  | start {blanks : List Char} (blank : Blank blanks) : Begun blanks
  | item {front literal before blanks : List Char} {descriptor : Descriptor} (begun : Begun front)
      (written : IsLiteral descriptor literal) (beforeBlank : Blank before) (blank : Blank blanks) :
      Begun (front ++ (literal ++ (before ++ ',' :: blanks)))

/-! ### Resumption -/

theorem body_eq_error_iff {text : List Char} {error : BodyError} :
    body text = .error error ↔ descriptors text (skipBlanks text) = .error error := by
  unfold body
  cases descriptors text (skipBlanks text) <;> simp [Except.map]

theorem skipBlanks_literal {literal : List Char} {descriptor : Descriptor}
    (written : IsLiteral descriptor literal) (rest : List Char) :
    skipBlanks (literal ++ rest) = literal ++ rest := by
  obtain ⟨_, _, rfl⟩ := written
  exact skipBlanks_cons (by decide)

theorem descriptors_literal_eq_error {whole literal before more : List Char} {c : Char}
    {descriptor : Descriptor} {error : BodyError} (written : IsLiteral descriptor literal)
    (blank : Blank before) (visible : isBlank c = false)
    (refused : (c = ',' ∧ descriptors whole (skipBlanks more) = .error error) ∨
      (c ≠ ']' ∧ c ≠ ',' ∧ error = .unexpectedAfter c (position whole (c :: more)))) :
    descriptors whole (literal ++ (before ++ c :: more)) = .error error := by
  obtain ⟨text, parsed, same, read, -, next⟩ := exists_parsed written blank visible
  rw [same, descriptors_quote read next]
  obtain ⟨rfl, later⟩ | ⟨notBracket, notComma, rfl⟩ := refused
  · rw [if_neg (by decide), if_pos rfl, later]
    rfl
  · rw [if_neg notBracket, if_neg notComma]

theorem Begun.body_eq_error {front text : List Char} {error : BodyError} (begun : Begun front)
    (refused : descriptors (front ++ text) (skipBlanks text) = .error error) :
    body (front ++ text) = .error error := by
  induction begun generalizing text with
  | start blank =>
    rw [body_eq_error_iff, skipBlanks_append blank]
    exact refused
  | item begun written beforeBlank blank ih =>
    rw [List.append_assoc] at refused ⊢
    apply ih
    rw [List.append_assoc, skipBlanks_literal written, List.append_assoc, List.cons_append]
    apply descriptors_literal_eq_error written beforeBlank (by decide)
    rw [skipBlanks_append blank]
    simpa using refused

theorem Begun.reads_body {front text rest : List Char} {found : List Descriptor} (begun : Begun front)
    (read : Reads (descriptors (front ++ text) (skipBlanks text)) found rest) :
    ∃ all, Reads (body (front ++ text)) all rest := by
  induction begun generalizing text found with
  | start blank =>
    refine ⟨found, ?_⟩
    rw [body, reads_within, skipBlanks_append blank]
    exact read
  | item begun written beforeBlank blank ih =>
    rw [List.append_assoc] at read ⊢
    apply ih
    rw [List.append_assoc, skipBlanks_literal written, List.append_assoc, List.cons_append]
    apply reads_descriptors_literal written beforeBlank
    rw [skipBlanks_append blank]
    exact .inr ⟨rfl, by simpa using read⟩

/-! ### What may still become an array -/

theorem Begun.viable {front : List Char} (begun : Begun front) : Viable front := by
  obtain ⟨all, read⟩ := begun.reads_body (reads_descriptors_close (front ++ [']']) [])
  exact ⟨[']'], all, read⟩

theorem Begun.viable_literal {front literal before : List Char} {descriptor : Descriptor}
    (begun : Begun front) (written : IsLiteral descriptor literal) (blank : Blank before) :
    Viable (front ++ (literal ++ before)) := by
  have closed : Reads (descriptors (front ++ (literal ++ (before ++ [']'])))
      (skipBlanks (literal ++ (before ++ [']'])))) [descriptor] [] := by
    rw [skipBlanks_literal written]
    exact reads_descriptors_literal written blank (.inl ⟨rfl, rfl, rfl⟩)
  obtain ⟨all, read⟩ := begun.reads_body closed
  refine ⟨[']'], all, ?_⟩
  rw [List.append_assoc, List.append_assoc]
  exact read

/-! ### Errors -/

theorem Begun.refuses_item {front : List Char} {c : Char} (begun : Begun front)
    (visible : isBlank c = false) (notBracket : c ≠ ']') (notQuote : c ≠ '"') (more : List Char) :
    body (front ++ c :: more) = .error (.unexpectedItem c (byteLength front)) := by
  apply begun.body_eq_error
  rw [skipBlanks_cons visible, descriptors, if_neg notBracket, if_neg notQuote, position_append]

theorem Begun.refuses_after {front literal before : List Char} {descriptor : Descriptor} {c : Char}
    (begun : Begun front) (written : IsLiteral descriptor literal) (blank : Blank before)
    (visible : isBlank c = false) (notBracket : c ≠ ']') (notComma : c ≠ ',') (more : List Char) :
    body (front ++ (literal ++ before) ++ c :: more) =
      .error (.unexpectedAfter c (byteLength (front ++ (literal ++ before)))) := by
  have place := position_append (front ++ (literal ++ before)) (c :: more)
  rw [List.append_assoc, List.append_assoc] at place ⊢
  apply begun.body_eq_error
  rw [skipBlanks_literal written]
  apply descriptors_literal_eq_error written blank visible
  exact .inr ⟨notBracket, notComma, by rw [place]⟩

theorem not_isLiteral_of_prefix {text literal : List Char} {fault : Json.Fault}
    (unread : Json.Quoted.body text = .error fault) (begins : literal <+: '"' :: text) :
    ¬∃ descriptor, IsLiteral descriptor literal := by
  intro written
  obtain ⟨descriptor, spelling, spelled, rfl⟩ := written
  obtain ⟨rest, same⟩ := begins
  obtain ⟨parsed, read, -⟩ := Json.Quoted.reads_body_of_spells spelled rest
  have text_eq : text = spelling ++ '"' :: rest := by simpa using (List.cons.inj same).2.symm
  rw [text_eq, read] at unread
  cases unread

theorem Begun.describes {front text whole : List Char} {error : BodyError} (begun : Begun front)
    (visible : skipBlanks text = text) (cut : whole = front ++ text)
    (refused : descriptors whole text = .error error) : error.Describes whole := by
  fun_induction descriptors whole text generalizing front with
  | case1 =>
    cases refused
    rw [cut, List.append_nil]
    exact begun.viable
  | case2 => cases refused
  | case3 text fault unread =>
    cases refused
    rw [cut, position_append]
    exact ⟨front, text, rfl, rfl, begun.viable, fun literal => not_isLiteral_of_prefix unread⟩
  | case4 text literal readLiteral next =>
    cases refused
    obtain ⟨written, isLiteral, same⟩ := exists_literal readLiteral
    obtain ⟨before, blank, left⟩ := exists_blanks literal.rest
    rw [next, List.append_nil] at left
    rw [cut, same, left]
    exact begun.viable_literal isLiteral blank
  | case5 => cases refused
  | case6 text literal readLiteral more error' refusedLater _ next _ _ ih =>
    obtain rfl := Except.error.inj refused
    obtain ⟨written, before, isLiteral, beforeBlank, same⟩ := exists_literal_next readLiteral next
    obtain ⟨blanks, blank, left⟩ := exists_blanks more
    refine ih (begun.item isLiteral beforeBlank blank)
      (skipBlanks_eq_self_of_head? (isBlank_head?_skipBlanks more)) ?_ refusedLater
    rw [cut, same]
    simp only [List.append_assoc, List.cons_append, ← left]
  | case7 => cases refused
  | case8 text literal readLiteral c more next notBracket notComma _ _ =>
    cases refused
    obtain ⟨written, before, isLiteral, blank, same⟩ := exists_literal_next readLiteral next
    have visibleNext : isBlank c = false := isBlank_eq_false_of_skipBlanks next
    rw [show whole = front ++ (written ++ before) ++ c :: more by rw [cut, same]; simp, position_append]
    exact ⟨_, more, rfl, rfl, begun.viable_literal isLiteral blank,
      fun later => ⟨_, begun.refuses_after isLiteral blank visibleNext notBracket notComma later⟩⟩
  | case9 c text notBracket notQuote =>
    cases refused
    rw [cut, position_append]
    have visibleNext : isBlank c = false := isBlank_eq_false_of_skipBlanks visible
    exact ⟨front, text, rfl, rfl, begun.viable,
      fun later => ⟨_, begun.refuses_item visibleNext notBracket notQuote later⟩⟩

/-- A refusal marks the first fault. Up to its place the text can still become an array, and with the
character at that place it cannot, or no literal starts there. -/
theorem refusal_marks_first_fault (text : List Char) (error : BodyError)
    (refused : body text = .error error) : error.Describes text := by
  obtain ⟨blanks, blank, cut⟩ := exists_blanks text
  rw [body_eq_error_iff] at refused
  exact Begun.describes (.start blank)
    (skipBlanks_eq_self_of_head? (isBlank_head?_skipBlanks text)) cut refused

-- An ideographic space, a letter of two bytes and an em space stand before the fault.
theorem refusal_marks_first_fault_wide :
    body "\u3000\"é\",\u2003x]".toList = .error (.unexpectedItem 'x' 11) ∧
      BodyError.Describes "\u3000\"é\",\u2003x]".toList (.unexpectedItem 'x' 11) := by
  have ideographic : Blank ['\u3000'] := List.forall_mem_singleton.2 (by decide)
  have emSpace : Blank ['\u2003'] := List.forall_mem_singleton.2 (by decide)
  have literal : IsLiteral "é" "\"é\"".toList := ⟨_, Json.Quoted.spells_flatMap_escaped _, rfl⟩
  have refused : body "\u3000\"é\",\u2003x]".toList = .error (.unexpectedItem 'x' 11) :=
    (Begun.item (.start ideographic) literal Text.blank_nil emSpace).refuses_item (by decide)
      (by decide) (by decide) [']']
  exact ⟨refused, refusal_marks_first_fault _ _ refused⟩

end TraitCatalog.Script
