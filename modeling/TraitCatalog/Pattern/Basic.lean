import TraitCatalog.Json.Reader
import TraitCatalog.Text.Blank

/-!
# Patterns

A pattern is a regular expression. Nothing is matched with patterns here; they are only read, to
tell those that can be used from those that cannot. This module holds what the readers share: the
options under which a part of a pattern is read, and how deep its parts are nested.
-/

namespace TraitCatalog.Pattern

/-! ### Options -/

structure Options where
  /-- Blanks and comments between the signs mean nothing. -/
  spaced : Bool := false
  /-- The pattern is about characters, and not about single bytes. -/
  unicode : Bool := true
deriving DecidableEq

/-- The text behind blanks and comments. A comment goes from a number sign to the end of its
line. -/
def skipSpace : (inComment : Bool) → List Char → List Char
  | _, [] => []
  | true, c :: rest => skipSpace (c != '\n') rest
  | false, c :: rest =>
    if Text.isBlank c then skipSpace false rest
    else if c = '#' then skipSpace true rest
    else c :: rest

theorem length_skipSpace_le (inComment : Bool) (text : List Char) :
    (skipSpace inComment text).length ≤ text.length := by
  fun_induction skipSpace inComment text with
  | case1 => exact Nat.le_refl _
  | case2 c rest ih => exact Nat.le_succ_of_le ih
  | case3 c rest blank ih => exact Nat.le_succ_of_le ih
  | case4 rest blank ih => exact Nat.le_succ_of_le ih
  | case5 => exact Nat.le_refl _

def Options.skip (options : Options) (text : List Char) : List Char :=
  if options.spaced then skipSpace false text else text

theorem Options.length_skip_le (options : Options) (text : List Char) :
    (options.skip text).length ≤ text.length := by
  unfold Options.skip
  split
  · exact length_skipSpace_le false text
  · exact Nat.le_refl _

theorem Options.length_lt_of_skip_eq {options : Options} {text rest : List Char} {c : Char}
    (found : options.skip text = c :: rest) : rest.length < text.length := by
  have bound := options.length_skip_le text
  rw [found, List.length_cons] at bound
  omega

theorem length_lt_of_dropWhile_eq {text rest : List Char} {c : Char} {p : Char → Bool}
    (found : text.dropWhile p = c :: rest) : rest.length < text.length := by
  have bound := (List.dropWhile_sublist (l := text) p).length_le
  rw [found, List.length_cons] at bound
  omega

/-! ### Nesting -/

/-- The greatest depth to which the parts of a pattern may be nested. -/
def nestingBound : Nat := 250

/-- The depth of parts that stand side by side. Side by side is a level of nesting of its own. -/
def sideBySide : List Nat → Nat
  | [] => 0
  | [depth] => depth
  | depths => depths.foldl max 0 + 1

end TraitCatalog.Pattern
