import TraitCatalog.Json.Quoted
import TraitCatalog.Pattern.Basic

/-!
# Atoms

An atom is the smallest part of a pattern: a character, a class with a letter for a name, an anchor.
`escape?` reads the atoms that start with a backslash.
-/

namespace TraitCatalog.Pattern

open Json (Parsed)

inductive Atom where
  /-- A character, `byte` if it is written as a byte. -/
  | character (c : Char) (byte : Bool)
  /-- Any character but a line feed. -/
  | any
  /-- Digits, blanks or word characters, or all but them. -/
  | sort (negated : Bool)
  | category
  | anchor
  /-- A place where a word starts or ends, or one where none does. -/
  | boundary
deriving DecidableEq

namespace Atom

/-- Whether the atom can be used. Bytes beyond ASCII are not whole characters, categories are known
of characters only, and words are known of bytes only. -/
def fits (unicode : Bool) : Atom → Bool
  | .character c byte => unicode || !byte || c.toNat < 0x80
  | .any => unicode
  | .sort negated => unicode || !negated
  | .category => unicode
  | .anchor => true
  | .boundary => !unicode

def fitsClass (unicode : Bool) : Atom → Bool
  | .character c _ => unicode || c.toNat < 0x80
  | .sort negated => unicode || !negated
  | .category => unicode
  | .any | .anchor | .boundary => false

def isRange (unicode : Bool) : (first last : Atom) → Bool
  | .character c byte, .character d byte' =>
    (character c byte).fitsClass unicode && (character d byte').fitsClass unicode && c ≤ d
  | _, _ => false

end Atom

/-! ### Escapes -/

/-- The punctuation and blanks that a backslash takes as they are. -/
def isEscapable (c : Char) : Bool :=
  c.toNat < 0x80 && !c.isAlphanum

def shortEscape? : Char → Option Atom
  | 'a' => some (.character '\x07' false)
  | 'f' => some (.character '\x0c' false)
  | 't' => some (.character '\t' false)
  | 'n' => some (.character '\n' false)
  | 'r' => some (.character '\r' false)
  | 'v' => some (.character '\x0b' false)
  | 'd' | 's' | 'w' => some (.sort false)
  | 'D' | 'S' | 'W' => some (.sort true)
  | 'A' | 'z' => some .anchor
  | 'b' | 'B' | '<' | '>' => some .boundary
  | c => if isEscapable c then some (.character c false) else none

def isCategory (c : Char) : Bool :=
  "clmnpszCLMNPSZ".toList.contains c

/-- Reads one hexadecimal digit and `more` others behind the digits of `value`. -/
def hexNumber? (options : Options) (value : Nat) :
    (more : Nat) → (text : List Char) → Option (Parsed Nat text)
  | more, text =>
    match found : options.skip text with
    | [] => none
    | c :: rest =>
      have shorter := Options.length_lt_of_skip_eq found
      match Json.Quoted.hexValue? c, more with
      | none, _ => none
      | some digit, 0 => some ⟨value * 16 + digit, rest, shorter⟩
      | some digit, more + 1 =>
        (hexNumber? options (value * 16 + digit) more rest).map
          (Parsed.within · (Nat.le_of_lt shorter))

/-- Reads the character with a number of `more + 1` hexadecimal digits. -/
def hexCharacter? (options : Options) (more : Nat) (byte : Bool) (text : List Char) :
    Option (Parsed Atom text) :=
  match hexNumber? options 0 more text with
  | none => none
  | some number =>
    if number.value.isValidChar then
      some (number.map fun value => .character (Char.ofNat value) byte)
    else none

def category? (options : Options) (text : List Char) : Option (Parsed Atom text) :=
  match found : options.skip text with
  | [] => none
  | c :: rest =>
    if isCategory c then some ⟨.category, rest, Options.length_lt_of_skip_eq found⟩ else none

def escape? (options : Options) : (text : List Char) → Option (Parsed Atom text)
  | [] => none
  | 'x' :: rest => (hexCharacter? options 1 true rest).map .behind
  | 'u' :: rest => (hexCharacter? options 3 false rest).map .behind
  | 'U' :: rest => (hexCharacter? options 7 false rest).map .behind
  | 'p' :: rest | 'P' :: rest => (category? options rest).map .behind
  | c :: rest => (shortEscape? c).map (.single · c rest)

end TraitCatalog.Pattern
