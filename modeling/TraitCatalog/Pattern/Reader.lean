import TraitCatalog.Pattern.Class
import TraitCatalog.Text.Letter

/-!
# Reading patterns

A pattern is read sign by sign, with the groups that stand open on a stack. `Pattern.isUsable` holds
of the patterns that are well formed, are not nested too deep and have only parts that fit.
-/

namespace TraitCatalog.Pattern

open Json (Parsed)

/-! ### What was read -/

structure Part where
  depth : Nat
  /-- Whether the part may be repeated. Options that are set may not. -/
  repeatable : Bool := true

/-- A group whose closing parenthesis has not come yet, or the whole pattern. -/
structure Level where
  /-- The depths of the alternatives that have come to their end. -/
  branches : List Nat := []
  /-- The parts of the alternative at hand, the last first. -/
  parts : List Part := []

def Level.depth (level : Level) : Nat :=
  let last := sideBySide (level.parts.map Part.depth)
  match level.branches with
  | [] => last
  | branches => branches.foldl max last + 1

def Level.add (level : Level) (part : Part) : Level :=
  { level with parts := part :: level.parts }

structure State where
  options : Options := {}
  level : Level := {}
  /-- The levels around, each with the options that hold behind the group. -/
  outer : List (Options × Level) := []
  names : List (List Char) := []

namespace State

def add (state : State) (part : Part) : State :=
  { state with level := state.level.add part }

def addAtom? (state : State) (atom : Atom) : Option State :=
  if atom.fits state.options.unicode then some (state.add ⟨0, true⟩) else none

def branch (state : State) : State :=
  { state with
    level := ⟨sideBySide (state.level.parts.map Part.depth) :: state.level.branches, []⟩ }

def repeat? (state : State) : Option State :=
  match state.level.parts with
  | ⟨depth, true⟩ :: parts =>
    some { state with level := { state.level with parts := ⟨depth + 1, true⟩ :: parts } }
  | _ => none

def enter (state : State) (options : Options) : State :=
  { state with options, level := {}, outer := (state.options, state.level) :: state.outer }

def enterNamed? (state : State) (name : List Char) : Option State :=
  if state.names.contains name then none
  else some { state.enter state.options with names := name :: state.names }

def setOptions (state : State) (options : Options) : State :=
  { state.add ⟨0, false⟩ with options }

def leave? (state : State) : Option State :=
  match state.outer with
  | [] => none
  | (options, level) :: outer =>
    some { state with options, level := level.add ⟨state.level.depth + 1, true⟩, outer }

def mayEnd (state : State) : Bool :=
  state.outer.isEmpty && state.level.depth ≤ nestingBound

end State

/-! ### Groups -/

def isName : List Char → Bool
  | [] => false
  | first :: others =>
    (first == '_' || Text.isAlphabetic first) &&
      others.all fun c => "_.[]".toList.contains c || Text.isAlphanumeric c

def name? (text : List Char) : Option (Parsed (List Char) text) :=
  match found : text.dropWhile (· != '>') with
  | [] => none
  | _ :: rest =>
    let name := text.takeWhile (· != '>')
    if isName name then some ⟨name, rest, length_lt_of_dropWhile_eq found⟩ else none

/-- Whether characters name options: each one once, and some behind a hyphen if there is one. -/
def areFlags (flags : List Char) : Bool :=
  flags.all ("imsUuRx-".toList.contains ·) && decide flags.Nodup && flags.getLast? != some '-'

/-- What flags say about an option: those behind a hyphen turn it off. -/
def flagged (flags : List Char) (flag : Char) (before : Bool) : Bool :=
  if (flags.takeWhile (· != '-')).contains flag then true
  else if flags.contains flag then false
  else before

def Options.set (options : Options) (flags : List Char) : Options :=
  ⟨flagged flags 'x' options.spaced, flagged flags 'u' options.unicode⟩

/-- Reads flags up to the colon of a group, or up to the parenthesis that closes them. -/
def flags? (state : State) (text : List Char) : Option (Parsed State text) :=
  let inFlags (c : Char) : Bool := c != ':' && c != ')'
  match found : text.dropWhile inFlags with
  | [] => none
  | c :: rest =>
    let flags := text.takeWhile inFlags
    let options := state.options.set flags
    if !areFlags flags then none
    else if c = ':' then some ⟨state.enter options, rest, length_lt_of_dropWhile_eq found⟩
    else if flags.isEmpty then none
    else some ⟨state.setOptions options, rest, length_lt_of_dropWhile_eq found⟩

def namedGroup? (state : State) (text : List Char) : Option (Parsed State text) :=
  match name? text with
  | none => none
  | some name => (state.enterNamed? name.value).map fun state => name.map fun _ => state

/-- Opens a group, from behind the question mark behind its parenthesis. -/
def marked? (state : State) : (text : List Char) → Option (Parsed State text)
  | 'P' :: '<' :: rest => (namedGroup? state rest).map (·.behind.behind)
  | '<' :: rest => (namedGroup? state rest).map .behind
  | text => flags? state text

def group? (state : State) (text : List Char) : Option (Parsed State ('(' :: text)) :=
  match found : state.options.skip text with
  | '?' :: rest =>
    (marked? state rest).map fun parsed =>
      (parsed.within (Nat.le_of_lt (Options.length_lt_of_skip_eq found))).behind
  | _ => some (.single (state.enter state.options) '(' text)

/-! ### Patterns -/

/-- What follows a sign of repetition. A question mark makes it a reluctant one. -/
def behindRepetition : List Char → List Char
  | '?' :: rest => rest
  | text => text

theorem length_behindRepetition_le (text : List Char) :
    (behindRepetition text).length ≤ text.length := by
  fun_cases behindRepetition text with
  | case1 rest => exact Nat.le_succ _
  | case2 => exact Nat.le_refl _

def repetition? (state : State) (c : Char) (rest : List Char) : Option (Parsed State (c :: rest)) :=
  state.repeat?.map fun state =>
    ⟨state, behindRepetition rest, Nat.lt_succ_of_le (length_behindRepetition_le rest)⟩

def sign? (state : State) (atom : Atom) (c : Char) (rest : List Char) :
    Option (Parsed State (c :: rest)) :=
  (state.addAtom? atom).map (.single · c rest)

def escaped? (state : State) (text : List Char) : Option (Parsed State text) :=
  match escape? state.options text with
  | none => none
  | some atom => (state.addAtom? atom.value).map fun state => atom.map fun _ => state

/-- Reads on by one sign. A brace would start a count, and patterns have no counts here. -/
def step? (state : State) : (text : List Char) → Option (Parsed State text)
  | [] => none
  | '(' :: rest => group? state rest
  | ')' :: rest => state.leave?.map (.single · ')' rest)
  | '|' :: rest => some (.single state.branch '|' rest)
  | '[' :: rest =>
    (Class.read? state.options rest).map fun parsed =>
      (parsed.map fun depth => state.add ⟨depth, true⟩).behind
  | '?' :: rest => repetition? state '?' rest
  | '*' :: rest => repetition? state '*' rest
  | '+' :: rest => repetition? state '+' rest
  | '\x7b' :: _ => none
  | '\\' :: rest => (escaped? state rest).map .behind
  | '.' :: rest => sign? state .any '.' rest
  | '^' :: rest => sign? state .anchor '^' rest
  | '$' :: rest => sign? state .anchor '$' rest
  | c :: rest => sign? state (.character c false) c rest

def run (state : State) (text : List Char) : Bool :=
  if (state.options.skip text).isEmpty then state.mayEnd
  else
    match step? state (state.options.skip text) with
    | none => false
    | some next =>
      run next.value next.rest
termination_by text.length
decreasing_by exact Nat.lt_of_lt_of_le next.shorter (state.options.length_skip_le text)

def isUsable (text : List Char) : Bool :=
  run {} text

end TraitCatalog.Pattern
