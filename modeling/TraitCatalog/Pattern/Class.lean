import TraitCatalog.Pattern.Atom

/-!
# Bracketed classes

A bracketed class lists characters, ranges of them and other classes, and may join such lists by
operators. `Class.read?` reads one from behind its opening bracket and gives its depth.
-/

namespace TraitCatalog.Pattern.Class

open Json (Parsed)

/-- A class whose closing bracket has not come yet. -/
structure Level where
  /-- Nothing but hyphens has come yet. -/
  fresh : Bool := true
  /-- The depth of what stands before the last operator. -/
  before : Option Nat := none
  /-- The depths of the items behind the last operator. -/
  items : List Nat := []

namespace Level

def depth (level : Level) : Nat :=
  match level.before with
  | none => sideBySide level.items
  | some before => max before (sideBySide level.items) + 1

def add (level : Level) (depth : Nat) : Level :=
  { level with fresh := false, items := depth :: level.items }

def addHyphen (level : Level) : Level :=
  { level with items := 0 :: level.items }

def operate (level : Level) : Level :=
  { fresh := false, before := some level.depth }

end Level

inductive State where
  | opened (level : Level) (outer : List Level)
  | closed (depth : Nat)

def names : List (List Char) :=
  ["alnum".toList, "alpha".toList, "ascii".toList, "blank".toList, "cntrl".toList, "digit".toList,
    "graph".toList, "lower".toList, "print".toList, "punct".toList, "space".toList, "upper".toList,
    "word".toList, "xdigit".toList]

def name? (inside : List Char) : Option (Parsed Unit inside) :=
  match found : inside.dropWhile (· != ':') with
  | ':' :: ']' :: rest =>
    if names.contains (inside.takeWhile (· != ':')) then
      some ⟨(), rest, Nat.lt_of_succ_lt (length_lt_of_dropWhile_eq found)⟩
    else none
  | _ => none

/-- Reads a named class from behind its opening bracket, and says whether it is negated. -/
def named? : (text : List Char) → Option (Parsed Bool text)
  | ':' :: '^' :: inside => (name? inside).map fun name => (name.map fun _ => true).behind.behind
  | ':' :: inside => (name? inside).map fun name => (name.map fun _ => false).behind
  | _ => none

def item? (options : Options) : (text : List Char) → Option (Parsed Atom text)
  | [] => none
  | c :: rest =>
    if c = '\\' then (escape? options rest).map .behind
    else some (.single (.character c false) c rest)

/-- Whether a hyphen is followed by a sign with which it makes no range. The number sign of a
comment is passed over. -/
def endsRange (options : Options) (text : List Char) : Bool :=
  let next :=
    if options.spaced then
      match Text.skipBlanks text with
      | '#' :: rest => Text.skipBlanks rest
      | next => next
    else text
  next.head? == some ']' || next.head? == some '-'

def member? (options : Options) (text : List Char) : Option (Parsed Unit text) :=
  match item? options text with
  | none => none
  | some first =>
    let alone : Option (Parsed Unit text) :=
      if first.value.fitsClass options.unicode then some (first.map fun _ => ()) else none
    match found : options.skip first.rest with
    | [] => none
    | c :: rest =>
      if c = '-' && !endsRange options rest then
        match item? options (options.skip rest) with
        | none => none
        | some last =>
          if first.value.isRange options.unicode last.value then
            some ⟨(), last.rest, Nat.lt_trans (Nat.lt_of_lt_of_le last.shorter
              (options.length_skip_le rest))
                (Nat.lt_trans (Options.length_lt_of_skip_eq found) first.shorter)⟩
          else none
      else alone

/-! ### Whole classes -/

def isNegated (options : Options) (text : List Char) : Bool :=
  (options.skip text).head? == some '^'

def inside (options : Options) (text : List Char) : List Char :=
  if isNegated options text then (options.skip text).tail else text

theorem length_inside_le (options : Options) (text : List Char) :
    (inside options text).length ≤ text.length := by
  have bound := options.length_skip_le text
  unfold inside
  split
  · rw [List.length_tail]
    omega
  · exact Nat.le_refl _

/-- Whether a class may stand open. All but some characters are known of characters only. -/
def mayOpen (options : Options) (text : List Char) : Bool :=
  options.unicode || !isNegated options text

def close (level : Level) : (outer : List Level) → State
  | [] => .closed (level.depth + 1)
  | parent :: outer => .opened (parent.add (level.depth + 1)) outer

def step? (options : Options) (level : Level) (outer : List Level) :
    (text : List Char) → Option (Parsed State text)
  | [] => none
  | '[' :: rest =>
    match named? rest with
    | some name =>
      if options.unicode || !name.value then
        some (name.map fun _ => .opened (level.add 0) outer).behind
      else none
    | none =>
      if mayOpen options rest then
        some ⟨.opened {} (level :: outer), inside options rest,
          Nat.lt_succ_of_le (length_inside_le options rest)⟩
      else none
  | ']' :: rest =>
    if level.fresh && level.items.isEmpty then some (.single (.opened (level.add 0) outer) ']' rest)
    else some (.single (close level outer) ']' rest)
  | '&' :: '&' :: rest => some (Parsed.single (.opened level.operate outer) '&' rest).behind
  | '~' :: '~' :: rest => some (Parsed.single (.opened level.operate outer) '~' rest).behind
  | '-' :: rest =>
    if level.fresh then some (.single (.opened level.addHyphen outer) '-' rest)
    else
      match rest with
      | '-' :: behind => some (Parsed.single (.opened level.operate outer) '-' behind).behind
      | rest => (member? options ('-' :: rest)).map (.map fun _ => .opened (level.add 0) outer)
  | text => (member? options text).map (.map fun _ => .opened (level.add 0) outer)

def run? (options : Options) (level : Level) (outer : List Level) (text : List Char) :
    Option (Parsed Nat text) :=
  match step? options level outer (options.skip text) with
  | none => none
  | some next =>
    have shorter : next.rest.length < text.length :=
      Nat.lt_of_lt_of_le next.shorter (options.length_skip_le text)
    match next.value with
    | .closed depth => some ⟨depth, next.rest, shorter⟩
    | .opened level outer =>
      (run? options level outer next.rest).map (Parsed.within · (Nat.le_of_lt shorter))
termination_by text.length
decreasing_by exact shorter

/-- Reads a class from behind its opening bracket and gives its depth. -/
def read? (options : Options) (text : List Char) : Option (Parsed Nat text) :=
  if mayOpen options text then
    (run? options {} [] (inside options text)).map
      (Parsed.within · (length_inside_le options text))
  else none

end TraitCatalog.Pattern.Class
