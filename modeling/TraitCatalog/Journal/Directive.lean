import TraitCatalog.Journal
import TraitCatalog.Pattern.Reader
import TraitCatalog.Setting
import TraitCatalog.Text.Cut

/-!
# Directives

A directive sets a threshold for the entries of the journal that it covers: all of them, those of an
area, or those with a field. `Directive.parse?` reads one, and `Directive.heavier` gives the more
specific of two.
-/

namespace TraitCatalog.Journal

/-! ### Thresholds -/

/-- The thresholds with their names, from showing nothing to showing everything. -/
def thresholds : List (List Char × Option Level) :=
  [("off".toList, none), ("error".toList, some .error), ("warn".toList, some .warn),
    ("info".toList, some .info), ("debug".toList, some .debug), ("trace".toList, some .trace)]

/-- A threshold by its place among the thresholds, or by its name in letters of either case. -/
def threshold? (text : List Char) : Option (Option Level) :=
  match (Setting.count? (String.ofList text)).bind (thresholds[·]?) with
  | some (_, threshold) => some threshold
  | none => Entries.get? (text.map Char.toLower) thresholds

/-! ### Values of fields -/

def unsigned : List Char → List Char
  | '+' :: rest | '-' :: rest => rest
  | text => text

def isExponent : List Char → Bool
  | [] => true
  | mark :: text =>
    (mark == 'e' || mark == 'E') && !(unsigned text).isEmpty && (unsigned text).all Char.isDigit

/-- Whether a text is a number with digits on one side of its point at least. -/
def isDecimal (text : List Char) : Bool :=
  let whole := text.takeWhile Char.isDigit
  match text.dropWhile Char.isDigit with
  | '.' :: rest =>
    !(whole.isEmpty && (rest.takeWhile Char.isDigit).isEmpty) &&
      isExponent (rest.dropWhile Char.isDigit)
  | rest => !whole.isEmpty && isExponent rest

/-- Whether a text is a number, infinite ones and what is no number among them. -/
def isNumber (text : List Char) : Bool :=
  let size := unsigned text
  let word := size.map Char.toLower
  isDecimal size || word == "inf".toList || word == "infinity".toList || word == "nan".toList

/-- Whether entries may be asked for a value: it is a number or a pattern. -/
def isValue (text : List Char) : Bool :=
  isNumber text || Pattern.isUsable text

/-! ### Directives -/

structure Directive where
  /-- Only areas whose name starts so are covered. -/
  area : Option (List Char) := none
  /-- Only entries with this field are covered. -/
  field : Option (List Char) := none
  /-- Only entries inside a named activity are covered, or those with a certain value in the field.
  The journal knows of neither, so nothing is covered. -/
  narrow : Bool := false
  threshold : Option Level
deriving DecidableEq

namespace Directive

def isStart (c : Char) : Bool :=
  c == '[' || c == '-' || c == ':' || c == '_' || Text.isAlphanumeric c

/-- A word alone is the threshold of all entries, or else an area that is shown in full. -/
def ofWord (word : List Char) : Directive :=
  match threshold? word with
  | some threshold => { threshold }
  | none => { area := some word, threshold := some .trace }

/-- A directive as it was written. Places in it are counted in bytes from its first character that is
not blank, and a place so counted is taken as one of the text with its blanks. -/
structure Writing where
  text : List Char

namespace Writing

def bare (writing : Writing) : List Char :=
  Text.trimChars writing.text

/-- The text from the place where an ending of the bare characters starts. -/
def onward (writing : Writing) (ending : List Char) : List Char :=
  Text.dropBytes (Text.position writing.bare ending) writing.text

def between (writing : Writing) (ending later : List Char) : List Char :=
  Text.takeBytes (Text.position ending later) (writing.onward ending)

/-- The threshold behind a subject: everything, unless an equals sign and a threshold follow. -/
def threshold? (writing : Writing) : (ending : List Char) → Option (Option Level)
  | [] => some (some .trace)
  | '=' :: ending =>
    match writing.onward ending with
    | [] => some (some .trace)
    | text => Journal.threshold? text
  | _ => none

/-- The field from behind an opening brace, of which a certain value may be asked for. -/
def field? (writing : Writing) (area : Option (List Char)) (narrow : Bool)
    (ending : List Char) : Option Directive :=
  let closing := ending.dropWhile (· != '\x7d')
  match closing, (writing.between ending closing).splitOn '=' with
  | '\x7d' :: ']' :: behind, name :: values =>
    if ending.length = closing.length || !values.head?.all isValue then none
    else
      (writing.threshold? behind).map fun threshold =>
        { area, threshold, field := some name, narrow := narrow || !values.isEmpty }
  | _, _ => none

/-- What stands behind an opening bracket: an activity, or a field in braces, or both. -/
def bracket? (writing : Writing) (area : Option (List Char)) (ending : List Char) :
    Option Directive :=
  let inActivity (c : Char) : Bool := c != ']' && c != '\x7b'
  match ending.dropWhile inActivity with
  | ']' :: behind =>
    (writing.threshold? behind).map fun threshold => { area, threshold, narrow := true }
  | _ :: field => writing.field? area (!(ending.takeWhile inActivity).isEmpty) field
  | [] => none

def directive? (writing : Writing) : Option Directive :=
  let ending := writing.bare.dropWhile fun c => c != '=' && c != '['
  let subject := writing.between writing.bare ending
  if !writing.bare.head?.any isStart then none
  else
    match ending with
    | [] => some (ofWord writing.text)
    | '[' :: ending => writing.bracket? (if subject.isEmpty then none else some subject) ending
    | _ => (writing.threshold? ending).map fun threshold => { area := some subject, threshold }

end Writing

def parse? (text : List Char) : Option Directive :=
  (Writing.mk text).directive?

def covers (directive : Directive) (entry : Entry) : Bool :=
  !directive.narrow &&
    (directive.area.all fun area => area.isPrefixOf entry.area.toList) &&
    (directive.field.all fun field => entry.hasField (String.ofList field))

/-- How specific a directive is: by the length of its area, then by its field. -/
def weight (directive : Directive) : List Nat :=
  ((directive.area.map (·.length + 1)).getD 0) ::
    ((directive.field.map fun field => 1 :: field.map Char.toNat).getD [0])

/-- The more specific of two directives, the second if they are equally so. -/
def heavier (first second : Directive) : Directive :=
  if second.weight.lex first.weight Nat.blt then first else second

end Directive
end TraitCatalog.Journal
