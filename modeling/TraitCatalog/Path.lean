import TraitCatalog.Text.Bytes
import TraitCatalog.Text.Cut

/-!
# Paths

A path is kept as it was spelled. Its components leave the spelling aside: repeated and trailing
slashes vanish, and so does a `.` that is not the first component. Paths are compared component by
component.
-/

namespace TraitCatalog

/-- A path as it was spelled. -/
structure Path where
  bytes : Bytes
deriving DecidableEq

namespace Path

def slash : UInt8 := 0x2F

def dot : UInt8 := 0x2E

inductive Component where
  | root
  | current
  | parent
  | normal (name : Bytes)
deriving DecidableEq

def ofText (text : String) : Path :=
  ⟨Bytes.ofText text⟩

def display (path : Path) : String :=
  path.bytes.display

/-! ### Components -/

def pieces (path : Path) : List Bytes :=
  path.bytes.splitOn slash

def ofPieces (pieces : List Bytes) : Path :=
  ⟨[slash].intercalate pieces⟩

def Component.ofPiece? (piece : Bytes) : Option Component :=
  if piece = [] ∨ piece = [dot] then none
  else if piece = [dot, dot] then some .parent
  else some (.normal piece)

/-- The component of the first part: an empty one before a slash is the root. -/
def Component.ofFirst? (piece : Bytes) (alone : Bool) : Option Component :=
  if piece = [] then (if alone then none else some .root)
  else if piece = [dot] then some .current
  else ofPiece? piece

/-- Every part with the component that it is, if it is one. -/
def marked (path : Path) : List (Bytes × Option Component) :=
  match path.pieces with
  | [] => []
  | first :: others =>
    (first, Component.ofFirst? first others.isEmpty) ::
      others.map fun piece => (piece, Component.ofPiece? piece)

def components (path : Path) : List Component :=
  path.marked.filterMap Prod.snd

def isAbsolute (path : Path) : Bool :=
  path.bytes.head? == some slash

def fileName? (path : Path) : Option Bytes :=
  match path.components.getLast? with
  | some (.normal name) => some name
  | _ => none

/-- What follows the last dot of the file name, unless that dot is the first character. -/
def extension? (path : Path) : Option Bytes :=
  match path.fileName?.bind (Text.splitLast? dot) with
  | some (_ :: _, extension) => some extension
  | _ => none

/-! ### Joining and stripping -/

/-- The path from `path` on to `next`; an absolute `next` stands for itself. -/
def join (path next : Path) : Path :=
  if next.isAbsolute then next
  else if path.bytes.getLast?.getD slash = slash then ⟨path.bytes ++ next.bytes⟩
  else ⟨path.bytes ++ slash :: next.bytes⟩

def after? : List Component → List (Bytes × Option Component) →
    Option (List (Bytes × Option Component))
  | [], rest => some rest
  | _ :: _, [] => none
  | component :: components, (_, none) :: rest => after? (component :: components) rest
  | component :: components, (_, some other) :: rest =>
    if component = other then after? components rest else none

/-- The path below `directory`, spelled as before but without empty parts at its ends. -/
def below? (path directory : Path) : Option Path := do
  let rest ← after? directory.components path.marked
  let kept := rest.dropWhile fun part => part.2.isNone
  let kept := (kept.reverse.dropWhile fun part => part.2.isNone).reverse
  return ofPieces (kept.map Prod.fst)

def ofNames (names : List Bytes) : Path :=
  ⟨slash :: [slash].intercalate names⟩

/-! ### Order -/

/-- The bytes by which a component is compared: kinds first, then names. -/
def Component.key : Component → Bytes
  | .root => [0]
  | .current => [1]
  | .parent => [2]
  | .normal name => 3 :: name

def le (a b : Path) : Bool :=
  decide (a.components.map Component.key ≤ b.components.map Component.key)

end Path
end TraitCatalog
