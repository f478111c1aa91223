import TraitCatalog.Table
import TraitCatalog.Text.Bytes

/-!
# File trees

A directory lists its entries in the order in which the file system enumerates them, which may be
any.
-/

namespace TraitCatalog

inductive FileTree where
  | file (content : Bytes)
  | directory (entries : List (Bytes × FileTree))

namespace FileTree

def child? (name : Bytes) : FileTree → Option FileTree
  | .directory entries => Entries.get? name entries
  | .file _ => none

def at? (tree : FileTree) (names : List Bytes) : Option FileTree :=
  names.foldlM (fun tree name => tree.child? name) tree

def isDirectory : FileTree → Bool
  | .directory _ => true
  | .file _ => false

/-! ### Making trees -/

/-- The entries of a directory; a file and nothing at all have none. -/
def entriesOf : Option FileTree → List (Bytes × FileTree)
  | some (.directory entries) => entries
  | _ => []

/-- Replaces the entry with a name by `f` of the old one; a new entry goes to the end. -/
def setEntry (name : Bytes) (f : Option FileTree → FileTree) :
    List (Bytes × FileTree) → List (Bytes × FileTree)
  | [] => [(name, f none)]
  | (other, tree) :: rest =>
    if other = name then (other, f (some tree)) :: rest else (other, tree) :: setEntry name f rest

/-- Replaces what is found along names by `f` of the old; directories on the way are made. -/
def update (f : Option FileTree → FileTree) : List Bytes → Option FileTree → FileTree
  | [], old => f old
  | name :: rest, old => .directory (setEntry name (update f rest) (entriesOf old))

def write (tree : FileTree) (names : List Bytes) (content : Bytes) : FileTree :=
  update (fun _ => .file content) names (some tree)

def makeDirectory (tree : FileTree) (names : List Bytes) : FileTree :=
  update (fun old => .directory (entriesOf old)) names (some tree)

end FileTree
end TraitCatalog
