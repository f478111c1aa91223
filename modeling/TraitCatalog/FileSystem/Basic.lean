import TraitCatalog.FileSystem.Fault
import TraitCatalog.FileSystem.Tree
import TraitCatalog.Path

/-!
# File systems

A file system is the tree at the root and a working directory, from which relative paths start.
There are no links, so the names from the root to a place identify it.
-/

namespace TraitCatalog

structure FileSystem where
  root : FileTree
  /-- The names from the root to the working directory. -/
  working : List Bytes

namespace FileSystem

/-- Goes from a place along one part of a path. Every part needs a directory to start from, an empty
one too. -/
def step (files : FileSystem) (place : List Bytes) (piece : Bytes) :
    Except FileFault (List Bytes) :=
  match files.root.at? place with
  | none => .error .notFound
  | some (.file _) => .error .notADirectory
  | some (.directory entries) =>
    match Path.Component.ofPiece? piece with
    | some (.normal name) =>
      if (Entries.get? name entries).isSome then .ok (place ++ [name]) else .error .notFound
    | some .parent => .ok place.dropLast
    | _ => .ok place

/-- The place that a path leads to. The empty path leads nowhere. -/
def locate (files : FileSystem) (path : Path) : Except FileFault (List Bytes) :=
  if path.bytes.isEmpty then .error .notFound
  else path.pieces.foldlM files.step (if path.isAbsolute then [] else files.working)

def find (files : FileSystem) (path : Path) : Except FileFault FileTree := do
  match files.root.at? (← files.locate path) with
  | some tree => return tree
  | none => throw .notFound

def isDirectory (files : FileSystem) (path : Path) : Bool :=
  match files.find path with
  | .ok tree => tree.isDirectory
  | .error _ => false

def readText (files : FileSystem) (path : Path) : Except FileFault String :=
  match files.find path with
  | .error fault => .error fault
  | .ok (.directory _) => .error .isADirectory
  | .ok (.file content) =>
    match content.text? with
    | some text => .ok text
    | none => .error .notText

def canonical (files : FileSystem) (path : Path) : Except FileFault Path :=
  (files.locate path).map Path.ofNames

def workingPath (files : FileSystem) : Path :=
  .ofNames files.working

end FileSystem
end TraitCatalog
