import TraitCatalog.FileSystem.Basic
import TraitCatalog.Proofs.Path.Components
import TraitCatalog.Proofs.Table

/-!
# The order of enumeration does not show

A sound tree has proper names, none of them twice in one directory. Two sound trees that differ in the
order of their entries only, in whichever of their directories, lead every path to the same place, and
what is found there differs again in nothing but that order (`FileSystem.Rearranged.found`).
-/

namespace TraitCatalog

namespace FileTree

/-- Every directory has proper names, each of them once. -/
inductive Sound : FileTree → Prop where
  | file (content : Bytes) : Sound (.file content)
  | directory {entries : List (Bytes × FileTree)} (distinct : (entries.map Prod.fst).Nodup)
      (proper : ∀ entry ∈ entries, Path.ProperName entry.1)
      (each : ∀ entry ∈ entries, Sound entry.2) : Sound (.directory entries)

/-- The same files and directories, with the entries of each directory in any order. -/
inductive Rearranged : FileTree → FileTree → Prop where
  | file (content : Bytes) : Rearranged (.file content) (.file content)
  | directory {left right : List (Bytes × FileTree)}
      (names : (left.map Prod.fst).Perm (right.map Prod.fst))
      (each : ∀ name leftTree rightTree, (name, leftTree) ∈ left → (name, rightTree) ∈ right →
        Rearranged leftTree rightTree) : Rearranged (.directory left) (.directory right)

/-! ### Following names -/

theorem at?_cons (tree : FileTree) (name : Bytes) (names : List Bytes) :
    tree.at? (name :: names) = (tree.child? name).bind fun child => child.at? names :=
  List.foldlM_cons ..

theorem at?_append (tree : FileTree) (names others : List Bytes) :
    tree.at? (names ++ others) = (tree.at? names).bind fun found => found.at? others :=
  List.foldlM_append ..

theorem at?_singleton (tree : FileTree) (name : Bytes) : tree.at? [name] = tree.child? name :=
  bind_pure _

theorem Sound.child {tree child : FileTree} {name : Bytes} (sound : tree.Sound)
    (found : tree.child? name = some child) : Path.ProperName name ∧ child.Sound := by
  cases sound with
  | file => cases found
  | directory _ proper each =>
    have member := Entries.mem_of_get?_eq_some found
    exact ⟨proper _ member, each _ member⟩

theorem Sound.at? {tree found : FileTree} {names : List Bytes} (sound : tree.Sound)
    (leads : tree.at? names = some found) : (∀ name ∈ names, Path.ProperName name) ∧ found.Sound := by
  induction names generalizing tree with
  | nil =>
    obtain rfl := Option.some.inj leads
    exact ⟨fun _ member => absurd member List.not_mem_nil, sound⟩
  | cons name names ih =>
    rw [at?_cons] at leads
    obtain ⟨child, foundChild, later⟩ := Option.bind_eq_some_iff.1 leads
    obtain ⟨proper, soundChild⟩ := sound.child foundChild
    obtain ⟨others, soundFound⟩ := ih soundChild later
    exact ⟨List.forall_mem_cons.2 ⟨proper, others⟩, soundFound⟩

/-! ### Rearranged trees -/

theorem Rearranged.sound {left right : FileTree} (same : left.Rearranged right) (sound : left.Sound) :
    right.Sound := by
  induction same with
  | file content => exact .file content
  | @directory left right names _ ih =>
    cases sound with
    | directory distinct proper each =>
      have partner : ∀ entry ∈ right, ∃ tree, (entry.1, tree) ∈ left := by
        intro entry member
        have listed := names.mem_iff.2 (List.mem_map_of_mem (f := Prod.fst) member)
        obtain ⟨⟨name, tree⟩, present, rfl⟩ := List.mem_map.1 listed
        exact ⟨tree, present⟩
      refine .directory (names.nodup_iff.1 distinct) (fun entry member => ?_) fun entry member => ?_
      · obtain ⟨tree, present⟩ := partner entry member
        exact proper (entry.1, tree) present
      · obtain ⟨tree, present⟩ := partner entry member
        exact ih _ _ _ present member (each _ present)

def Alike (left right : Option FileTree) : Prop :=
  (left = none ∧ right = none) ∨
    ∃ leftTree rightTree, left = some leftTree ∧ right = some rightTree ∧
      leftTree.Rearranged rightTree

theorem isSome_get?_of_perm {left right : List (Bytes × FileTree)}
    (names : (left.map Prod.fst).Perm (right.map Prod.fst)) (name : Bytes) :
    (Entries.get? name left).isSome ↔ (Entries.get? name right).isSome := by
  rw [Entries.isSome_get?_iff, Entries.isSome_get?_iff, names.mem_iff]

theorem Rearranged.child {left right : FileTree} (same : left.Rearranged right) (name : Bytes) :
    Alike (left.child? name) (right.child? name) := by
  cases same with
  | file content => exact Or.inl ⟨rfl, rfl⟩
  | @directory left right names each =>
    have present := isSome_get?_of_perm names name
    show Alike (Entries.get? name left) (Entries.get? name right)
    cases foundLeft : Entries.get? name left with
    | none =>
      cases foundRight : Entries.get? name right with
      | none => exact Or.inl ⟨rfl, rfl⟩
      | some tree => simp [foundLeft, foundRight] at present
    | some leftTree =>
      cases foundRight : Entries.get? name right with
      | none => simp [foundLeft, foundRight] at present
      | some rightTree =>
        exact Or.inr ⟨_, _, rfl, rfl, each name _ _ (Entries.mem_of_get?_eq_some foundLeft)
          (Entries.mem_of_get?_eq_some foundRight)⟩

theorem Rearranged.at? {left right : FileTree} (same : left.Rearranged right) (names : List Bytes) :
    Alike (left.at? names) (right.at? names) := by
  induction names generalizing left right with
  | nil => exact Or.inr ⟨left, right, rfl, rfl, same⟩
  | cons name names ih =>
    rw [at?_cons, at?_cons]
    rcases same.child name with ⟨noLeft, noRight⟩ | ⟨_, _, foundLeft, foundRight, sameChild⟩
    · rw [noLeft, noRight]
      exact Or.inl ⟨rfl, rfl⟩
    · rw [foundLeft, foundRight]
      exact ih sameChild

theorem Rearranged.at?_file_iff {left right : FileTree} (same : left.Rearranged right)
    (names : List Bytes) (content : Bytes) :
    left.at? names = some (.file content) ↔ right.at? names = some (.file content) := by
  rcases same.at? names with ⟨noLeft, noRight⟩ | ⟨_, _, foundLeft, foundRight, sameFound⟩
  · rw [noLeft, noRight]
  · rw [foundLeft, foundRight]
    cases sameFound with
    | file => exact Iff.rfl
    | directory => simp

end FileTree

namespace FileSystem

structure Rearranged (left right : FileSystem) : Prop where
  working : left.working = right.working
  root : left.root.Rearranged right.root

namespace Rearranged

variable {left right : FileSystem} (same : left.Rearranged right)

include same

theorem step_eq : left.step = right.step := by
  funext place piece
  unfold step
  rcases same.root.at? place with ⟨noLeft, noRight⟩ | ⟨_, _, foundLeft, foundRight, sameFound⟩
  · rw [noLeft, noRight]
  · rw [foundLeft, foundRight]
    cases sameFound with
    | file => rfl
    | directory names _ =>
      dsimp only
      split
      · simp only [FileTree.isSome_get?_of_perm names]
      · rfl
      · rfl

theorem locate_eq (path : Path) : left.locate path = right.locate path := by
  unfold locate
  rw [same.step_eq, same.working]

/-- A path that leads somewhere leads to rearranged trees. -/
theorem found (path : Path) :
    (∃ fault, left.find path = .error fault ∧ right.find path = .error fault) ∨
    ∃ leftTree rightTree, left.find path = .ok leftTree ∧ right.find path = .ok rightTree ∧
      leftTree.Rearranged rightTree := by
  unfold find
  rw [same.locate_eq]
  cases right.locate path with
  | error fault => exact Or.inl ⟨fault, rfl, rfl⟩
  | ok place =>
    simp only [bind, Except.bind]
    rcases same.root.at? place with ⟨noLeft, noRight⟩ | ⟨_, _, foundLeft, foundRight, sameFound⟩
    · rw [noLeft, noRight]
      exact Or.inl ⟨.notFound, rfl, rfl⟩
    · rw [foundLeft, foundRight]
      exact Or.inr ⟨_, _, rfl, rfl, sameFound⟩

theorem readText_eq (path : Path) : left.readText path = right.readText path := by
  unfold readText
  rcases same.found path with ⟨fault, leftFails, rightFails⟩ | ⟨_, _, leftFound, rightFound, alike⟩
  · rw [leftFails, rightFails]
  · rw [leftFound, rightFound]
    cases alike with
    | file => rfl
    | directory => rfl

theorem isDirectory_eq (path : Path) : left.isDirectory path = right.isDirectory path := by
  unfold isDirectory
  rcases same.found path with ⟨fault, leftFails, rightFails⟩ | ⟨_, _, leftFound, rightFound, alike⟩
  · rw [leftFails, rightFails]
  · rw [leftFound, rightFound]
    cases alike with
    | file => rfl
    | directory => rfl

end Rearranged

theorem find_eq_ok_iff {files : FileSystem} {path : Path} {tree : FileTree} :
    files.find path = .ok tree ↔
      ∃ place, files.locate path = .ok place ∧ files.root.at? place = some tree := by
  unfold find
  cases files.locate path with
  | error fault => simp [bind, Except.bind]
  | ok place => cases found : files.root.at? place <;> simp [bind, Except.bind, pure, Except.pure, found]

theorem sound_of_find {files : FileSystem} (sound : files.root.Sound) {path : Path} {tree : FileTree}
    (found : files.find path = .ok tree) : tree.Sound := by
  obtain ⟨place, _, leads⟩ := find_eq_ok_iff.1 found
  exact (sound.at? leads).2

end FileSystem
end TraitCatalog
