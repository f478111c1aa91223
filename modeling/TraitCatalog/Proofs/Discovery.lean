import TraitCatalog.Discovery
import TraitCatalog.Proofs.FileSystem.Walk

/-!
# What discovery finds

`FileSystem.Lists` says which list of paths belongs to a directory: the fragment files below it, in
strictly increasing order. There is only one such list (`Lists.unique`), `discover` gives it, and it does
not depend on the order of enumeration.
-/

namespace TraitCatalog.FileSystem

open Fragment (Format LoadError)

/-! ### Walking a tree -/

theorem fragmentPathsBelow_eq_flatMap (directory : Path) (entries : List (Bytes × FileTree)) :
    fragmentPathsBelow directory entries =
      entries.flatMap fun entry => fragmentPaths (directory.join ⟨entry.1⟩) entry.2 := by
  induction entries with
  | nil => rfl
  | cons entry rest ih => rw [fragmentPathsBelow, ih, List.flatMap_cons]

/-- The paths are those of a walk, without the ones that have no form. -/
theorem fragmentPaths_eq_visits {tree : FileTree} (sound : tree.Sound) (start : Path) :
    fragmentPaths start tree =
      (tree.visits.map start.descend).filter fun path => (Format.ofPath? path).isSome := by
  induction sound generalizing start with
  | file content =>
    by_cases supported : (Format.ofPath? start).isSome = true <;>
      simp [fragmentPaths, FileTree.visits, Path.descend, supported]
  | directory _ _ _ ih =>
    rw [fragmentPaths, fragmentPathsBelow_eq_flatMap, FileTree.visits,
      FileTree.visitsBelow_eq_flatMap, List.map_flatMap, List.filter_flatMap, List.flatMap_def,
      List.flatMap_def]
    refine congrArg List.flatten (List.map_congr_left fun entry present => ?_)
    rw [ih entry present, List.map_map]
    rfl

/-- The files that are found along names, with the extension of a fragment. -/
theorem mem_fragmentPaths_iff {tree : FileTree} (sound : tree.Sound) {start path : Path} :
    path ∈ fragmentPaths start tree ↔
      ∃ names content, tree.at? names = some (.file content) ∧ path = start.descend names ∧
        (Format.ofPath? path).isSome := by
  rw [fragmentPaths_eq_visits sound, List.mem_filter, List.mem_map]
  constructor
  · rintro ⟨⟨names, member, rfl⟩, supported⟩
    obtain ⟨content, leads⟩ := sound.mem_visits_iff.1 member
    exact ⟨names, content, leads, rfl, supported⟩
  · rintro ⟨names, content, leads, rfl, supported⟩
    exact ⟨⟨names, sound.mem_visits_iff.2 ⟨content, leads⟩, rfl⟩, supported⟩

/-- No two files below a directory have the same components. -/
theorem pairwise_fragmentPaths {tree : FileTree} (sound : tree.Sound) (start : Path) :
    (fragmentPaths start tree).Pairwise fun a b => a.components ≠ b.components := by
  rw [fragmentPaths_eq_visits sound]
  refine (List.pairwise_map.2 (sound.nodup_visits.imp_of_mem ?_)).filter _
  intro left right inLeft inRight differ same
  exact differ (Path.descend_injective start (sound.proper_of_mem_visits inLeft)
    (sound.proper_of_mem_visits inRight) same)

/-! ### The list of a directory -/

/-- A file below a directory, at any depth, with the extension of a fragment. -/
def FragmentFile (files : FileSystem) (directory path : Path) : Prop :=
  ∃ tree names content, files.find directory = .ok tree ∧ names ≠ [] ∧
    tree.at? names = some (.file content) ∧ path = directory.descend names ∧
    (Format.ofPath? path).isSome

/-- All fragment files below a directory, in strictly increasing order. -/
structure Lists (files : FileSystem) (directory : Path) (paths : List Path) : Prop where
  increasing : paths.Pairwise Path.Precedes
  complete : ∀ path, path ∈ paths ↔ files.FragmentFile directory path

theorem Lists.unique {files : FileSystem} {directory : Path} {left right : List Path}
    (leftLists : files.Lists directory left) (rightLists : files.Lists directory right) :
    left = right :=
  Path.eq_of_increasing leftLists.increasing rightLists.increasing fun path =>
    (leftLists.complete path).trans (rightLists.complete path).symm

theorem fragmentFile_iff_of_find {files : FileSystem} {directory path : Path}
    {entries : List (Bytes × FileTree)} (sound : files.root.Sound)
    (found : files.find directory = .ok (.directory entries)) :
    files.FragmentFile directory path ↔ path ∈ fragmentPathsBelow directory entries := by
  have walk : path ∈ fragmentPaths directory (.directory entries) ↔ _ :=
    mem_fragmentPaths_iff (sound_of_find sound found)
  rw [fragmentPaths] at walk
  rw [walk]
  constructor
  · rintro ⟨tree, names, content, foundTree, _, leads, same⟩
    obtain rfl := Except.ok.inj (found.symm.trans foundTree)
    exact ⟨names, content, leads, same⟩
  · rintro ⟨names, content, leads, same⟩
    refine ⟨_, names, content, found, ?_, leads, same⟩
    rintro rfl
    cases leads

theorem lists_of_find {files : FileSystem} {directory : Path} {entries : List (Bytes × FileTree)}
    (sound : files.root.Sound) (found : files.find directory = .ok (.directory entries)) :
    files.Lists directory ((fragmentPathsBelow directory entries).mergeSort Path.le) := by
  have same := List.mergeSort_perm (fragmentPathsBelow directory entries) Path.le
  constructor
  · have distinct := pairwise_fragmentPaths (sound_of_find sound found) directory
    rw [fragmentPaths] at distinct
    have differ := same.symm.pairwise distinct Ne.symm
    have ordered : ((fragmentPathsBelow directory entries).mergeSort Path.le).Pairwise
        fun a b => a.le b = true :=
      List.pairwise_mergeSort Path.le_trans Path.le_total _
    exact (ordered.and differ).imp fun both => Path.precedes_of_le both.1 both.2
  · intro path
    rw [same.mem_iff, fragmentFile_iff_of_find sound found]

/-- Discovery lists the fragment files of a directory, and refuses what is none. -/
theorem discover_cases {files : FileSystem} (sound : files.root.Sound) (directory : Path) :
    (files.isDirectory directory = false ∧
      files.discover directory = .error (.noDirectory directory)) ∨
    (files.isDirectory directory = true ∧
      ∃ paths, files.discover directory = .ok paths ∧ files.Lists directory paths) := by
  unfold isDirectory discover
  cases found : files.find directory with
  | error fault => exact Or.inl ⟨rfl, rfl⟩
  | ok tree =>
    cases tree with
    | file content => exact Or.inl ⟨rfl, rfl⟩
    | directory entries => exact Or.inr ⟨rfl, _, rfl, lists_of_find sound found⟩

/-! ### Rearranged file systems -/

namespace Rearranged

variable {left right : FileSystem} (same : left.Rearranged right)

include same

theorem fragmentFile_iff (directory path : Path) :
    left.FragmentFile directory path ↔ right.FragmentFile directory path := by
  unfold FragmentFile
  rcases same.found directory with
    ⟨fault, leftFails, rightFails⟩ | ⟨leftTree, rightTree, leftFound, rightFound, alike⟩
  · simp [leftFails, rightFails]
  · simp only [leftFound, rightFound, Except.ok.injEq]
    constructor
    · rintro ⟨_, names, content, rfl, some_name, leads, rest⟩
      exact ⟨_, names, content, rfl, some_name, (alike.at?_file_iff names content).1 leads, rest⟩
    · rintro ⟨_, names, content, rfl, some_name, leads, rest⟩
      exact ⟨_, names, content, rfl, some_name, (alike.at?_file_iff names content).2 leads, rest⟩

theorem loadFragment_eq (directory path : Path) :
    left.loadFragment directory path = right.loadFragment directory path := by
  unfold loadFragment readFragment
  rw [same.readText_eq]

theorem discover_eq (sound : left.root.Sound) (directory : Path) :
    left.discover directory = right.discover directory := by
  have rightSound := same.root.sound sound
  have kinds := same.isDirectory_eq directory
  rcases discover_cases sound directory with ⟨isNone, failed⟩ | ⟨isSome, paths, found, lists⟩
  · rcases discover_cases rightSound directory with ⟨_, rightFailed⟩ | ⟨rightSome, _⟩
    · rw [failed, rightFailed]
    · rw [isNone, rightSome] at kinds
      cases kinds
  · rcases discover_cases rightSound directory with ⟨rightNone, _⟩ | ⟨_, others, rightFound, rightLists⟩
    · rw [isSome, rightNone] at kinds
      cases kinds
    · have moved : left.Lists directory others :=
        ⟨rightLists.increasing, fun path =>
          (rightLists.complete path).trans (same.fragmentFile_iff directory path).symm⟩
      rw [found, rightFound, lists.unique moved]

theorem loadAll_eq (sound : left.root.Sound) (directory : Path) :
    left.loadAll directory = right.loadAll directory := by
  have each : left.loadFragment directory = right.loadFragment directory :=
    funext (same.loadFragment_eq directory)
  unfold loadAll
  rw [same.discover_eq sound directory, each]

end Rearranged
end TraitCatalog.FileSystem
