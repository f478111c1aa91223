import TraitCatalog.Proofs.FileSystem.Rearranged

/-!
# Walking a tree

A depth-first walk comes to each file of a sound tree once, along the names that lead to it
(`Sound.mem_visits_iff`, `Sound.nodup_visits`). Where the entries of each directory are arranged by name,
files and directories together, it comes to the files in increasing order (`Sound.pairwise_visits`).
-/

namespace TraitCatalog.FileTree

mutual

/-- The names along which a depth-first walk comes to files. -/
def visits : FileTree → List (List Bytes)
  | .file _ => [[]]
  | .directory entries => visitsBelow entries

def visitsBelow : List (Bytes × FileTree) → List (List Bytes)
  | [] => []
  | (name, tree) :: rest => (tree.visits.map fun names => name :: names) ++ visitsBelow rest

end

theorem visitsBelow_eq_flatMap (entries : List (Bytes × FileTree)) :
    visitsBelow entries =
      entries.flatMap fun entry => entry.2.visits.map fun names => entry.1 :: names := by
  induction entries with
  | nil => rfl
  | cons entry rest ih => rw [visitsBelow, ih, List.flatMap_cons]

theorem Sound.mem_visits_iff {tree : FileTree} (sound : tree.Sound) {names : List Bytes} :
    names ∈ tree.visits ↔ ∃ content, tree.at? names = some (.file content) := by
  induction sound generalizing names with
  | file content =>
    rw [visits, List.mem_singleton]
    constructor
    · rintro rfl
      exact ⟨content, rfl⟩
    · rintro ⟨other, leads⟩
      cases names with
      | nil => rfl
      | cons name names => cases leads
  | directory distinct _ _ ih =>
    rw [visits, visitsBelow_eq_flatMap, List.mem_flatMap]
    constructor
    · rintro ⟨entry, present, member⟩
      obtain ⟨names, later, rfl⟩ := List.mem_map.1 member
      obtain ⟨content, leads⟩ := (ih entry present).1 later
      refine ⟨content, ?_⟩
      rw [at?_cons, child?, (Entries.get?_eq_some_iff_mem distinct).2 present]
      exact leads
    · rintro ⟨content, leads⟩
      cases names with
      | nil => cases leads
      | cons name names =>
        rw [at?_cons] at leads
        obtain ⟨child, found, later⟩ := Option.bind_eq_some_iff.1 leads
        have present : (name, child) ∈ _ := Entries.mem_of_get?_eq_some found
        exact ⟨(name, child), present, List.mem_map.2 ⟨names, (ih _ present).2 ⟨content, later⟩, rfl⟩⟩

theorem Sound.proper_of_mem_visits {tree : FileTree} (sound : tree.Sound) {names : List Bytes}
    (member : names ∈ tree.visits) : ∀ name ∈ names, Path.ProperName name := by
  obtain ⟨content, leads⟩ := sound.mem_visits_iff.1 member
  exact (sound.at? leads).1

theorem Sound.nodup_visits {tree : FileTree} (sound : tree.Sound) : tree.visits.Nodup := by
  induction sound with
  | file content =>
    rw [visits]
    exact List.pairwise_singleton _ _
  | directory distinct _ _ ih =>
    rw [visits, visitsBelow_eq_flatMap, List.nodup_iff_pairwise_ne, List.pairwise_flatMap]
    constructor
    · intro entry present
      refine List.pairwise_map.2 ((ih entry present).imp ?_)
      intro left right differ same
      exact differ (List.cons.inj same).2
    · refine (List.pairwise_map.1 distinct).imp ?_
      intro a b differ left inLeft right inRight same
      obtain ⟨_, _, rfl⟩ := List.mem_map.1 inLeft
      obtain ⟨_, _, rfl⟩ := List.mem_map.1 inRight
      exact differ (List.cons.inj same).1

/-! ### Walking by name -/

mutual

def arranged : FileTree → FileTree
  | .file content => .file content
  | .directory entries =>
    .directory ((arrangedEntries entries).mergeSort fun a b => decide (a.1 ≤ b.1))

def arrangedEntries : List (Bytes × FileTree) → List (Bytes × FileTree)
  | [] => []
  | (name, tree) :: rest => (name, tree.arranged) :: arrangedEntries rest

end

theorem arrangedEntries_eq_map (entries : List (Bytes × FileTree)) :
    arrangedEntries entries = entries.map fun entry => (entry.1, entry.2.arranged) := by
  induction entries with
  | nil => rfl
  | cons entry rest ih => rw [arrangedEntries, ih, List.map_cons]

theorem exists_perm_arranged (entries : List (Bytes × FileTree)) :
    ∃ sorted, arranged (.directory entries) = .directory sorted ∧
      sorted.Perm (entries.map fun entry => (entry.1, entry.2.arranged)) ∧
      sorted.Pairwise fun a b => a.1 ≤ b.1 := by
  refine ⟨_, by rw [arranged], ?_, ?_⟩
  · rw [← arrangedEntries_eq_map]
    exact List.mergeSort_perm _ _
  · refine (List.pairwise_mergeSort ?_ ?_ _).imp of_decide_eq_true
    · intro a b c first second
      exact decide_eq_true (List.le_trans (of_decide_eq_true first) (of_decide_eq_true second))
    · intro a b
      simpa using List.le_total a.1 b.1

theorem Sound.rearranged {tree : FileTree} (sound : tree.Sound) : tree.Rearranged tree.arranged := by
  induction sound with
  | file content =>
    rw [arranged]
    exact .file content
  | @directory entries distinct _ _ ih =>
    obtain ⟨sorted, same, perm, _⟩ := exists_perm_arranged entries
    rw [same]
    have names : (entries.map Prod.fst).Perm (sorted.map Prod.fst) := by
      have moved := (perm.map Prod.fst).symm
      rwa [List.map_map] at moved
    refine .directory names fun name leftTree rightTree inLeft inRight => ?_
    obtain ⟨⟨other, tree⟩, present, paired⟩ := List.mem_map.1 (perm.mem_iff.1 inRight)
    obtain ⟨rfl, rfl⟩ := Prod.mk.inj paired
    -- A name stands once in the directory, so the two trees have the same origin.
    have found := (Entries.get?_eq_some_iff_mem distinct).2 present
    obtain rfl := Option.some.inj (found.symm.trans ((Entries.get?_eq_some_iff_mem distinct).2 inLeft))
    exact ih _ present

/-- A walk through the arranged tree comes to the files in increasing order of the names. -/
theorem Sound.pairwise_visits {tree : FileTree} (sound : tree.Sound) :
    tree.arranged.visits.Pairwise (· < ·) := by
  induction sound with
  | file content =>
    rw [arranged, visits]
    exact List.pairwise_singleton _ _
  | @directory entries distinct _ _ ih =>
    obtain ⟨sorted, same, perm, ordered⟩ := exists_perm_arranged entries
    have different : sorted.Pairwise fun a b => a.1 ≠ b.1 := by
      have moved := (perm.map Prod.fst).nodup_iff
      rw [List.map_map] at moved
      exact List.pairwise_map.1 (moved.2 distinct)
    rw [same, visits, visitsBelow_eq_flatMap, List.pairwise_flatMap]
    constructor
    · intro entry member
      obtain ⟨original, present, rfl⟩ := List.mem_map.1 (perm.mem_iff.1 member)
      refine List.pairwise_map.2 ((ih original present).imp ?_)
      intro left right less
      exact List.cons_lt_cons_iff.2 (Or.inr ⟨rfl, less⟩)
    · refine (ordered.and different).imp ?_
      rintro a b ⟨le, differ⟩ left inLeft right inRight
      obtain ⟨_, _, rfl⟩ := List.mem_map.1 inLeft
      obtain ⟨_, _, rfl⟩ := List.mem_map.1 inRight
      exact List.cons_lt_cons_iff.2 (Or.inl (Std.lt_of_le_of_ne le differ))

end TraitCatalog.FileTree
