import TraitCatalog.Proofs.Discovery
import TraitCatalog.Proofs.Interface.Location
import TraitCatalog.Proofs.Path.Descent

/-!
# Discovery as a walk by name

Discovery collects the fragment files of a directory in whichever order the entries come and sorts them
by path at the end. A walk that goes through the entries of each directory by name finds the same list
with no sorting at the end, because paths are compared component by component, as the walk goes.
-/

namespace TraitCatalog

/-! ### Names of fragments -/

theorem Path.extension?_eq_some_iff {path : Path} {name extension : Bytes}
    (named : path.fileName? = some name) :
    path.extension? = some extension ↔
      ∃ stem, stem ≠ [] ∧ name = stem ++ dot :: extension ∧ dot ∉ extension := by
  unfold extension?
  rw [named, Option.bind_some]
  constructor
  · intro found
    split at found
    · rename_i byte stem other split
      obtain rfl := Option.some.inj found
      exact ⟨byte :: stem, List.cons_ne_nil byte stem, Text.eq_of_splitLast?_eq_some split⟩
    · cases found
  · rintro ⟨stem, some_stem, rfl, absent⟩
    obtain ⟨byte, rest, rfl⟩ := List.exists_cons_of_ne_nil some_stem
    rw [Text.splitLast?_append _ absent]

theorem Fragment.Format.isSome_ofPath?_iff_extension (path : Path) :
    (ofPath? path).isSome ↔
      path.extension? = some (Bytes.ofText "js") ∨ path.extension? = some (Bytes.ofText "json") := by
  unfold ofPath?
  cases path.extension? with
  | none => simp
  | some extension =>
    dsimp only
    split
    · simp [*]
    · split <;> simp [*]

/-- A name ends in a dot and an extension, and has something before them. -/
def Fragment.Named (name : Bytes) : Prop :=
  ∃ stem extension, stem ≠ [] ∧ extension ∈ ["js", "json"] ∧
    name = stem ++ Path.dot :: Bytes.ofText extension

theorem Fragment.named_iff {path : Path} {name : Bytes} (called : path.fileName? = some name) :
    (Format.ofPath? path).isSome ↔ Named name := by
  have undotted : ∀ extension ∈ ["js", "json"], Path.dot ∉ Bytes.ofText extension := by decide
  rw [Format.isSome_ofPath?_iff_extension, Path.extension?_eq_some_iff called,
    Path.extension?_eq_some_iff called]
  constructor
  · rintro (⟨stem, some_stem, same, _⟩ | ⟨stem, some_stem, same, _⟩)
    · exact ⟨stem, "js", some_stem, by decide, same⟩
    · exact ⟨stem, "json", some_stem, by decide, same⟩
  · rintro ⟨stem, extension, some_stem, listed, same⟩
    have absent := undotted extension listed
    rcases List.mem_cons.1 listed with rfl | last
    · exact Or.inl ⟨stem, some_stem, same, absent⟩
    · obtain rfl := List.mem_singleton.1 last
      exact Or.inr ⟨stem, some_stem, same, absent⟩

namespace FileSystem

open Fragment (Format)

/-! ### The walk -/

/-- The paths of the fragment files in a tree, met on a walk by name. -/
def walk (directory : Path) (tree : FileTree) : List Path :=
  (tree.arranged.visits.map directory.descend).filter fun path => (Format.ofPath? path).isSome

theorem pairwise_walk {tree : FileTree} (sound : tree.Sound) (directory : Path) :
    (walk directory tree).Pairwise Path.Precedes := by
  have arranged := sound.rearranged.sound sound
  refine (List.pairwise_map.2 (sound.pairwise_visits.imp_of_mem ?_)).filter _
  intro left right inLeft inRight less
  exact Path.precedes_descend directory (arranged.proper_of_mem_visits inLeft)
    (arranged.proper_of_mem_visits inRight) less

theorem mem_walk_iff {tree : FileTree} (sound : tree.Sound) {directory path : Path} :
    path ∈ walk directory tree ↔ path ∈ fragmentPaths directory tree := by
  have arranged := sound.rearranged.sound sound
  have same : walk directory tree = fragmentPaths directory tree.arranged :=
    (fragmentPaths_eq_visits arranged directory).symm
  simp only [same, mem_fragmentPaths_iff arranged, mem_fragmentPaths_iff sound,
    sound.rearranged.at?_file_iff]

theorem Lists.eq_walk {files : FileSystem} {directory : Path} {paths : List Path}
    {entries : List (Bytes × FileTree)} (lists : files.Lists directory paths)
    (sound : files.root.Sound) (found : files.find directory = .ok (.directory entries)) :
    paths = walk directory (.directory entries) := by
  have below := sound_of_find sound found
  refine lists.unique ⟨pairwise_walk below directory, fun path => ?_⟩
  rw [mem_walk_iff below, fragmentFile_iff_of_find sound found, fragmentPaths]

/-- The fragment files below a directory are the files, at whatever depth, whose names end so. -/
theorem mem_fragmentPaths_iff_named {entries : List (Bytes × FileTree)}
    (sound : (FileTree.directory entries).Sound) {directory path : Path} :
    path ∈ fragmentPaths directory (.directory entries) ↔
      ∃ names name content, Fragment.Named name ∧
        (FileTree.directory entries).at? (names ++ [name]) = some (.file content) ∧
        path = directory.descend (names ++ [name]) := by
  rw [mem_fragmentPaths_iff sound]
  constructor
  · rintro ⟨along, content, leads, rfl, supported⟩
    rcases List.eq_nil_or_concat along with rfl | ⟨names, name, same⟩
    · cases leads
    · rw [List.concat_eq_append] at same
      subst same
      have called := Path.fileName?_descend directory (sound.at? leads).1
      exact ⟨names, name, content, (Fragment.named_iff called).1 supported, leads, rfl⟩
  · rintro ⟨names, name, content, named, leads, rfl⟩
    have called := Path.fileName?_descend directory (sound.at? leads).1
    exact ⟨_, content, leads, rfl, (Fragment.named_iff called).2 named⟩

/-- Discovery gives exactly the files below a directory, at whatever depth, with the name of a fragment,
each of them once and by increasing path. A walk by name meets them in the same order, so that the order of
enumeration never shows. A directory is gone into but not listed, whatever its name is. -/
theorem discover_walks_by_name {files : FileSystem} (sound : files.root.Sound) {directory : Path}
    {entries : List (Bytes × FileTree)} (found : files.find directory = .ok (.directory entries)) :
    ∃ paths, files.discover directory = .ok paths ∧
      (∀ path, path ∈ paths ↔ ∃ names name content, Fragment.Named name ∧
        (FileTree.directory entries).at? (names ++ [name]) = some (.file content) ∧
        path = directory.descend (names ++ [name])) ∧
      paths.Nodup ∧ paths.Pairwise Path.Precedes ∧
      paths = walk directory (.directory entries) ∧
      (∀ names inner, (FileTree.directory entries).at? names = some (.directory inner) →
        directory.descend names ∉ paths) ∧
      ∀ others : FileSystem, files.Rearranged others → others.discover directory = .ok paths := by
  have below := sound_of_find sound found
  obtain ⟨paths, discovered, lists⟩ :
      ∃ paths, files.discover directory = .ok paths ∧ files.Lists directory paths :=
    ⟨_, by rw [discover, found], lists_of_find sound found⟩
  have members : ∀ path, path ∈ paths ↔ path ∈ fragmentPathsBelow directory entries := fun path =>
    (lists.complete path).trans (fragmentFile_iff_of_find sound found)
  refine ⟨paths, discovered, fun path => ?_, Path.nodup_of_increasing lists.increasing, lists.increasing,
    lists.eq_walk sound found, fun names inner leads listed => ?_, fun others same => ?_⟩
  · rw [members, ← mem_fragmentPaths_iff_named below, fragmentPaths]
  · have file : directory.descend names ∈ fragmentPaths directory (.directory entries) := by
      rw [fragmentPaths]
      exact (members _).1 listed
    obtain ⟨others, content, otherLeads, same, _⟩ := (mem_fragmentPaths_iff below).1 file
    obtain rfl := Path.descend_injective directory (below.at? leads).1 (below.at? otherLeads).1
      (congrArg Path.components same)
    cases leads.symm.trans otherLeads
  · rw [← same.discover_eq sound, discovered]

-- By whole text `fmt-x/a.js` would come before `fmt/b.js`. The directory `pages.js` is not listed, and
-- the file `.js` has no extension.
theorem discover_walks_by_name_between_directories :
    let text := Bytes.ofText
    let entries : List (Bytes × FileTree) :=
      [(text "pages.js", .directory [(text "c.d.json", .file [])]), (text ".js", .file []),
        (text "fmt-x", .directory [(text "a.js", .file [])]),
        (text "fmt", .directory [(text "notes.txt", .file []), (text "b.js", .file [])])]
    let files : FileSystem := ⟨.directory [(text "docs", .directory entries)], []⟩
    files.root.Sound ∧ files.find (.ofText "./docs//") = .ok (.directory entries) ∧
      files.discover (.ofText "./docs//") = .ok
        [.ofText "./docs//fmt/b.js", .ofText "./docs//fmt-x/a.js",
          .ofText "./docs//pages.js/c.d.json"] := by
  intro text entries files
  have proper : ∀ name ∈ ["docs", "pages.js", "c.d.json", ".js", "fmt-x", "a.js", "fmt", "notes.txt",
      "b.js"], Path.ProperName (text name) := by
    intro name listed
    refine ⟨?_, ?_, ?_, ?_⟩ <;> revert name <;> decide
  have file := FileTree.Sound.file []
  have sound : files.root.Sound := by
    refine .directory (by decide) (by simp [proper]) (List.forall_mem_singleton.2 ?_)
    refine .directory (by decide) (by simp [entries, proper]) ?_
    simp only [entries, List.forall_mem_cons]
    refine ⟨?_, file, ?_, ?_, by simp⟩ <;> refine .directory (by decide) ?_ ?_ <;> simp [proper, file]
  have found : files.find (.ofText "./docs//") = .ok (.directory entries) := by rfl
  have listed : fragmentPaths (.ofText "./docs//") (.directory entries) =
      [.ofText "./docs//pages.js/c.d.json", .ofText "./docs//fmt-x/a.js",
        .ofText "./docs//fmt/b.js"] := by rfl
  obtain ⟨paths, discovered, members, _, increasing, _⟩ := discover_walks_by_name sound found
  refine ⟨sound, found, discovered.trans (congrArg _ (Path.eq_of_increasing increasing ?_ ?_))⟩
  · unfold Path.Precedes
    decide
  · intro path
    rw [members, ← mem_fragmentPaths_iff_named (sound_of_find sound found), listed]
    simp only [List.mem_cons, List.not_mem_nil, or_false]
    grind

end FileSystem
end TraitCatalog
