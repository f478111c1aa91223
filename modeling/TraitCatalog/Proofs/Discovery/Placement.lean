import TraitCatalog.Proofs.Build
import TraitCatalog.Proofs.FileSystem.Joined
import TraitCatalog.Proofs.Interface.Location

/-!
# The place of a discovered file

Finding a file, stripping the directory off its path and reading an interface off the rest look at paths in
three ways. They agree on what a path below a directory is: whatever discovery lists is placed below the
directory, and loading never refuses it for its path.
-/

namespace TraitCatalog

/-! ### Paths along names -/

namespace Path

theorem components_ofPieces {names : List Bytes} (some_name : names ≠ [])
    (proper : ∀ name ∈ names, ProperName name) : (ofPieces names).components = names.map .normal := by
  -- The names joined to the empty path are the names alone.
  have joined := descend_eq_join ⟨[]⟩ some_name proper
  rw [join_eq _ (ofPieces_relative some_name proper)] at joined
  have alone : ofPieces names = descend ⟨[]⟩ names := joined.symm
  rw [alone, components_descend _ proper]
  rfl

/-- The path leads from the directory along the rest, which has at least one name and nothing but
names. -/
structure Placed (directory path rest : Path) : Prop where
  below : path.below? directory = some rest
  components : path.components = directory.components ++ rest.components
  names : ∃ names : List Bytes, names ≠ [] ∧ rest.components = names.map .normal
  joined : directory.join rest = path

theorem placed_descend {directory : Path} (some_directory : directory.bytes ≠ []) {names : List Bytes}
    (some_name : names ≠ []) (proper : ∀ name ∈ names, ProperName name) :
    Placed directory (directory.descend names) (ofPieces names) := by
  have rest := components_ofPieces some_name proper
  refine ⟨below?_descend some_directory some_name proper, ?_, ⟨names, some_name, rest⟩,
    (descend_eq_join directory some_name proper).symm⟩
  rw [components_descend directory proper, rest]

end Path

namespace Interface

theorem names_normal_cases (path : Path) (along : List Bytes) :
    names path (along.map .normal) = .error (.notText path) ∨
      ∃ texts, names path (along.map .normal) = .ok texts ∧ texts.length = along.length := by
  induction along with
  | nil => exact Or.inr ⟨[], rfl, rfl⟩
  | cons name along ih =>
    rw [List.map_cons, names]
    cases name.text? with
    | none => exact Or.inl rfl
    | some text =>
      rcases ih with failed | ⟨texts, read, length⟩
      · exact Or.inl (by rw [failed]; rfl)
      · refine Or.inr ⟨text :: texts, by rw [read]; rfl, ?_⟩
        simp [length]

inductive LocationError.Misplaced : LocationError → Prop where
  | notRelative (path : Path) : Misplaced (.notRelative path)
  | emptyPath : Misplaced .emptyPath

theorem not_misplaced_of_ofPath {path : Path} {along : List Bytes} {error : LocationError}
    (some_name : along ≠ []) (components : path.components = along.map .normal)
    (refused : ofPath path = .error error) : ¬error.Misplaced := by
  unfold ofPath ofComponents at refused
  rw [components] at refused
  rcases names_normal_cases path along with failed | ⟨texts, read, length⟩
  · rw [failed] at refused
    cases refused
    rintro ⟨⟩
  · obtain ⟨text, last⟩ : ∃ text, texts.getLast? = some text := by
      cases texts with
      | nil => exact absurd (List.eq_nil_of_length_eq_zero length.symm) some_name
      | cons text texts => exact ⟨_, List.getLast?_cons⟩
    simp only [read, last] at refused
    split at refused
    · cases refused
      rintro ⟨⟩
    · cases refused
      rintro ⟨⟩
    · obtain ⟨cause, rfl⟩ := exists_of_mapError refused
      rintro ⟨⟩

end Interface

/-! ### Loading -/

/-- The errors about a path that discovery should not have listed. -/
inductive Fragment.LoadError.Misplaced : LoadError → Prop where
  | outside (path directory : Path) : Misplaced (.outside path directory)
  | unsupported (path : Path) : Misplaced (.unsupported path)
  | located {error : Interface.LocationError} (misplaced : error.Misplaced) :
      Misplaced (.badLocation error)

namespace FileSystem

open Fragment (Format LoadError)

theorem not_misplaced_of_readFragment {files : FileSystem} {path : Path} {error : LoadError}
    (supported : (Format.ofPath? path).isSome) (refused : files.readFragment path = .error error) :
    ¬error.Misplaced := by
  obtain ⟨format, form⟩ := Option.isSome_iff_exists.1 supported
  simp only [readFragment, form] at refused
  split at refused
  · cases refused
    rintro ⟨⟩
  · obtain ⟨cause, rfl⟩ := exists_of_mapError refused
    rintro ⟨⟩

theorem not_misplaced_of_loadFragment {files : FileSystem} {directory path rest : Path}
    {error : LoadError} (placed : Path.Placed directory path rest)
    (supported : (Format.ofPath? path).isSome)
    (refused : files.loadFragment directory path = .error error) : ¬error.Misplaced := by
  obtain ⟨names, some_name, components⟩ := placed.names
  simp only [loadFragment, placed.below] at refused
  split at refused
  · rename_i cause failed
    obtain rfl := Except.error.inj refused
    exact not_misplaced_of_readFragment supported failed
  · cases refused
  · split at refused
    · rename_i cause failed
      cases refused
      rintro (_ | _ | misplaced)
      exact Interface.not_misplaced_of_ofPath some_name components failed misplaced
    · cases refused

theorem placed_of_fragmentFile {files : FileSystem} (sound : files.root.Sound) {directory path : Path}
    (file : files.FragmentFile directory path) :
    (∃ rest, Path.Placed directory path rest) ∧ ∃ content, files.find path = .ok (.file content) := by
  obtain ⟨tree, names, content, found, some_name, leads, rfl, _⟩ := file
  have soundTree := sound_of_find sound found
  have proper := (soundTree.at? leads).1
  exact ⟨⟨_, Path.placed_descend (bytes_ne_nil_of_find found) some_name proper⟩, content,
    find_descend found soundTree leads⟩

theorem not_misplaced_of_fragmentFile {files : FileSystem} (sound : files.root.Sound)
    {directory path : Path} {error : LoadError} (file : files.FragmentFile directory path)
    (refused : files.loadFragment directory path = .error error) : ¬error.Misplaced := by
  obtain ⟨⟨rest, placed⟩, _⟩ := placed_of_fragmentFile sound file
  obtain ⟨_, _, _, _, _, _, _, supported⟩ := file
  exact not_misplaced_of_loadFragment placed supported refused

/-- However a directory is spelled, the path of a discovered file starts with it, goes on along names
only, is the directory joined with these, and leads to a file. Loading refuses no such file for its path,
and so neither does loading all of them, whatever the files hold. -/
theorem discovered_paths_are_placed {files : FileSystem} (sound : files.root.Sound) (directory : Path) :
    (∀ paths, files.discover directory = .ok paths → ∀ path ∈ paths,
      (∃ rest, Path.Placed directory path rest) ∧ (∃ content, files.find path = .ok (.file content)) ∧
      ∀ error, files.loadFragment directory path = .error error → ¬error.Misplaced) ∧
    ∀ error, files.loadAll directory = .error error → ¬error.Misplaced := by
  constructor
  · intro paths discovered path listed
    rcases discover_cases sound directory with ⟨_, failed⟩ | ⟨_, others, found, lists⟩
    · cases failed.symm.trans discovered
    · obtain rfl := Except.ok.inj (found.symm.trans discovered)
      have file := (lists.complete path).1 listed
      obtain ⟨placed, leads⟩ := placed_of_fragmentFile sound file
      exact ⟨placed, leads, fun error refused => not_misplaced_of_fragmentFile sound file refused⟩
  · intro error failed
    cases files.loading sound directory with
    | noDirectory _ loaded =>
      cases failed.symm.trans loaded
      rintro ⟨⟩
    | refused first loaded =>
      cases failed.symm.trans loaded
      exact not_misplaced_of_fragmentFile sound first.file first.refused
    | done _ _ _ loaded => cases failed.symm.trans loaded

-- The directory is spelled with a dot in front and with slashes and a dot behind. Its only file is not
-- text, and that is what it is refused for.
theorem discovered_paths_are_placed_dotted :
    let text := Bytes.ofText
    let entries : List (Bytes × FileTree) :=
      [(text "core", .directory [(text "trait.Clone.js", .file [0xFF])])]
    let files : FileSystem :=
      ⟨.directory [(text "home", .directory [(text "docs", .directory entries)])], [text "home"]⟩
    let directory := Path.ofText ".//docs/./"
    let path := Path.ofText ".//docs/./core/trait.Clone.js"
    files.root.Sound ∧ files.discover directory = .ok [path] ∧
      (∃ rest, Path.Placed directory path rest) ∧
      files.loadAll directory = .error (.unreadable path .notText) ∧
      ¬(LoadError.unreadable path .notText).Misplaced := by
  intro text entries files directory path
  have proper : ∀ name ∈ ["home", "docs", "core", "trait.Clone.js"], Path.ProperName (text name) := by
    intro name listed
    refine ⟨?_, ?_, ?_, ?_⟩ <;> revert name <;> decide
  have one : ∀ {name : Bytes} {tree : FileTree}, Path.ProperName name → tree.Sound →
      (FileTree.directory [(name, tree)]).Sound := by
    intro name tree properName sound
    exact .directory (by simp) (by simpa using properName) (by simpa using sound)
  have sound : files.root.Sound :=
    one (proper "home" (by decide)) <| one (proper "docs" (by decide)) <|
      one (proper "core" (by decide)) <| one (proper "trait.Clone.js" (by decide)) (.file _)
  have found : files.find directory = .ok (.directory entries) := by rfl
  have below : fragmentPathsBelow directory entries = [path] := by rfl
  have discovered : files.discover directory = .ok [path] := by
    simp only [discover, found, below, List.mergeSort_singleton]
  have refused : files.loadFragment directory path = .error (.unreadable path .notText) := by rfl
  have failed : files.loadAll directory = .error (.unreadable path .notText) := by
    rw [loadAll, discovered]
    show [path].mapM (files.loadFragment directory) = _
    rw [List.mapM_cons, refused]
    rfl
  obtain ⟨each, never⟩ := discovered_paths_are_placed sound directory
  obtain ⟨placed, _⟩ := each _ discovered path List.mem_cons_self
  exact ⟨sound, discovered, placed, failed, never _ failed⟩

end FileSystem
end TraitCatalog
