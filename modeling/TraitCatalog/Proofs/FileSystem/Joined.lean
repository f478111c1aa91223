import TraitCatalog.Proofs.FileSystem.Rearranged
import TraitCatalog.Proofs.Path.Descent

/-!
# Following joined paths

A name joined to a path is one step more from where the path leads (`locate_join`), whether or not the
path ends in a slash. So the paths made on the way down a tree lead to the places there
(`locate_descend`).
-/

namespace TraitCatalog.FileSystem

/-- The empty part behind a slash asks for a directory, as any name behind it does. -/
theorem step_empty_bind (files : FileSystem) (place : List Bytes) (name : Bytes) :
    (files.step place [] >>= fun place => files.step place name) = files.step place name := by
  cases found : files.root.at? place with
  | none => simp [step, found, bind, Except.bind]
  | some tree =>
    cases tree with
    | file content => simp [step, found, bind, Except.bind]
    | directory entries =>
      have stays : files.step place [] = .ok place := by simp [step, found, Path.Component.ofPiece?]
      rw [stays]
      rfl

theorem follow_join (files : FileSystem) {path : Path} (some_path : path.bytes ≠ []) {name : Bytes}
    (proper : Path.ProperName name) (start : List Bytes) :
    (path.join ⟨name⟩).pieces.foldlM files.step start =
      path.pieces.foldlM files.step start >>= fun place => files.step place name := by
  have split : ∀ {front piece : Bytes}, Path.slash ∉ piece →
      Path.pieces ⟨front ++ Path.slash :: piece⟩ = Path.pieces ⟨front⟩ ++ [piece] := by
    intro front piece unslashed
    rw [Path.pieces_append, Path.pieces_of_unslashed unslashed]
  obtain ⟨bytes⟩ := path
  rw [Path.join_eq _ proper.not_isAbsolute]
  rcases List.eq_nil_or_concat bytes with rfl | ⟨front, last, same⟩
  · exact absurd rfl some_path
  · rw [List.concat_eq_append] at same
    by_cases slashed : last = Path.slash
    · subst same slashed
      have joined : front ++ [Path.slash] ++ Path.joint ⟨front ++ [Path.slash]⟩ ++ name =
          front ++ Path.slash :: name := by simp [Path.joint]
      rw [joined, split proper.unslashed, split List.not_mem_nil, List.foldlM_append,
        List.foldlM_append, bind_assoc]
      simp only [List.foldlM_cons, List.foldlM_nil, bind_pure, step_empty_bind]
    · have joined : bytes ++ Path.joint ⟨bytes⟩ ++ name = bytes ++ Path.slash :: name := by
        simp [Path.joint, same, slashed]
      rw [joined, split proper.unslashed, List.foldlM_append]
      simp only [List.foldlM_cons, List.foldlM_nil, bind_pure]

theorem locate_join (files : FileSystem) {path : Path} (some_path : path.bytes ≠ []) {name : Bytes}
    (proper : Path.ProperName name) :
    files.locate (path.join ⟨name⟩) =
      files.locate path >>= fun place => files.step place name := by
  have absolute : (path.join ⟨name⟩).isAbsolute = path.isAbsolute := by
    obtain ⟨byte, rest, same⟩ := List.exists_cons_of_ne_nil some_path
    simp [Path.join_eq path proper.not_isAbsolute, Path.isAbsolute, same]
  have some_join : (path.join ⟨name⟩).bytes ≠ [] := by
    simp [Path.join_eq path proper.not_isAbsolute, some_path]
  simp only [locate, List.isEmpty_eq_false_iff.2 some_join, List.isEmpty_eq_false_iff.2 some_path,
    absolute, follow_join files some_path proper, Bool.false_eq_true, ↓reduceIte]

theorem bytes_ne_nil_of_locate {files : FileSystem} {path : Path} {place : List Bytes}
    (located : files.locate path = .ok place) : path.bytes ≠ [] := by
  intro empty
  simp [locate, empty] at located

theorem bytes_ne_nil_of_find {files : FileSystem} {path : Path} {tree : FileTree}
    (found : files.find path = .ok tree) : path.bytes ≠ [] := by
  obtain ⟨place, located, _⟩ := find_eq_ok_iff.1 found
  exact bytes_ne_nil_of_locate located

theorem step_of_child {files : FileSystem} {place : List Bytes} {tree child : FileTree} {name : Bytes}
    (here : files.root.at? place = some tree) (proper : Path.ProperName name)
    (entry : tree.child? name = some child) : files.step place name = .ok (place ++ [name]) := by
  cases tree with
  | file content => cases entry
  | directory entries =>
    have present : Entries.get? name entries = some child := entry
    simp [step, here, proper.ofPiece?_eq, present]

/-- The path that was made on the way down leads down from where it started. -/
theorem locate_descend {files : FileSystem} {directory : Path} {place names : List Bytes}
    {tree found : FileTree} (located : files.locate directory = .ok place)
    (here : files.root.at? place = some tree) (sound : tree.Sound) (leads : tree.at? names = some found) :
    files.locate (directory.descend names) = .ok (place ++ names) := by
  induction names generalizing directory place tree with
  | nil => rwa [List.append_nil]
  | cons name names ih =>
    rw [FileTree.at?_cons] at leads
    obtain ⟨child, entry, later⟩ := Option.bind_eq_some_iff.1 leads
    obtain ⟨proper, soundChild⟩ := sound.child entry
    have joined : files.locate (directory.join ⟨name⟩) = .ok (place ++ [name]) := by
      rw [locate_join files (bytes_ne_nil_of_locate located) proper, located]
      exact step_of_child here proper entry
    have below : files.root.at? (place ++ [name]) = some child := by
      rw [FileTree.at?_append, here]
      exact (FileTree.at?_singleton tree name).trans entry
    have longer := ih joined below soundChild later
    rwa [List.append_assoc] at longer

/-- The path that was made on the way down leads to what is found there. -/
theorem find_descend {files : FileSystem} {directory : Path} {tree found : FileTree}
    {names : List Bytes} (start : files.find directory = .ok tree) (sound : tree.Sound)
    (leads : tree.at? names = some found) : files.find (directory.descend names) = .ok found := by
  obtain ⟨place, located, here⟩ := find_eq_ok_iff.1 start
  refine find_eq_ok_iff.2 ⟨place ++ names, locate_descend located here sound leads, ?_⟩
  rw [FileTree.at?_append, here]
  exact leads

end TraitCatalog.FileSystem
