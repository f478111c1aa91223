import TraitCatalog.Proofs.FileSystem.Joined

/-!
# Where a path leads

A path is followed part by part: a name leads into a directory, `..` leads out of it, and what is empty
or a lone dot stays there. `LeadsTo` says so without an order of computation, and `locate` finds exactly
the place that a path leads to (`locate_eq_ok_iff`). The path from the root to a place leads there again
(`leadsTo_ofNames`), so it can stand for every other path to that place.
-/

namespace TraitCatalog.FileSystem

inductive StepsTo (files : FileSystem) (place : List Bytes) : Bytes → List Bytes → Prop where
  | stays {piece : Bytes} {entries : List (Bytes × FileTree)}
      (here : files.root.at? place = some (.directory entries))
      (idle : piece = [] ∨ piece = [Path.dot]) : StepsTo files place piece place
  | leaves {entries : List (Bytes × FileTree)}
      (here : files.root.at? place = some (.directory entries)) :
      StepsTo files place [Path.dot, Path.dot] place.dropLast
  | enters {name : Bytes} {tree : FileTree}
      (named : ¬(name = [] ∨ name = [Path.dot]) ∧ name ≠ [Path.dot, Path.dot])
      (below : files.root.at? (place ++ [name]) = some tree) : StepsTo files place name (place ++ [name])

inductive Follows (files : FileSystem) : List Bytes → List Bytes → List Bytes → Prop where
  | done (place : List Bytes) : Follows files place [] place
  | next {place middle last pieces : List Bytes} {piece : Bytes}
      (first : files.StepsTo place piece middle) (later : Follows files middle pieces last) :
      Follows files place (piece :: pieces) last

/-- A path leads to a place, from the root or from the working directory. The empty path leads
nowhere. -/
def LeadsTo (files : FileSystem) (path : Path) (place : List Bytes) : Prop :=
  path.bytes ≠ [] ∧ files.Follows (if path.isAbsolute then [] else files.working) path.pieces place

/-! ### Following -/

theorem at?_concat_eq_some_iff {files : FileSystem} {place : List Bytes} {name : Bytes}
    {tree : FileTree} :
    files.root.at? (place ++ [name]) = some tree ↔
      ∃ entries, files.root.at? place = some (.directory entries) ∧
        Entries.get? name entries = some tree := by
  rw [FileTree.at?_append, Option.bind_eq_some_iff]
  constructor
  · rintro ⟨found, here, entry⟩
    rw [FileTree.at?_singleton] at entry
    cases found with
    | file content => cases entry
    | directory entries => exact ⟨entries, here, entry⟩
  · rintro ⟨entries, here, entry⟩
    exact ⟨_, here, (FileTree.at?_singleton _ name).trans entry⟩

theorem step_eq_ok_iff {files : FileSystem} {place next : List Bytes} {piece : Bytes} :
    files.step place piece = .ok next ↔ files.StepsTo place piece next := by
  constructor
  · intro stepped
    unfold step at stepped
    cases here : files.root.at? place with
    | none => simp [here] at stepped
    | some tree =>
      cases tree with
      | file content => simp [here] at stepped
      | directory entries =>
        simp only [here, Path.Component.ofPiece?] at stepped
        by_cases idle : piece = [] ∨ piece = [Path.dot]
        · rw [if_pos idle] at stepped
          obtain rfl := Except.ok.inj stepped
          exact .stays here idle
        · rw [if_neg idle] at stepped
          by_cases up : piece = [Path.dot, Path.dot]
          · rw [if_pos up] at stepped
            obtain rfl := Except.ok.inj stepped
            exact up ▸ .leaves here
          · rw [if_neg up] at stepped
            cases entry : Entries.get? piece entries with
            | none => simp [entry] at stepped
            | some tree =>
              simp only [entry, Option.isSome_some, if_true] at stepped
              obtain rfl := Except.ok.inj stepped
              exact .enters ⟨idle, up⟩ (at?_concat_eq_some_iff.2 ⟨entries, here, entry⟩)
  · rintro (⟨here, idle⟩ | ⟨here⟩ | ⟨named, below⟩)
    · simp [step, here, Path.Component.ofPiece?, idle]
    · simp [step, here, Path.Component.ofPiece?]
    · obtain ⟨entries, here, entry⟩ := at?_concat_eq_some_iff.1 below
      simp [step, here, Path.Component.ofPiece?, named, entry]

theorem foldlM_step_eq_ok_iff {files : FileSystem} {place last pieces : List Bytes} :
    pieces.foldlM files.step place = .ok last ↔ files.Follows place pieces last := by
  induction pieces generalizing place with
  | nil =>
    constructor
    · intro same
      obtain rfl := Except.ok.inj same
      exact .done place
    · rintro ⟨⟩
      rfl
  | cons piece pieces ih =>
    rw [List.foldlM_cons]
    constructor
    · intro followed
      cases stepped : files.step place piece with
      | error fault => simp [stepped, bind, Except.bind] at followed
      | ok middle =>
        rw [stepped] at followed
        exact .next (step_eq_ok_iff.1 stepped) (ih.1 followed)
    · rintro (_ | ⟨first, later⟩)
      rw [step_eq_ok_iff.2 first]
      exact ih.2 later

theorem locate_eq_ok_iff {files : FileSystem} {path : Path} {place : List Bytes} :
    files.locate path = .ok place ↔ files.LeadsTo path place := by
  unfold locate LeadsTo
  cases empty : path.bytes.isEmpty with
  | true => simp [List.isEmpty_iff.1 empty]
  | false =>
    have some_path : path.bytes ≠ [] := List.isEmpty_eq_false_iff.1 empty
    simp only [Bool.false_eq_true, ↓reduceIte, foldlM_step_eq_ok_iff, some_path, ne_eq,
      not_false_eq_true, true_and]

theorem LeadsTo.unique {files : FileSystem} {path : Path} {left right : List Bytes}
    (leftLeads : files.LeadsTo path left) (rightLeads : files.LeadsTo path right) : left = right :=
  Except.ok.inj ((locate_eq_ok_iff.2 leftLeads).symm.trans (locate_eq_ok_iff.2 rightLeads))

/-- A name joined to a path leads one step further, if there is something of that name. -/
theorem leadsTo_join_iff {files : FileSystem} {path : Path} (some_path : path.bytes ≠ []) {name : Bytes}
    (proper : Path.ProperName name) {last : List Bytes} :
    files.LeadsTo (path.join ⟨name⟩) last ↔
      ∃ place tree, files.LeadsTo path place ∧ last = place ++ [name] ∧
        files.root.at? last = some tree := by
  rw [← locate_eq_ok_iff, locate_join files some_path proper]
  constructor
  · intro located
    cases start : files.locate path with
    | error fault => simp [start, bind, Except.bind] at located
    | ok place =>
      rw [start] at located
      -- A proper name neither stays nor goes up.
      cases step_eq_ok_iff.1 located with
      | stays _ idle => exact (idle.elim proper.nonempty proper.notDot).elim
      | leaves => exact (proper.notDots rfl).elim
      | enters _ below => exact ⟨place, _, locate_eq_ok_iff.1 start, rfl, below⟩
  · rintro ⟨place, tree, leads, rfl, below⟩
    rw [locate_eq_ok_iff.2 leads]
    exact step_eq_ok_iff.2 (.enters ⟨not_or.2 ⟨proper.nonempty, proper.notDot⟩, proper.notDots⟩ below)

theorem isDirectory_iff {files : FileSystem} {path : Path} :
    files.isDirectory path = true ↔
      ∃ place entries, files.LeadsTo path place ∧ files.root.at? place = some (.directory entries) := by
  have found : files.isDirectory path = true ↔ ∃ entries, files.find path = .ok (.directory entries) := by
    unfold isDirectory
    cases files.find path with
    | error fault => simp
    | ok tree => cases tree <;> simp [FileTree.isDirectory]
  rw [found]
  constructor
  · rintro ⟨entries, leads⟩
    obtain ⟨place, located, here⟩ := find_eq_ok_iff.1 leads
    exact ⟨place, entries, locate_eq_ok_iff.1 located, here⟩
  · rintro ⟨place, entries, leads, here⟩
    exact ⟨entries, find_eq_ok_iff.2 ⟨place, locate_eq_ok_iff.2 leads, here⟩⟩

/-! ### Canonical paths -/

theorem locate_root {files : FileSystem} {entries : List (Bytes × FileTree)}
    (root : files.root = .directory entries) : files.locate ⟨[Path.slash]⟩ = .ok [] := by
  have here : files.root.at? [] = some (.directory entries) := congrArg some root
  have stays : files.StepsTo [] [] [] := .stays here (Or.inl rfl)
  exact locate_eq_ok_iff.2 ⟨List.cons_ne_nil _ _, .next stays (.next stays (.done []))⟩

theorem leadsTo_ofNames {files : FileSystem} (sound : files.root.Sound) {place : List Bytes}
    {entries : List (Bytes × FileTree)} (here : files.root.at? place = some (.directory entries)) :
    files.LeadsTo (.ofNames place) place := by
  -- Nothing is below a file, and the place itself is none, so there is a directory to start from.
  have top : ∃ inner, files.root = .directory inner := by
    cases root : files.root with
    | directory inner => exact ⟨inner, rfl⟩
    | file content =>
      rw [root] at here
      cases place with
      | nil => cases here
      | cons name names => cases here
  obtain ⟨inner, root⟩ := top
  rw [Path.ofNames_eq_descend (sound.at? here).1]
  exact locate_eq_ok_iff.1 (locate_descend (locate_root root) rfl sound here)

theorem canonical_of_leadsTo {files : FileSystem} {path : Path} {place : List Bytes}
    (leads : files.LeadsTo path place) : files.canonical path = .ok (.ofNames place) := by
  rw [canonical, locate_eq_ok_iff.2 leads]
  rfl

/-! ### The working directory -/

theorem locate_elsewhere (files : FileSystem) (working : List Bytes) {path : Path}
    (absolute : path.isAbsolute = true) :
    locate { files with working := working } path = files.locate path := by
  unfold locate
  rw [if_pos absolute, if_pos absolute]
  rfl

theorem isDirectory_elsewhere (files : FileSystem) (working : List Bytes) {path : Path}
    (absolute : path.isAbsolute = true) :
    isDirectory { files with working := working } path = files.isDirectory path := by
  unfold isDirectory find
  rw [locate_elsewhere files working absolute]

end TraitCatalog.FileSystem
