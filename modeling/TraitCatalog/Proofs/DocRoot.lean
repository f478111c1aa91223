import TraitCatalog.DocRoot
import TraitCatalog.Proofs.FileSystem.Resolution

/-!
# Finding the documentation root

A root that is named is taken or refused for itself (`Named`), whatever else could have named one;
without a name the nearest root around the working directory is taken (`Nearest`). The check follows the
path as it is spelled, with a name joined to it, and the answer is the place that the path alone leads to.
The two agree (`isRoot_iff`), so what is answered can be used as it is (`Usable`).
-/

namespace TraitCatalog.DocRoot

open FileSystem

def RootAt (files : FileSystem) (place : List Bytes) : Prop :=
  ∃ entries, files.root.at? (place ++ [Bytes.ofText "implementors"]) = some (.directory entries)

/-- The answer where a path was named: the place that it leads to, if that is a root, or a refusal of
this path. From the root of the file system a path has the same answer in every working directory. -/
structure Named (files : FileSystem) (path : Path) (source : Source)
    (answer : FileSystem → Except Error Path) : Prop where
  accepted : (∃ root, answer files = .ok root) ↔
    files.isDirectory (path.join (.ofText "implementors")) = true
  place : ∀ root, answer files = .ok root ↔
    ∃ place, files.LeadsTo path place ∧ RootAt files place ∧ root = .ofNames place
  refused : ∀ error, answer files = .error error ↔
    files.isDirectory (path.join (.ofText "implementors")) = false ∧ error = .notARoot path source
  alone : path.isAbsolute = true → ∀ working, answer { files with working := working } = answer files

/-- Of the working directory and those around it, the innermost that is a root. -/
structure Innermost (files : FileSystem) (place : List Bytes) : Prop where
  around : place <+: files.working
  root : RootAt files place
  inner : ∀ other, other <+: files.working → RootAt files other → other <+: place

structure Nearest (files : FileSystem) (answer : Except Error Path) : Prop where
  place : ∀ root, answer = .ok root ↔ ∃ place, Innermost files place ∧ root = .ofNames place
  refused : ∀ error, answer = .error error ↔
    (∀ place, place <+: files.working → ¬RootAt files place) ∧ error = .noneAround files.workingPath

/-- A path from the root of the file system, without dots, to a directory with fragments. -/
structure Usable (files : FileSystem) (root : Path) : Prop where
  absolute : root.isAbsolute = true
  undotted : [Path.dot] ∉ root.pieces ∧ [Path.dot, Path.dot] ∉ root.pieces
  holds : files.isDirectory (root.join (.ofText "implementors")) = true
  canonical : files.canonical root = .ok root

/-! ### Roots -/

theorem properName_fragmentsName : Path.ProperName fragmentsName.bytes :=
  ⟨by decide, by decide, by decide, by decide⟩

theorem isRoot_iff {files : FileSystem} {path : Path} (some_path : path.bytes ≠ []) :
    isRoot files path = true ↔ ∃ place, files.LeadsTo path place ∧ RootAt files place := by
  unfold isRoot
  rw [isDirectory_iff]
  constructor
  · rintro ⟨last, entries, leads, here⟩
    obtain ⟨place, _, start, rfl, _⟩ := (leadsTo_join_iff some_path properName_fragmentsName).1 leads
    exact ⟨place, start, entries, here⟩
  · rintro ⟨place, leads, entries, here⟩
    exact ⟨_, entries, (leadsTo_join_iff some_path properName_fragmentsName).2
      ⟨place, _, leads, rfl, here⟩, here⟩

theorem RootAt.directory {files : FileSystem} {place : List Bytes} (root : RootAt files place) :
    ∃ entries, files.root.at? place = some (.directory entries) := by
  obtain ⟨_, below⟩ := root
  obtain ⟨entries, here, _⟩ := at?_concat_eq_some_iff.1 below
  exact ⟨entries, here⟩

theorem usable_ofNames {files : FileSystem} (sound : files.root.Sound) {place : List Bytes}
    (root : RootAt files place) : Usable files (.ofNames place) := by
  obtain ⟨entries, here⟩ := root.directory
  have leads := leadsTo_ofNames sound here
  have proper := (sound.at? here).1
  have dotless : ∀ piece ∈ (Path.ofNames place).pieces,
      piece ≠ [Path.dot] ∧ piece ≠ [Path.dot, Path.dot] := by
    intro piece member
    rcases Path.pieces_ofNames proper piece member with rfl | listed
    · decide
    · exact ⟨(proper piece listed).notDot, (proper piece listed).notDots⟩
  refine ⟨rfl, ⟨fun member => ?_, fun member => ?_⟩, ?_, canonical_of_leadsTo leads⟩
  · exact (dotless _ member).1 rfl
  · exact (dotless _ member).2 rfl
  · exact (isRoot_iff (Path.bytes_ofNames_ne_nil place)).2 ⟨place, leads, root⟩

/-! ### Named roots -/

theorem find_of_isRoot {files : FileSystem} {option : Option Path} {setting : Option Bytes}
    {path : Path} {source : Source} (named : named? option setting = some (path, source))
    {place : List Bytes} (leads : files.LeadsTo path place) (root : isRoot files path = true) :
    find files option setting = .ok (.ofNames place) := by
  simp only [find, choose, named, root, if_true, canonical_of_leadsTo leads]
  rfl

theorem find_of_not_isRoot {files : FileSystem} {option : Option Path} {setting : Option Bytes}
    {path : Path} {source : Source} (named : named? option setting = some (path, source))
    (refused : isRoot files path = false) :
    find files option setting = .error (.notARoot path source) := by
  simp [find, choose, named, refused]

theorem find_elsewhere (files : FileSystem) (working : List Bytes) {option : Option Path}
    {setting : Option Bytes} {path : Path} {source : Source}
    (named : named? option setting = some (path, source)) (absolute : path.isAbsolute = true) :
    find { files with working := working } option setting = find files option setting := by
  have check : isRoot { files with working := working } path = isRoot files path :=
    isDirectory_elsewhere files working (Path.isAbsolute_join absolute)
  have place : canonical { files with working := working } path = files.canonical path := by
    unfold canonical
    rw [locate_elsewhere files working absolute]
  simp only [find, choose, named, check]
  cases isRoot files path with
  | false => rfl
  | true => simp only [if_true, place]

theorem named_find (files : FileSystem) {option : Option Path} {setting : Option Bytes}
    {path : Path} {source : Source} (named : named? option setting = some (path, source))
    (some_path : path.bytes ≠ []) :
    Named files path source fun files => find files option setting := by
  have alone := fun absolute working => find_elsewhere files working named absolute
  have check : isRoot files path = files.isDirectory (path.join (.ofText "implementors")) := rfl
  cases root : isRoot files path with
  | true =>
    obtain ⟨place, leads, rootAt⟩ := (isRoot_iff some_path).1 root
    have found := find_of_isRoot named leads root
    refine ⟨?_, fun answer => ?_, fun error => ?_, alone⟩
    · exact iff_of_true ⟨_, found⟩ (check ▸ root)
    · rw [found]
      constructor
      · intro same
        exact ⟨place, leads, rootAt, (Except.ok.inj same).symm⟩
      · rintro ⟨other, otherLeads, _, rfl⟩
        rw [leads.unique otherLeads]
    · rw [found, ← check, root]
      simp
  | false =>
    have failed := find_of_not_isRoot named root
    have nowhere : ¬∃ place, files.LeadsTo path place ∧ RootAt files place := by
      rw [← isRoot_iff some_path, root]
      simp
    refine ⟨?_, fun answer => ?_, fun error => ?_, alone⟩
    · rw [failed, ← check, root]
      simp
    · rw [failed]
      refine iff_of_false (by simp) ?_
      rintro ⟨place, leads, rootAt, _⟩
      exact nowhere ⟨place, leads, rootAt⟩
    · rw [failed, ← check, root]
      simp [eq_comm]

/-! ### The nearest root -/

theorem mem_upward_iff {names place : List Bytes} : place ∈ upward names ↔ place <+: names := by
  unfold upward
  simp only [List.mem_reverse, List.mem_map, List.mem_range]
  constructor
  · rintro ⟨length, _, rfl⟩
    exact List.take_prefix length names
  · intro around
    have short := around.length_le
    exact ⟨place.length, by omega, (List.prefix_iff_eq_take.1 around).symm⟩

theorem upward_pairwise (names : List Bytes) :
    (upward names).Pairwise fun outer inner => inner <+: outer := by
  refine List.pairwise_reverse.2 (List.pairwise_map.2 (List.pairwise_lt_range.imp ?_))
  intro shorter longer less
  exact List.take_prefix_take_left (Nat.le_of_lt less)

/-- Going up, the first place of a kind is the innermost. -/
theorem find?_upward_eq_some {names place : List Bytes} {p : List Bytes → Bool}
    (found : (upward names).find? p = some place) :
    place <+: names ∧ p place = true ∧ ∀ other, other <+: names → p other = true → other <+: place := by
  obtain ⟨holds, before, behind, split, passed⟩ := List.find?_eq_some_iff_append.1 found
  -- Places before the one found are not of the kind, and those behind it lie around it.
  have ordered := upward_pairwise names
  rw [split] at ordered
  refine ⟨mem_upward_iff.1 (List.mem_of_find?_eq_some found), holds, fun other around holdsOther => ?_⟩
  have member := mem_upward_iff.2 around
  rw [split] at member
  rcases List.mem_append.1 member with early | late
  · have refused := passed other early
    rw [holdsOther] at refused
    cases refused
  · rcases List.mem_cons.1 late with rfl | later
    · exact List.prefix_rfl
    · exact List.rel_of_pairwise_cons (List.pairwise_append.1 ordered).2.1 later

section Working

variable {files : FileSystem} (sound : files.root.Sound) {entries : List (Bytes × FileTree)}
  (working : files.root.at? files.working = some (.directory entries))

include working in
theorem directory_around {place : List Bytes} (around : place <+: files.working) :
    ∃ inner, files.root.at? place = some (.directory inner) := by
  obtain ⟨rest, same⟩ := around
  rw [← same, FileTree.at?_append] at working
  obtain ⟨tree, here, below⟩ := Option.bind_eq_some_iff.1 working
  cases tree with
  | directory inner => exact ⟨inner, here⟩
  | file content =>
    cases rest with
    | nil => cases below
    | cons name names => cases below

include sound working

theorem isRoot_ofNames_iff {place : List Bytes} (around : place <+: files.working) :
    isRoot files (.ofNames place) = true ↔ RootAt files place := by
  obtain ⟨inner, here⟩ := directory_around working around
  have leads := leadsTo_ofNames sound here
  rw [isRoot_iff (Path.bytes_ofNames_ne_nil place)]
  constructor
  · rintro ⟨other, otherLeads, root⟩
    rwa [leads.unique otherLeads]
  · intro root
    exact ⟨place, leads, root⟩

theorem find_without_name {setting : Option Bytes} (unnamed : named? none setting = none) :
    (∃ place, Innermost files place ∧ find files none setting = .ok (.ofNames place)) ∨
    ((∀ place, place <+: files.working → ¬RootAt files place) ∧
      find files none setting = .error (.noneAround files.workingPath)) := by
  have kinds : ∀ {place}, place <+: files.working →
      (isRoot files (.ofNames place) = true ↔ RootAt files place) := isRoot_ofNames_iff sound working
  unfold find choose enclosing?
  rw [unnamed, List.find?_map]
  cases found : (upward files.working).find? (isRoot files ∘ Path.ofNames) with
  | none =>
    refine Or.inr ⟨fun place around root => ?_, rfl⟩
    exact List.find?_eq_none.1 found place (mem_upward_iff.2 around) ((kinds around).2 root)
  | some place =>
    obtain ⟨around, holds, inner⟩ := find?_upward_eq_some found
    have root := (kinds around).1 holds
    obtain ⟨_, here⟩ := root.directory
    have leads := leadsTo_ofNames sound here
    refine Or.inl ⟨place, ⟨around, root, fun other otherAround otherRoot => ?_⟩, ?_⟩
    · exact inner other otherAround ((kinds otherAround).2 otherRoot)
    · simp only [Option.map_some, canonical_of_leadsTo leads]
      rfl

theorem nearest_find {setting : Option Bytes} (unnamed : named? none setting = none) :
    Nearest files (find files none setting) := by
  rcases find_without_name sound working unnamed with ⟨place, innermost, found⟩ | ⟨nowhere, failed⟩
  · constructor
    · intro root
      rw [found]
      constructor
      · intro same
        exact ⟨place, innermost, (Except.ok.inj same).symm⟩
      · rintro ⟨other, otherInnermost, rfl⟩
        -- Each of the two lies around the other.
        have outer := innermost.inner other otherInnermost.around otherInnermost.root
        have inner := otherInnermost.inner place innermost.around innermost.root
        rw [outer.eq_of_length (Nat.le_antisymm outer.length_le inner.length_le)]
    · intro error
      rw [found]
      refine iff_of_false (by simp) ?_
      rintro ⟨nowhere, _⟩
      exact nowhere place innermost.around innermost.root
  · constructor
    · intro root
      rw [failed]
      refine iff_of_false (by simp) ?_
      rintro ⟨place, innermost, _⟩
      exact nowhere place innermost.around innermost.root
    · intro error
      rw [failed]
      constructor
      · intro same
        exact ⟨nowhere, (Except.error.inj same).symm⟩
      · rintro ⟨_, rfl⟩
        rfl

theorem exists_rootAt_of_find {option : Option Path} {setting : Option Bytes} {root : Path}
    (some_option : ∀ path ∈ option, path.bytes ≠ []) (found : find files option setting = .ok root) :
    ∃ place, RootAt files place ∧ root = .ofNames place := by
  have of_named : ∀ {path source}, named? option setting = some (path, source) → path.bytes ≠ [] →
      ∃ place, RootAt files place ∧ root = .ofNames place := by
    intro path source named some_path
    obtain ⟨place, _, rootAt, same⟩ := ((named_find files named some_path).place root).1 found
    exact ⟨place, rootAt, same⟩
  have of_unnamed : option = none → named? none setting = none →
      ∃ place, RootAt files place ∧ root = .ofNames place := by
    rintro rfl unnamed
    obtain ⟨place, innermost, same⟩ := ((nearest_find sound working unnamed).place root).1 found
    exact ⟨place, innermost.root, same⟩
  match option, setting with
  | some path, _ => exact of_named rfl (some_option path rfl)
  | none, some (byte :: rest) => exact of_named rfl (List.cons_ne_nil byte rest)
  | none, some [] => exact of_unnamed rfl rfl
  | none, none => exact of_unnamed rfl rfl

end Working

/-- A path given by the option settles the answer alone, then one given by the variable. Neither gives way
to what comes behind it when it is no root. Without them the innermost root around the working directory
is taken, and whatever is answered can be used as it is. -/
theorem find_settled_by_first_source {files : FileSystem} (sound : files.root.Sound)
    {entries : List (Bytes × FileTree)}
    (working : files.root.at? files.working = some (.directory entries)) :
    (∀ path setting, path.bytes ≠ [] →
      Named files path .option fun files => find files (some path) setting) ∧
    (∀ value, value ≠ [] →
      Named files ⟨value⟩ .environment fun files => find files none (some value)) ∧
    (∀ setting, setting = none ∨ setting = some [] → Nearest files (find files none setting)) ∧
    ∀ option setting root, (∀ path ∈ option, path.bytes ≠ []) →
      find files option setting = .ok root → Usable files root := by
  refine ⟨?_, ?_, ?_, ?_⟩
  · intro path setting some_path
    exact named_find files rfl some_path
  · intro value some_value
    obtain ⟨byte, rest, rfl⟩ := List.exists_cons_of_ne_nil some_value
    exact named_find files rfl some_value
  · rintro setting (rfl | rfl)
    · exact nearest_find sound working rfl
    · exact nearest_find sound working rfl
  · intro option setting root some_option found
    obtain ⟨place, rootAt, rfl⟩ := exists_rootAt_of_find sound working some_option found
    exact usable_ofNames sound rootAt

-- There is a root at `/docs` and another inside it, at `/docs/old`, where the working directory is. In
-- `/docs/new` only a file has the name of the directory.
theorem find_settled_by_first_source_nested :
    let text := Bytes.ofText
    let fragments := FileTree.directory [(text "core", .directory [])]
    let files : FileSystem :=
      ⟨.directory [(text "docs", .directory [(text "implementors", fragments),
        (text "old", .directory [(text "implementors", fragments)]),
        (text "new", .directory [(text "implementors", .file [])])])], [text "docs", text "old"]⟩
    files.root.Sound ∧
      find files (some (.ofText "../old/.//..")) (some (text "nowhere")) = .ok (.ofText "/docs") ∧
      find files (some (.ofText "../new")) (some (text "/docs")) =
        .error (.notARoot (.ofText "../new") .option) ∧
      find files none (some []) = .ok (.ofText "/docs/old") ∧
      Usable files (.ofText "/docs/old") := by
  intro text fragments files
  have proper : ∀ name ∈ ["docs", "implementors", "old", "new", "core"], Path.ProperName (text name) := by
    intro name listed
    refine ⟨?_, ?_, ?_, ?_⟩ <;> revert name <;> decide
  have inner : fragments.Sound := by
    refine .directory (by decide) (by simp [proper]) (List.forall_mem_singleton.2 ?_)
    exact .directory (by decide) (by simp) (by simp)
  have sound : files.root.Sound := by
    refine .directory (by decide) (by simp [proper]) (List.forall_mem_singleton.2 ?_)
    refine .directory (by decide) (by simp [proper]) ?_
    simp only [List.forall_mem_cons]
    refine ⟨inner, ?_, ?_, by simp⟩ <;> refine .directory (by decide) ?_ ?_ <;>
      simp [proper, inner, FileTree.Sound.file]
  have working : files.root.at? files.working = some (.directory [(text "implementors", fragments)]) := rfl
  obtain ⟨byOption, _, unnamed, usable⟩ := find_settled_by_first_source sound working
  have up : files.LeadsTo (.ofText "../old/.//..") [text "docs"] := locate_eq_ok_iff.1 rfl
  have nearest : find files none (some []) = .ok (.ofText "/docs/old") :=
    ((unnamed (some []) (Or.inr rfl)).place _).2
      ⟨[text "docs", text "old"], ⟨List.prefix_rfl, ⟨_, rfl⟩, fun _ around _ => around⟩, rfl⟩
  refine ⟨sound, ?_, ?_, nearest, usable none (some []) _ (by simp) nearest⟩
  · exact ((byOption (.ofText "../old/.//..") (some (text "nowhere")) (by decide)).place _).2
      ⟨[text "docs"], up, ⟨_, rfl⟩, rfl⟩
  · exact ((byOption (.ofText "../new") (some (text "/docs")) (by decide)).refused _).2 ⟨rfl, rfl⟩

end TraitCatalog.DocRoot
