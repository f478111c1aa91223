import TraitCatalog.Build
import TraitCatalog.Proofs.Discovery
import TraitCatalog.Proofs.Document.Text
import TraitCatalog.Proofs.LoadPlan.Apply
import TraitCatalog.Proofs.Text.ByteOrder

/-!
# Building a catalog

A build is settled by the fragment files below the directory of fragments. If one of them is refused,
the first of these by path gives the error; otherwise the catalog shows what they bring. Neither the
order of enumeration nor the place of the ready signal shows, and the order of loading only in the order
of the descriptors.
-/

namespace TraitCatalog

/-! ### Loading -/

namespace FileSystem

open Fragment (LoadError)

/-- All items give a value, or the first that does not gives the error. -/
theorem mapM_cases {α β ε : Type} (f : α → Except ε β) (items : List α) :
    (∃ values : List β, items.map f = values.map .ok ∧ items.mapM f = .ok values) ∨
    (∃ before item behind error, items = before ++ item :: behind ∧ f item = .error error ∧
      (∀ other ∈ before, ∃ value, f other = .ok value) ∧ items.mapM f = .error error) := by
  induction items with
  | nil => exact Or.inl ⟨[], rfl, rfl⟩
  | cons item rest ih =>
    rw [List.mapM_cons]
    cases first : f item with
    | error error =>
      refine Or.inr ⟨[], item, rest, error, rfl, first, ?_, rfl⟩
      exact fun _ member => absurd member List.not_mem_nil
    | ok value =>
      rcases ih with ⟨values, each, all⟩ | ⟨before, other, behind, error, split, failed, passed, all⟩
      · refine Or.inl ⟨value :: values, ?_, ?_⟩
        · rw [List.map_cons, List.map_cons, first, each]
        · simp [all, bind, Except.bind, pure, Except.pure]
      · refine Or.inr ⟨item :: before, other, behind, error, congrArg (item :: ·) split, failed, ?_, ?_⟩
        · exact List.forall_mem_cons.2 ⟨⟨value, first⟩, passed⟩
        · simp [all, bind, Except.bind]

/-- The first fragment file below a directory that is refused, and why. -/
structure FirstRefused (files : FileSystem) (directory path : Path) (error : LoadError) : Prop where
  file : files.FragmentFile directory path
  refused : files.loadFragment directory path = .error error
  first : ∀ other cause, files.FragmentFile directory other →
    files.loadFragment directory other = .error cause → other = path ∨ path.Precedes other

theorem FirstRefused.unique {files : FileSystem} {directory left right : Path}
    {leftError rightError : LoadError} (leftFirst : files.FirstRefused directory left leftError)
    (rightFirst : files.FirstRefused directory right rightError) : leftError = rightError := by
  have same : left = right := by
    rcases leftFirst.first right rightError rightFirst.file rightFirst.refused with same | before
    · exact same.symm
    · rcases rightFirst.first left leftError leftFirst.file leftFirst.refused with same | behind
      · exact same
      · exact absurd behind before.asymm
  subst same
  exact Except.error.inj (leftFirst.refused.symm.trans rightFirst.refused)

theorem isDirectory_of_fragmentFile {files : FileSystem} {directory path : Path}
    (file : files.FragmentFile directory path) : files.isDirectory directory = true := by
  obtain ⟨tree, names, content, found, some_name, leads, _⟩ := file
  unfold isDirectory
  rw [found]
  cases tree with
  | directory entries => rfl
  | file content =>
    cases names with
    | nil => exact absurd rfl some_name
    | cons name names => cases leads

/-- What loading a directory can come to. -/
inductive Loading (files : FileSystem) (directory : Path) : Prop where
  | noDirectory (kind : files.isDirectory directory = false)
      (loaded : files.loadAll directory = .error (.noDirectory directory))
  | refused {path : Path} {error : LoadError} (first : files.FirstRefused directory path error)
      (loaded : files.loadAll directory = .error error)
  | done {paths : List Path} {fragments : List Fragment}
      (kind : files.isDirectory directory = true) (lists : files.Lists directory paths)
      (each : paths.map (files.loadFragment directory) = fragments.map .ok)
      (loaded : files.loadAll directory = .ok fragments)

theorem firstRefused_of_split {files : FileSystem} {directory path : Path} {error : LoadError}
    {before behind : List Path} (lists : files.Lists directory (before ++ path :: behind))
    (refused : files.loadFragment directory path = .error error)
    (passed : ∀ other ∈ before, ∃ fragment, files.loadFragment directory other = .ok fragment) :
    files.FirstRefused directory path error := by
  refine ⟨(lists.complete path).1 (by simp), refused, fun other cause file fails => ?_⟩
  rcases List.mem_append.1 ((lists.complete other).2 file) with early | late
  · obtain ⟨fragment, loaded⟩ := passed other early
    cases loaded.symm.trans fails
  · rcases List.mem_cons.1 late with same | later
    · exact Or.inl same
    · have increasing := (List.pairwise_append.1 lists.increasing).2.1
      exact Or.inr ((List.pairwise_cons.1 increasing).1 other later)

theorem loading {files : FileSystem} (sound : files.root.Sound) (directory : Path) :
    files.Loading directory := by
  rcases discover_cases sound directory with ⟨kind, failed⟩ | ⟨kind, paths, found, lists⟩
  · exact .noDirectory kind (by rw [loadAll, failed]; rfl)
  · have all : files.loadAll directory = paths.mapM (files.loadFragment directory) := by
      rw [loadAll, found]
      rfl
    rcases mapM_cases (files.loadFragment directory) paths with
      ⟨fragments, each, done⟩ | ⟨before, path, behind, error, rfl, refused, passed, failed⟩
    · exact .done kind lists each (all.trans done)
    · exact .refused (firstRefused_of_split lists refused passed) (all.trans failed)

theorem loads_of_each {files : FileSystem} {directory path : Path} {paths : List Path}
    {fragments : List Fragment} (lists : files.Lists directory paths)
    (each : paths.map (files.loadFragment directory) = fragments.map .ok)
    (file : files.FragmentFile directory path) :
    ∃ fragment, files.loadFragment directory path = .ok fragment := by
  have listed : files.loadFragment directory path ∈ fragments.map Except.ok :=
    each ▸ List.mem_map_of_mem ((lists.complete path).2 file)
  obtain ⟨fragment, _, same⟩ := List.mem_map.1 listed
  exact ⟨fragment, same.symm⟩

/-! ### Fragments that load -/

theorem readFragment_of_find {files : FileSystem} {path : Path} {format : Fragment.Format}
    {text : String} {content : Fragment.Content} (form : Fragment.Format.ofPath? path = some format)
    (found : files.find path = .ok (.file (Bytes.ofText text)))
    (parsed : format.parse text path.display = .ok content) :
    files.readFragment path = .ok content := by
  have read : files.readText path = .ok text := by
    simp only [readText, found, Bytes.text?_ofText]
  simp only [readFragment, form, read, parsed]
  rfl

theorem loadFragment_of_declared {files : FileSystem} {directory path relative : Path}
    {interface : Interface} {contributions : List Contribution}
    (below : path.below? directory = some relative)
    (read : files.readFragment path = .ok ⟨some interface, contributions⟩) :
    files.loadFragment directory path = .ok ⟨relative, interface, contributions⟩ := by
  simp only [loadFragment, below, read]

theorem loadFragment_of_located {files : FileSystem} {directory path relative : Path}
    {interface : Interface} {contributions : List Contribution}
    (below : path.below? directory = some relative)
    (read : files.readFragment path = .ok ⟨none, contributions⟩)
    (located : Interface.ofPath relative = .ok interface) :
    files.loadFragment directory path = .ok ⟨relative, interface, contributions⟩ := by
  simp only [loadFragment, below, read, located]

theorem loadFragment_of_document {files : FileSystem} {directory path relative : Path}
    {document : Document} {text : String} (admitted : document.Admitted)
    (declared : document.declared = some text) (below : path.below? directory = some relative)
    (form : Fragment.Format.ofPath? path = some .json)
    (found : files.find path = .ok (.file (Bytes.ofText document.render))) :
    files.loadFragment directory path = .ok ⟨relative, ⟨text⟩, document.contributions⟩ := by
  have read := Fragment.Content.parse_of_admitted admitted document.parse_render path.display
  rw [declared] at read
  exact loadFragment_of_declared below (readFragment_of_find form found read)

/-- A fragment that loads has the interface that its text declares, or else the one that its place below
the directory tells. -/
theorem exists_content_of_loadFragment {files : FileSystem} {directory path : Path}
    {fragment : Fragment} (loaded : files.loadFragment directory path = .ok fragment) :
    ∃ content, path.below? directory = some fragment.path ∧ files.readFragment path = .ok content ∧
      content.contributions = fragment.contributions ∧
      (content.declared = some fragment.interface ∨
        content.declared = none ∧ Interface.ofPath fragment.path = .ok fragment.interface) := by
  unfold loadFragment at loaded
  split at loaded
  · cases loaded
  · rename_i below
    split at loaded
    · cases loaded
    · rename_i read
      obtain rfl := Except.ok.inj loaded
      exact ⟨_, below, read, rfl, Or.inl rfl⟩
    · rename_i read
      split at loaded
      · cases loaded
      · rename_i located
        obtain rfl := Except.ok.inj loaded
        exact ⟨_, below, read, rfl, Or.inr ⟨rfl, located⟩⟩

theorem loadAll_of_each {files : FileSystem} {directory : Path} {entries : List (Bytes × FileTree)}
    {paths : List Path} {fragments : List Fragment}
    (found : files.find directory = .ok (.directory entries))
    (sorted : (fragmentPathsBelow directory entries).mergeSort Path.le = paths)
    (each : paths.map (files.loadFragment directory) = fragments.map .ok) :
    files.loadAll directory = .ok fragments := by
  have discovered : files.discover directory = .ok paths := by
    simp only [discover, found, sorted]
  rw [loadAll, discovered]
  show paths.mapM (files.loadFragment directory) = .ok fragments
  rcases mapM_cases (files.loadFragment directory) paths with
    ⟨values, same, all⟩ | ⟨before, path, behind, error, rfl, failed, _, _⟩
  · have values_eq := (List.map_inj_right fun _ _ => Except.ok.inj).1 (same.symm.trans each)
    rw [all, values_eq]
  · have listed : .error error ∈ fragments.map Except.ok := by
      rw [← each, ← failed]
      exact List.mem_map_of_mem (by simp)
    obtain ⟨_, _, impossible⟩ := List.mem_map.1 listed
    cases impossible

end FileSystem

/-! ### Building -/

namespace Catalog

open FileSystem

theorem build_of_loadAll_error {files : FileSystem} {root : Path} {error : Fragment.LoadError}
    (failed : files.loadAll (fragmentsDirectory root) = .error error) (order : LoadOrder)
    (point : Option Nat) : build files root order point = .error (.load error) := by
  unfold build
  rw [failed]

/-- A plan for all fragments that were loaded runs to its end. -/
theorem build_of_loadAll {files : FileSystem} {root : Path} {fragments : List Fragment}
    (loaded : files.loadAll (fragmentsDirectory root) = .ok fragments) (order : LoadOrder)
    (point : Option Nat) :
    build files root order point =
      .ok ((LoadPlan.make fragments.length order point).apply fragments .empty).2 := by
  obtain ⟨catalog, _, applied⟩ :=
    LoadPlan.exists_loaded fragments (Nat.le_refl fragments.length) order .empty
  unfold build
  rw [loaded]
  simp only [applied point]

theorem exists_build_of_loadAll {files : FileSystem} {root : Path} {fragments : List Fragment}
    (loaded : files.loadAll (fragmentsDirectory root) = .ok fragments) (order : LoadOrder) :
    ∃ catalog, LoadPlan.Loaded .empty (order.arrange fragments) catalog ∧
      ∀ point, build files root order point = .ok catalog := by
  obtain ⟨catalog, done, applied⟩ :=
    LoadPlan.exists_loaded fragments (Nat.le_refl fragments.length) order .empty
  rw [List.take_length] at done
  refine ⟨catalog, done, fun point => ?_⟩
  rw [build_of_loadAll loaded, applied]

theorem exists_fragments_of_build {files : FileSystem} {root : Path} {order : LoadOrder}
    {point : Option Nat} {catalog : Catalog} (built : build files root order point = .ok catalog) :
    ∃ fragments, files.loadAll (fragmentsDirectory root) = .ok fragments ∧
      LoadPlan.Loaded .empty (order.arrange fragments) catalog := by
  cases loaded : files.loadAll (fragmentsDirectory root) with
  | error error => cases (build_of_loadAll_error loaded order point).symm.trans built
  | ok fragments =>
    obtain ⟨found, done, success⟩ := exists_build_of_loadAll loaded order
    obtain rfl := Except.ok.inj ((success point).symm.trans built)
    exact ⟨fragments, rfl, done⟩

theorem exists_build_error_iff {files : FileSystem} (sound : files.root.Sound) (root : Path)
    (order : LoadOrder) (point : Option Nat) :
    (∃ error, build files root order point = .error error) ↔
      files.isDirectory (fragmentsDirectory root) = false ∨
      ∃ path error, files.FragmentFile (fragmentsDirectory root) path ∧
        files.loadFragment (fragmentsDirectory root) path = .error error := by
  cases files.loading sound (fragmentsDirectory root) with
  | noDirectory kind loaded =>
    exact iff_of_true ⟨_, build_of_loadAll_error loaded order point⟩ (Or.inl kind)
  | refused first loaded =>
    exact iff_of_true ⟨_, build_of_loadAll_error loaded order point⟩
      (Or.inr ⟨_, _, first.file, first.refused⟩)
  | done kind lists each loaded =>
    obtain ⟨catalog, _, built⟩ := exists_build_of_loadAll loaded order
    refine iff_of_false ?_ ?_
    · rintro ⟨error, failed⟩
      cases (built point).symm.trans failed
    · rintro (noDirectory | ⟨path, error, file, refused⟩)
      · cases kind.symm.trans noDirectory
      · obtain ⟨fragment, passed⟩ := loads_of_each lists each file
        cases passed.symm.trans refused

/-- The error of a build is the missing directory or the first fragment that is refused. -/
theorem build_eq_error_iff {files : FileSystem} (sound : files.root.Sound) (root : Path)
    (order : LoadOrder) (point : Option Nat) (error : BuildError) :
    build files root order point = .error error ↔
      (files.isDirectory (fragmentsDirectory root) = false ∧
        error = .load (.noDirectory (fragmentsDirectory root))) ∨
      ∃ path cause, files.FirstRefused (fragmentsDirectory root) path cause ∧ error = .load cause := by
  cases files.loading sound (fragmentsDirectory root) with
  | noDirectory kind loaded =>
    rw [build_of_loadAll_error loaded, Except.error.injEq]
    constructor
    · rintro rfl
      exact Or.inl ⟨kind, rfl⟩
    · rintro (⟨_, rfl⟩ | ⟨path, cause, first, _⟩)
      · rfl
      · cases kind.symm.trans (isDirectory_of_fragmentFile first.file)
  | refused first loaded =>
    rw [build_of_loadAll_error loaded, Except.error.injEq]
    constructor
    · rintro rfl
      exact Or.inr ⟨_, _, first, rfl⟩
    · rintro (⟨kind, _⟩ | ⟨path, cause, other, rfl⟩)
      · cases kind.symm.trans (isDirectory_of_fragmentFile first.file)
      · rw [first.unique other]
  | done kind lists each loaded =>
    obtain ⟨catalog, _, built⟩ := exists_build_of_loadAll loaded order
    rw [built]
    refine iff_of_false (by simp) ?_
    rintro (⟨noDirectory, _⟩ | ⟨path, cause, first, _⟩)
    · cases kind.symm.trans noDirectory
    · obtain ⟨fragment, passed⟩ := loads_of_each lists each first.file
      cases passed.symm.trans first.refused

/-- A build fails exactly where the directory is missing or a fragment file is refused, with the error
of the first refused one, whatever the order and the point of activation are. A catalog that is built
shows what the fragments bring, in the order of their paths or against it, wherever the point is. How
directories enumerate their entries never matters. -/
theorem build_settled_by_fragments {files : FileSystem} (sound : files.root.Sound) (root : Path) :
    (∀ order point, (∃ error, build files root order point = .error error) ↔
      files.isDirectory (fragmentsDirectory root) = false ∨
      ∃ path error, files.FragmentFile (fragmentsDirectory root) path ∧
        files.loadFragment (fragmentsDirectory root) path = .error error) ∧
    (∀ order point error, build files root order point = .error error ↔
      (files.isDirectory (fragmentsDirectory root) = false ∧
        error = .load (.noDirectory (fragmentsDirectory root))) ∨
      ∃ path cause, files.FirstRefused (fragmentsDirectory root) path cause ∧
        error = .load cause) ∧
    (∀ order point catalog, build files root order point = .ok catalog →
      catalog.ready = true ∧
      (∀ interface page, catalog.page? interface = some page → page.isDirect = true) ∧
      (∃ (paths : List Path) (fragments : List Fragment),
        files.Lists (fragmentsDirectory root) paths ∧
        paths.map (files.loadFragment (fragmentsDirectory root)) = fragments.map .ok ∧
        ∀ interface library, (catalog.visible interface).lookup library =
          Contribution.gather library (Fragment.contributionsTo interface
            (match order with
            | .discovered => fragments
            | .reverse => fragments.reverse))) ∧
      ∀ other, build files root order other = .ok catalog) ∧
    (∀ others : FileSystem, files.Rearranged others → ∀ order point,
      build others root order point = build files root order point) := by
  refine ⟨exists_build_error_iff sound root, build_eq_error_iff sound root, ?_, ?_⟩
  · intro order point catalog success
    cases files.loading sound (fragmentsDirectory root) with
    | noDirectory _ loaded => cases (build_of_loadAll_error loaded order point).symm.trans success
    | refused _ loaded => cases (build_of_loadAll_error loaded order point).symm.trans success
    | done _ lists each loaded =>
      obtain ⟨_, done, built⟩ := exists_build_of_loadAll loaded order
      obtain rfl := Except.ok.inj ((built point).symm.trans success)
      rw [order.arrange_eq] at done
      exact ⟨done.ready, done.direct, ⟨_, _, lists, each, done.lookup⟩, built⟩
  · intro others same order point
    unfold build
    rw [same.loadAll_eq sound]

-- Directories list their files against the order of the paths. Of two files that are not text, the one
-- that comes first by path is reported; two documents about one interface, read in reverse, give the
-- descriptors of the second first.
theorem build_settled_by_fragments_listed_backwards :
    let holding (entries : List (Bytes × FileTree)) : FileSystem :=
      ⟨.directory [(Bytes.ofText "implementors", .directory entries)], []⟩
    let document (descriptor : String) : Document := ⟨Document.currentVersion,
      some "core::fmt::Display", .ofPairs [("petgraph", [descriptor])]⟩
    let broken := holding [(Bytes.ofText "z.js", .file [0xFE]),
      (Bytes.ofText "notes.txt", .file [0xFF]), (Bytes.ofText "a.json", .file [0xFF])]
    let files := holding [(Bytes.ofText "z.json", .file (Bytes.ofText (document "second").render)),
      (Bytes.ofText "a.json", .file (Bytes.ofText (document "first").render))]
    (broken.root.Sound ∧ ∀ order point, build broken (.ofText "/") order point =
      .error (.load (.unreadable (.ofText "/implementors/a.json") .notText))) ∧
    (files.root.Sound ∧ ∃ catalog, build files (.ofText "/") .reverse (some 1) = .ok catalog ∧
      (catalog.visible ⟨"core::fmt::Display"⟩).lookup "petgraph" = ["second", "first"]) := by
  intro holding document broken files
  have proper : ∀ name ∈ ["implementors", "z.js", "notes.txt", "a.json", "z.json"],
      Path.ProperName (Bytes.ofText name) := by
    intro name listed
    refine ⟨?_, ?_, ?_, ?_⟩ <;> revert name <;> decide
  have sound : ∀ entries, (entries.map Prod.fst).Nodup →
      (∀ entry ∈ entries, Path.ProperName entry.1) → (∀ entry ∈ entries, entry.2.Sound) →
        (holding entries).root.Sound := by
    intro entries distinct named each
    refine .directory (List.pairwise_singleton _ _) ?_ ?_
    · exact List.forall_mem_singleton.2 (proper "implementors" (by decide))
    · exact List.forall_mem_singleton.2 (.directory distinct named each)
  have brokenSound : broken.root.Sound :=
    sound _ (by decide) (by simp [proper]) (by simp [FileTree.Sound.file])
  have filesSound : files.root.Sound :=
    sound _ (by decide) (by simp [proper]) (by simp [FileTree.Sound.file])
  constructor
  · have below : fragmentPathsBelow (fragmentsDirectory (.ofText "/"))
        [(Bytes.ofText "z.js", .file [0xFE]), (Bytes.ofText "notes.txt", .file [0xFF]),
          (Bytes.ofText "a.json", .file [0xFF])] =
        [.ofText "/implementors/z.js", .ofText "/implementors/a.json"] := by rfl
    have listed : ∀ path, broken.FragmentFile (fragmentsDirectory (.ofText "/")) path ↔ _ :=
      fun path => fragmentFile_iff_of_find brokenSound (by rfl)
    have first : broken.FirstRefused (fragmentsDirectory (.ofText "/"))
        (.ofText "/implementors/a.json")
        (.unreadable (.ofText "/implementors/a.json") .notText) := by
      refine ⟨(listed _).2 (by rw [below]; decide), by rfl, fun other cause file _ => ?_⟩
      rw [listed, below] at file
      rcases List.mem_cons.1 file with rfl | last
      · refine Or.inr ?_
        unfold Path.Precedes
        decide
      · exact Or.inl (List.mem_singleton.1 last)
    obtain ⟨_, fails, _⟩ := build_settled_by_fragments brokenSound (.ofText "/")
    exact ⟨brokenSound, fun order point => (fails order point _).2 (Or.inr ⟨_, _, first, rfl⟩)⟩
  · have admitted : ∀ descriptor, (document descriptor).Admitted := fun _ =>
      Document.admitted_of_matchesPath (by decide)
        (List.forall_mem_singleton.2 (show "petgraph" ≠ "" by decide))
    have first : files.loadFragment (fragmentsDirectory (.ofText "/")) (.ofText "/implementors/a.json") =
        .ok ⟨.ofText "a.json", ⟨"core::fmt::Display"⟩, [⟨"petgraph", ["first"]⟩]⟩ :=
      loadFragment_of_document (admitted "first") rfl (by rfl) (by rfl) (by rfl)
    have second : files.loadFragment (fragmentsDirectory (.ofText "/")) (.ofText "/implementors/z.json") =
        .ok ⟨.ofText "z.json", ⟨"core::fmt::Display"⟩, [⟨"petgraph", ["second"]⟩]⟩ :=
      loadFragment_of_document (admitted "second") rfl (by rfl) (by rfl) (by rfl)
    have listed : files.Lists (fragmentsDirectory (.ofText "/"))
        [.ofText "/implementors/a.json", .ofText "/implementors/z.json"] := by
      constructor
      · unfold Path.Precedes
        decide
      · intro path
        rw [fragmentFile_iff_of_find filesSound (by rfl)]
        exact (List.Perm.swap _ _ []).mem_iff
    obtain ⟨fails, _, succeeds, _⟩ := build_settled_by_fragments filesSound (.ofText "/")
    refine ⟨filesSound, ?_⟩
    cases built : build files (.ofText "/") .reverse (some 1) with
    | error error =>
      rcases (fails _ _).1 ⟨error, built⟩ with noDirectory | ⟨path, error, file, refused⟩
      · cases noDirectory
      · rw [← listed.complete] at file
        simp only [List.mem_cons, List.not_mem_nil, or_false] at file
        rcases file with rfl | rfl
        · cases first.symm.trans refused
        · cases second.symm.trans refused
    | ok catalog =>
      obtain ⟨_, _, ⟨paths, fragments, lists, each, shown⟩, _⟩ := succeeds _ _ catalog built
      obtain rfl := lists.unique listed
      rw [List.map_cons, List.map_cons, first, second] at each
      obtain rfl : [_, _] = fragments := (List.map_inj_right fun _ _ => Except.ok.inj).1 each
      exact ⟨catalog, rfl, shown _ _⟩

end Catalog
end TraitCatalog
