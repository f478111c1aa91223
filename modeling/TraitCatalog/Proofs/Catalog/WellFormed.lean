import TraitCatalog.Proofs.Build
import TraitCatalog.Proofs.Catalog.Views
import TraitCatalog.Proofs.CommandLine.Run
import TraitCatalog.Proofs.Document.Admission
import TraitCatalog.Proofs.Fragment.Forms
import TraitCatalog.Proofs.Interface.Location
import TraitCatalog.Proofs.Script.Layout

/-!
# What is built is well formed

An interface is declared by a document or told by the place of a file, and a library is named by a script
or by a document. Each of these ways makes its own checks; together they leave only proper paths and names
in a catalog that is built, so that a command line can ask for everything in it.
-/

namespace TraitCatalog

/-! ### Fragments -/

namespace Fragment

/-- The interface is a path and every contribution names its library. -/
structure WellFormed (fragment : Fragment) : Prop where
  path : Interface.IsPath fragment.interface.text.toList
  named : ∀ contribution ∈ fragment.contributions, contribution.library ≠ ""

structure Content.WellFormed (content : Content) : Prop where
  path : ∀ interface, content.declared = some interface → Interface.IsPath interface.text.toList
  named : ∀ contribution ∈ content.contributions, contribution.library ≠ ""

theorem Content.wellFormed_of_script {text origin : String} {content : Content}
    (read : Format.script.parse text origin = .ok content) : content.WellFormed := by
  simp only [Format.parse] at read
  split at read
  · cases read
  · rename_i contributions parsed
    obtain rfl := Except.ok.inj read
    obtain ⟨layout, _, _, rfl⟩ := Script.parse_eq_ok_iff_layout.1 parsed
    refine ⟨fun _ declared => (by cases declared), fun contribution member => ?_⟩
    obtain ⟨assignment, _, rfl⟩ := List.mem_map.1 member
    intro empty
    exact assignment.named (String.ofList_eq_empty_iff.1 empty)

theorem Content.wellFormed_of_json {text origin : String} {content : Content}
    (read : Format.json.parse text origin = .ok content) : content.WellFormed := by
  rcases Content.parse_cases text origin with
    ⟨_, _, failed⟩ | ⟨_, _, _, failed⟩ | ⟨document, admitted, _, found⟩
  · cases read.symm.trans failed
  · cases read.symm.trans failed
  · obtain rfl := Except.ok.inj (read.symm.trans found)
    refine ⟨fun interface declared => ?_, fun contribution member => ?_⟩
    · obtain ⟨path, given, rfl⟩ := Option.map_eq_some_iff.1 declared
      exact admitted.path path given
    · obtain ⟨entry, present, rfl⟩ := List.mem_map.1 member
      exact admitted.named entry.1 (List.mem_map_of_mem present)

theorem Content.wellFormed_of_parse {format : Format} {text origin : String} {content : Content}
    (read : format.parse text origin = .ok content) : content.WellFormed := by
  cases format with
  | script => exact wellFormed_of_script read
  | json => exact wellFormed_of_json read

end Fragment

/-! ### Loading -/

namespace FileSystem

theorem wellFormed_of_readFragment {files : FileSystem} {path : Path} {content : Fragment.Content}
    (read : files.readFragment path = .ok content) : content.WellFormed := by
  unfold readFragment at read
  split at read
  · cases read
  · split at read
    · cases read
    · exact Fragment.Content.wellFormed_of_parse (ok_of_mapError read)

/-- A fragment is well formed wherever its interface comes from. -/
theorem wellFormed_of_loadFragment {files : FileSystem} {directory path : Path} {fragment : Fragment}
    (loaded : files.loadFragment directory path = .ok fragment) : fragment.WellFormed := by
  obtain ⟨content, _, read, same, origin⟩ := exists_content_of_loadFragment loaded
  have proper := wellFormed_of_readFragment read
  refine ⟨?_, same ▸ proper.named⟩
  rcases origin with declared | ⟨_, located⟩
  · exact proper.path fragment.interface declared
  · exact Interface.isPath_of_ofPath located

theorem wellFormed_of_loadAll {files : FileSystem} {directory : Path} {fragments : List Fragment}
    (loaded : files.loadAll directory = .ok fragments) :
    ∀ fragment ∈ fragments, fragment.WellFormed := by
  intro fragment member
  unfold loadAll at loaded
  cases found : files.discover directory with
  | error error =>
    rw [found] at loaded
    cases loaded
  | ok paths =>
    rw [found] at loaded
    rcases mapM_cases (files.loadFragment directory) paths with
      ⟨values, each, all⟩ | ⟨_, _, _, _, _, _, _, failed⟩
    · obtain rfl := Except.ok.inj (all.symm.trans loaded)
      have listed : .ok fragment ∈ paths.map (files.loadFragment directory) :=
        each ▸ List.mem_map_of_mem member
      obtain ⟨path, _, success⟩ := List.mem_map.1 listed
      exact wellFormed_of_loadFragment success
    · cases failed.symm.trans loaded

end FileSystem

/-! ### Building -/

namespace Catalog

section Loaded

variable {fragments : List Fragment} {catalog : Catalog}
  (done : LoadPlan.Loaded .empty fragments catalog)
  (proper : ∀ fragment ∈ fragments, fragment.WellFormed)

include done proper

theorem isPath_of_loaded {interface : Interface} (present : interface ∈ catalog.interfaces) :
    Interface.IsPath interface.text.toList := by
  rcases (done.pages interface).1 (mem_interfaces_iff.1 present) with
    ⟨page, before⟩ | ⟨fragment, member, rfl, _⟩
  · cases before
  · exact (proper fragment member).path

theorem library_ne_empty_of_loaded {interface : Interface} {library : Library}
    (listed : library ∈ (catalog.visible interface).libraries) : library ≠ "" := by
  rw [Registry.mem_libraries_iff, done.lookup] at listed
  obtain ⟨contribution, sent, rfl, _⟩ := Contribution.gather_ne_nil_iff.1 listed
  obtain ⟨fragment, selected, member⟩ := List.mem_flatMap.1 sent
  exact (proper fragment (List.mem_filter.1 selected).1).named contribution member

end Loaded

/-- Whatever a build succeeds on, every interface is a path, which a command line can ask for as it is
written, and every page lists non-empty names with at least one descriptor each. -/
theorem build_well_formed {files : FileSystem} {root : Path} {order : LoadOrder} {point : Option Nat}
    {catalog : Catalog} (built : build files root order point = .ok catalog) :
    (∀ interface ∈ catalog.interfaces,
      Interface.IsPath interface.text.toList ∧ Interface.parse interface.text = .ok interface ∧
      ∀ environment : CommandLine.Environment, environment.files = files →
        CommandLine.request environment ⟨none, none, none, false⟩ = .ok ⟨order, point, root⟩ →
        ∃ journal, CommandLine.execute environment [.ofText "keys", .ofText interface.text] =
          ⟨0, String.join ((catalog.visible interface).libraries.map (· ++ "\n")), "", journal⟩) ∧
    (∀ interface page, catalog.page? interface = some page →
      ∃ registry, page = .direct registry ∧
        ∀ library descriptors, (library, descriptors) ∈ registry.toList →
          library ≠ "" ∧ descriptors ≠ []) := by
  obtain ⟨fragments, loaded, done⟩ := exists_fragments_of_build built
  have proper : ∀ fragment ∈ order.arrange fragments, fragment.WellFormed := fun fragment member =>
    FileSystem.wellFormed_of_loadAll loaded fragment (LoadOrder.mem_arrange.1 member)
  refine ⟨fun interface present => ?_, fun interface page found => ?_⟩
  · have path := isPath_of_loaded done proper present
    have read := Interface.parse_of_isPath path
    refine ⟨path, read, fun environment sameFiles requested => ?_⟩
    subst sameFiles
    exact CommandLine.execute_of_run (CommandLine.parse_keys path)
      (CommandLine.withInterface_of_built requested built read fun catalog interface =>
        CommandLine.lines (catalog.visible interface).libraries)
  · refine ⟨page.held, Page.eq_direct_of_isDirect (done.direct interface page found), ?_⟩
    intro library descriptors listed
    have shown : page.held = catalog.visible interface := by
      rw [done.settled.visible_eq, (page?_eq_some_iff.1 found).2]
    rw [shown] at listed
    exact ⟨library_ne_empty_of_loaded done proper (List.mem_map_of_mem listed),
      (Registry.mem_toList_iff.1 listed).1⟩

-- A document declares its interface in a file whose name tells none, and a script names its library
-- between double quotes.
theorem build_well_formed_both_forms :
    let document : Document :=
      ⟨Document.currentVersion, some "core::hash::Hash", .ofPairs [("serde", ["impl Hash"])]⟩
    let script := "implementors[\"petgraph\"] = [\"impl Display\"];"
    let entries : List (Bytes × FileTree) :=
      [(Bytes.ofText "hash.json", .file (Bytes.ofText document.render)),
        (Bytes.ofText "trait.Display.js", .file (Bytes.ofText script))]
    let files : FileSystem :=
      ⟨.directory [(Bytes.ofText "implementors", .directory entries)], []⟩
    ∃ catalog, build files (.ofText "/") .discovered none = .ok catalog ∧
      (∀ interface ∈ ([⟨"core::hash::Hash"⟩, ⟨"Display"⟩] : List Interface),
        interface ∈ catalog.interfaces ∧ Interface.parse interface.text = .ok interface) ∧
      ∀ interface page, catalog.page? interface = some page →
        ∃ registry, page = .direct registry ∧
          ∀ library descriptors, (library, descriptors) ∈ registry.toList →
            library ≠ "" ∧ descriptors ≠ [] := by
  intro document script entries files
  let directory := fragmentsDirectory (.ofText "/")
  have admitted : document.Admitted := Document.admitted_of_matchesPath (by decide) (by decide)
  have readScript : Script.parse script = .ok [⟨"petgraph", ["impl Display"]⟩] := by
    let assignment : Script.Assignment :=
      { header := _
        library := "petgraph".toList
        array := _
        descriptors := ["impl Display"]
        headed := .mk (.inr rfl) (by decide) Text.blank_nil Text.blank_nil
          Text.blank_space Text.blank_space
        named := by decide
        listed := .items Text.blank_nil
          (.one ⟨_, Json.Quoted.spells_flatMap_escaped _, rfl⟩ Text.blank_nil) }
    let layout : Script.Layout := .assigned [] assignment (.ending [';'])
    exact Script.parse_eq_ok_iff_layout.2
      ⟨layout, ⟨by decide, show Script.Passive _ _ by decide, show Script.Passive _ _ by decide⟩,
        by decide, by decide⟩
  have parsed : ∀ origin, Fragment.Format.script.parse script origin =
      .ok ⟨none, [⟨"petgraph", ["impl Display"]⟩]⟩ := by
    intro origin
    simp only [Fragment.Format.parse, readScript]
  have first : files.loadFragment directory (.ofText "/implementors/hash.json") =
      .ok ⟨.ofText "hash.json", ⟨"core::hash::Hash"⟩, document.contributions⟩ :=
    FileSystem.loadFragment_of_document admitted rfl (by rfl) (by rfl) (by rfl)
  have second : files.loadFragment directory (.ofText "/implementors/trait.Display.js") =
      .ok ⟨.ofText "trait.Display.js", ⟨"Display"⟩, [⟨"petgraph", ["impl Display"]⟩]⟩ :=
    FileSystem.loadFragment_of_located (by rfl)
      (FileSystem.readFragment_of_find (by rfl) (by rfl) (parsed _)) (by rfl)
  have listed : FileSystem.fragmentPathsBelow directory entries =
      [.ofText "/implementors/hash.json", .ofText "/implementors/trait.Display.js"] := by rfl
  have loaded : files.loadAll directory = .ok
      [⟨.ofText "hash.json", ⟨"core::hash::Hash"⟩, document.contributions⟩,
        ⟨.ofText "trait.Display.js", ⟨"Display"⟩, [⟨"petgraph", ["impl Display"]⟩]⟩] := by
    refine FileSystem.loadAll_of_each (by rfl) (List.mergeSort_of_pairwise ?_) ?_
    · rw [listed]
      decide
    · rw [listed, List.map_cons, List.map_cons, first, second]
      rfl
  obtain ⟨catalog, done, success⟩ := exists_build_of_loadAll loaded .discovered
  obtain ⟨interfaces, pages⟩ := build_well_formed (success none)
  refine ⟨catalog, success none, fun interface member => ?_, pages⟩
  have present : interface ∈ catalog.interfaces := by
    refine mem_interfaces_iff.2 ((done.pages interface).2 (Or.inr ?_))
    simp only [List.mem_cons, List.not_mem_nil, or_false] at member
    rcases member with rfl | rfl
    · exact ⟨_, List.mem_cons_self, rfl, by decide⟩
    · exact ⟨_, List.mem_cons_of_mem _ List.mem_cons_self, rfl, by decide⟩
  exact ⟨present, (interfaces interface present).2.1⟩

end Catalog
end TraitCatalog
