import TraitCatalog.Proofs.Catalog.Independence
import TraitCatalog.Proofs.Text.ByteOrder

/-!
# The views of a catalog

What a catalog shows is one relation between interfaces, libraries and descriptors: at the page of an
interface a library shows all that it sent there, as soon as the page is activated (`Catalog.Shows`).
Each view gives this relation under another key and lists it in increasing order of that key.
-/

namespace TraitCatalog

theorem Page.visible_eq (page : Page) :
    page.visible = if page.isDirect then page.held else .empty := by
  cases page <;> rfl

namespace Catalog

/-- A page that is still to be made shows nothing, whatever it would start as. -/
theorem visible_touch (catalog : Catalog) (interface : Interface) :
    (catalog.touch interface).visible = catalog.visible interface := by
  unfold touch visible
  cases catalog.page? interface with
  | some page => rfl
  | none =>
    show catalog.newPage.visible = .empty
    unfold newPage
    split <;> rfl

theorem mem_interfaces_iff {catalog : Catalog} {interface : Interface} :
    interface ∈ catalog.interfaces ↔ ∃ page, catalog.page? interface = some page := by
  rw [← Option.isSome_iff_exists]
  exact Entries.isSome_get?_iff.symm

theorem interfaces_pairwise (catalog : Catalog) :
    (catalog.interfaces.map Interface.text).Pairwise (· < ·) := by
  unfold interfaces Table.keys
  rw [List.map_map]
  exact List.pairwise_map.2 catalog.pages.sorted

theorem mem_byLibrary_iff {catalog : Catalog} {interface : Interface} {library : Library}
    {descriptors : List Descriptor} :
    (interface, descriptors) ∈ catalog.byLibrary library ↔
      descriptors ≠ [] ∧ descriptors = (catalog.visible interface).lookup library := by
  unfold byLibrary
  simp only [List.mem_filter, List.mem_map, Bool.not_eq_true', List.isEmpty_eq_false_iff]
  constructor
  · rintro ⟨⟨⟨other, page⟩, present, same⟩, some_there⟩
    obtain ⟨rfl, rfl⟩ := Prod.mk.inj same
    have found : catalog.page? other = some page := Table.mem_entries_iff.1 present
    refine ⟨some_there, ?_⟩
    simp only [visible, found]
  · rintro ⟨some_there, same⟩
    unfold visible at same
    cases found : catalog.page? interface with
    | none =>
      rw [found] at same
      exact absurd same some_there
    | some page =>
      rw [found] at same
      exact ⟨⟨(interface, page), Table.mem_entries_iff.2 found, by rw [same]⟩, some_there⟩

theorem byLibrary_pairwise (catalog : Catalog) (library : Library) :
    ((catalog.byLibrary library).map fun entry => entry.1.text).Pairwise (· < ·) := by
  have ordered : (catalog.pages.entries.map fun entry =>
      (entry.1, entry.2.visible.lookup library)).Pairwise fun a b => a.1.text < b.1.text :=
    List.pairwise_map.2 catalog.pages.sorted
  exact List.pairwise_map.2 (ordered.filter _)

theorem mem_foreign_iff {catalog : Catalog} {interface : Interface} {own : List Library}
    {library : Library} {descriptors : List Descriptor} :
    (library, descriptors) ∈ catalog.foreign interface own ↔
      library ∉ own ∧ (library, descriptors) ∈ (catalog.visible interface).toList := by
  simp [foreign, List.mem_filter, and_comm]

theorem foreign_pairwise (catalog : Catalog) (interface : Interface) (own : List Library) :
    ((catalog.foreign interface own).map Prod.fst).Pairwise (· < ·) :=
  List.pairwise_map.2 ((catalog.visible interface).lists.sorted.filter _)

theorem get?_snapshot_eq_some_iff {catalog : Catalog} {interface : Interface} {registry : Registry} :
    catalog.snapshot.get? interface = some registry ↔
      interface ∈ catalog.interfaces ∧ registry = catalog.visible interface := by
  rw [get?_snapshot, mem_interfaces_iff, visible]
  cases catalog.page? interface with
  | none => simp
  | some page => simp [eq_comm]

theorem keys_snapshot (catalog : Catalog) : catalog.snapshot.keys = catalog.interfaces := by
  unfold snapshot interfaces Table.keys Table.mapValues
  rw [List.map_map]
  rfl

/-! ### Runs -/

/-- What a run shows: all that a library sent to an interface, if it sent something and the page was
activated at some time. -/
structure Shows (events : List Event) (interface : Interface) (library : Library)
    (descriptors : List Descriptor) : Prop where
  activated : ∃ event ∈ events, event.activates interface = true
  sent : descriptors = submitted interface library events
  some_sent : descriptors ≠ []

theorem lookup_visible_after (events : List Event) (interface : Interface) (library : Library) :
    ((after events).visible interface).lookup library =
      if events.any (Event.activates interface) then submitted interface library events else [] := by
  have direct : ((after events).touch interface).isDirect =
      events.any (Event.activates interface) := isDirect_run empty events interface
  rw [← visible_touch, Page.visible_eq, direct]
  split
  · exact lookup_held_after events interface library
  · rfl

theorem shows_iff {events : List Event} {interface : Interface} {library : Library}
    {descriptors : List Descriptor} :
    Shows events interface library descriptors ↔
      descriptors ≠ [] ∧ descriptors = ((after events).visible interface).lookup library := by
  rw [lookup_visible_after]
  constructor
  · rintro ⟨activated, sent, some_sent⟩
    rw [if_pos (List.any_eq_true.2 activated)]
    exact ⟨some_sent, sent⟩
  · rintro ⟨some_sent, same⟩
    split at same
    · rename_i activated
      exact ⟨List.any_eq_true.1 activated, same, some_sent⟩
    · exact absurd same some_sent

/-- All views of a catalog, whatever run led to it, give one relation, each of them in increasing order.
The snapshot has an entry for every interface with a page, also where the page shows nothing. -/
theorem views_show_one_relation (events : List Event) :
    (∀ interface library descriptors,
      ((interface, descriptors) ∈ (after events).byLibrary library ↔
        Shows events interface library descriptors) ∧
      (descriptors ≠ [] ∧ descriptors = ((after events).visible interface).lookup library ↔
        Shows events interface library descriptors) ∧
      ((library, descriptors) ∈ ((after events).visible interface).toList ↔
        Shows events interface library descriptors) ∧
      (library ∈ ((after events).visible interface).libraries ∧
          descriptors = ((after events).visible interface).lookup library ↔
        Shows events interface library descriptors) ∧
      ((∃ registry, (after events).snapshot.get? interface = some registry ∧
          registry.lists.get? library = some descriptors) ↔
        Shows events interface library descriptors) ∧
      (∀ own, (library, descriptors) ∈ (after events).foreign interface own ↔
        library ∉ own ∧ Shows events interface library descriptors)) ∧
    (∀ interface registry, (after events).snapshot.get? interface = some registry ↔
      interface ∈ (after events).interfaces ∧ registry = (after events).visible interface) ∧
    (after events).snapshot.keys = (after events).interfaces ∧
    Increasing ((after events).interfaces.map Interface.text) ∧
    (∀ interface, Increasing ((after events).visible interface).libraries ∧
      Increasing (((after events).visible interface).toList.map Prod.fst)) ∧
    (∀ interface own, Increasing (((after events).foreign interface own).map Prod.fst)) ∧
    (∀ library, Increasing (((after events).byLibrary library).map fun entry => entry.1.text)) := by
  refine ⟨fun interface library descriptors => ⟨?_, shows_iff.symm, ?_, ?_, ?_, fun own => ?_⟩,
    fun _ _ => get?_snapshot_eq_some_iff, keys_snapshot _,
    increasing_of_pairwise (interfaces_pairwise _), fun interface => ⟨?_, ?_⟩, fun interface own => ?_,
    fun library => ?_⟩
  · exact mem_byLibrary_iff.trans shows_iff.symm
  · exact Registry.mem_toList_iff.trans shows_iff.symm
  · rw [shows_iff, Registry.mem_libraries_iff]
    constructor
    · rintro ⟨some_there, same⟩
      exact ⟨same ▸ some_there, same⟩
    · rintro ⟨some_there, same⟩
      exact ⟨same ▸ some_there, same⟩
  · rw [shows_iff, ← Registry.mem_toList_iff]
    constructor
    · rintro ⟨registry, found, listed⟩
      obtain ⟨_, rfl⟩ := get?_snapshot_eq_some_iff.1 found
      exact Table.mem_entries_iff.2 listed
    · intro listed
      -- An interface without a page shows nothing, so the one that shows something has an entry.
      obtain ⟨page, present⟩ : ∃ page, (after events).page? interface = some page := by
        rw [← Option.isSome_iff_exists, Option.isSome_iff_ne_none]
        intro missing
        rw [visible, missing] at listed
        cases listed
      exact ⟨_, get?_snapshot_eq_some_iff.2 ⟨mem_interfaces_iff.2 ⟨page, present⟩, rfl⟩,
        Table.mem_entries_iff.1 listed⟩
  · rw [mem_foreign_iff, Registry.mem_toList_iff, shows_iff]
  · exact increasing_of_pairwise (Registry.libraries_pairwise _)
  · exact increasing_of_pairwise (Registry.libraries_pairwise _)
  · exact increasing_of_pairwise (foreign_pairwise _ interface own)
  · exact increasing_of_pairwise (byLibrary_pairwise _ library)

-- One page waits, the other is activated: the same library is seen at the second one only, but both
-- have an entry in the snapshot.
theorem views_show_one_relation_waiting_page :
    let display : Interface := ⟨"core::fmt::Display"⟩
    let extend : Interface := ⟨"core::iter::Extend"⟩
    let events : List Event :=
      [.submit display ⟨"petgraph", ["waiting"]⟩, .submit extend ⟨"petgraph", ["shown"]⟩,
        .activate extend]
    (extend, ["shown"]) ∈ (after events).byLibrary "petgraph" ∧
      (∀ descriptors, (display, descriptors) ∉ (after events).byLibrary "petgraph") ∧
      (after events).snapshot.keys = (after events).interfaces ∧
      display ∈ (after events).interfaces := by
  intro display extend events
  obtain ⟨views, _, keys, _⟩ := views_show_one_relation events
  refine ⟨(views _ _ _).1.2 ⟨⟨.activate extend, by simp [events], by decide⟩, rfl, by decide⟩, ?_, keys,
    by decide⟩
  intro descriptors seen
  obtain ⟨⟨event, present, activates⟩, _, _⟩ := (views _ _ _).1.1 seen
  revert event
  decide

end Catalog
end TraitCatalog
