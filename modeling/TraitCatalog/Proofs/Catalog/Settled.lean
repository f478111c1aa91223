import TraitCatalog.Proofs.Catalog.Run

/-!
# Settled catalogs

In a settled catalog nothing waits any more: every page is direct. Such a catalog is given by its
pages and by what they show, so two of them are equal when their answers are.
-/

namespace TraitCatalog

/-! ### What is held -/

/-- The descriptors that a page has for a library, shown or still waiting. -/
def Page.heldFor (library : Library) : Page → List Descriptor
  | .buffering pending => Contribution.gather library pending
  | .direct registry => registry.lookup library

theorem Page.lookup_held (page : Page) (library : Library) :
    page.held.lookup library = page.heldFor library := by
  cases page with
  | buffering pending =>
    show (Registry.empty.registerAll pending).lookup library = _
    rw [Registry.lookup_registerAll]
    rfl
  | direct registry => rfl

namespace Catalog

def heldFor (catalog : Catalog) (interface : Interface) (library : Library) : List Descriptor :=
  match catalog.page? interface with
  | some page => page.heldFor library
  | none => []

theorem held_newPage (catalog : Catalog) : catalog.newPage.held = .empty := by
  unfold newPage
  split
  · exact Page.held_activate Page.fresh
  · rfl

theorem lookup_held_touch (catalog : Catalog) (interface : Interface) (library : Library) :
    (catalog.touch interface).held.lookup library = catalog.heldFor interface library := by
  unfold touch heldFor
  cases catalog.page? interface with
  | some page => exact Page.lookup_held page library
  | none =>
    show catalog.newPage.held.lookup library = []
    rw [held_newPage]
    rfl

/-! ### Settled catalogs -/

/-- Every page is direct, those still to be made too. -/
def Settled (catalog : Catalog) : Prop :=
  ∀ interface, (catalog.touch interface).isDirect = true

theorem settled_run (catalog : Catalog) {events : List Event} (signalled : .activateAll ∈ events) :
    Settled (catalog.run events).2 :=
  isDirect_of_activateAll catalog signalled

theorem settled_of_ready {catalog : Catalog} (ready : catalog.ready = true)
    (direct : ∀ interface page, catalog.page? interface = some page → page.isDirect = true) :
    Settled catalog := by
  intro interface
  unfold touch
  cases found : catalog.page? interface with
  | some page => exact direct interface page found
  | none =>
    show catalog.newPage.isDirect = true
    rw [newPage, if_pos ready]
    rfl

theorem Settled.isDirect_of_page? {catalog : Catalog} (settled : Settled catalog)
    {interface : Interface} {page : Page} (found : catalog.page? interface = some page) :
    page.isDirect = true := by
  rw [(page?_eq_some_iff.1 found).2]
  exact settled interface

theorem Settled.visible_eq {catalog : Catalog} (settled : Settled catalog) (interface : Interface) :
    catalog.visible interface = (catalog.touch interface).held := by
  unfold visible
  cases found : catalog.page? interface with
  | some page =>
    have active := settled.isDirect_of_page? found
    rw [← (page?_eq_some_iff.1 found).2, Page.eq_direct_of_isDirect active]
    rfl
  | none =>
    have new : catalog.touch interface = catalog.newPage := by simp [touch, found]
    rw [new, held_newPage]

theorem get?_snapshot (catalog : Catalog) (interface : Interface) :
    catalog.snapshot.get? interface = (catalog.page? interface).map Page.visible :=
  Table.get?_mapValues Page.visible catalog.pages interface

theorem Settled.page?_eq {catalog : Catalog} (settled : Settled catalog) (interface : Interface) :
    catalog.page? interface = (catalog.snapshot.get? interface).map Page.direct := by
  rw [get?_snapshot]
  cases found : catalog.page? interface with
  | none => rfl
  | some page =>
    have active := settled.isDirect_of_page? found
    cases page with
    | buffering pending => cases active
    | direct registry => rfl

theorem ext_page? {left right : Catalog} (ready : left.ready = right.ready)
    (agree : ∀ interface, left.page? interface = right.page? interface) : left = right := by
  obtain ⟨leftReady, leftPages⟩ := left
  obtain ⟨rightReady, rightPages⟩ := right
  have pages : leftPages = rightPages := Table.ext_get? agree
  subst pages
  subst ready
  rfl

theorem Settled.ext_snapshot {left right : Catalog} (leftSettled : Settled left)
    (rightSettled : Settled right) (ready : left.ready = right.ready)
    (same : left.snapshot = right.snapshot) : left = right := by
  apply ext_page? ready
  intro interface
  rw [leftSettled.page?_eq, rightSettled.page?_eq, same]

theorem Settled.ext_lookup {left right : Catalog} (leftSettled : Settled left)
    (rightSettled : Settled right) (ready : left.ready = right.ready)
    (pages : ∀ interface, (left.page? interface).isSome ↔ (right.page? interface).isSome)
    (agree : ∀ interface library, (left.touch interface).held.lookup library =
      (right.touch interface).held.lookup library) : left = right := by
  apply ext_page? ready
  intro interface
  have held : (left.touch interface).held = (right.touch interface).held :=
    Registry.ext_lookup (agree interface)
  have touch : left.touch interface = right.touch interface := by
    rw [Page.eq_direct_of_isDirect (leftSettled interface),
      Page.eq_direct_of_isDirect (rightSettled interface), held]
  apply Option.ext
  intro page
  rw [page?_eq_some_iff, page?_eq_some_iff, pages, touch]

/-! ### Contributions before the signal -/

theorem activateAll_submitAll_eq_run (catalog : Catalog) (interface : Interface)
    (contributions : List Contribution) :
    (catalog.submitAll interface contributions).activateAll.2 =
      (catalog.run (contributions.map (.submit interface) ++ [.activateAll])).2 := by
  rw [submitAll_eq_run, run_append]
  rfl

theorem contributionsTo_submits (interface other : Interface) (contributions : List Contribution) :
    contributionsTo other (contributions.map (.submit interface) ++ [.activateAll]) =
      if other = interface then contributions else [] := by
  unfold contributionsTo
  rw [List.filterMap_append, List.filterMap_map]
  by_cases same : other = interface <;>
    simp [Function.comp_def, Event.contributionTo?, same]

theorem touched_submits (interface other : Interface) (contributions : List Contribution) :
    Touched other (contributions.map (.submit interface) ++ [.activateAll]) ↔
      contributions ≠ [] ∧ interface = other := by
  simp only [Touched, List.mem_append, List.mem_map, List.mem_singleton]
  cases contributions with
  | nil => simp [Event.interface?]
  | cons contribution rest =>
    constructor
    · rintro ⟨_, ⟨_, _, rfl⟩ | rfl, named⟩
      · exact ⟨List.cons_ne_nil _ _, Option.some.inj named⟩
      · cases named
    · rintro ⟨_, rfl⟩
      exact ⟨_, Or.inl ⟨contribution, List.mem_cons_self, rfl⟩, rfl⟩

/-- Behind the ready signal it only shows what each library sent. -/
theorem activateAll_submitAll_eq (catalog : Catalog) (interface : Interface)
    {left right : List Contribution} (leftSome : left ≠ []) (rightSome : right ≠ [])
    (same : ∀ library, Contribution.gather library left = Contribution.gather library right) :
    (catalog.submitAll interface left).activateAll.2 =
      (catalog.submitAll interface right).activateAll.2 := by
  have signalled : ∀ contributions : List Contribution,
      .activateAll ∈ contributions.map (Event.submit interface) ++ [.activateAll] := by simp
  have ready := fun contributions => (ready_run catalog _).2 (Or.inr (signalled contributions))
  rw [activateAll_submitAll_eq_run, activateAll_submitAll_eq_run]
  apply Settled.ext_lookup (settled_run catalog (signalled left))
    (settled_run catalog (signalled right)) ((ready left).trans (ready right).symm)
  · intro other
    rw [isSome_page?_run, isSome_page?_run, touched_submits, touched_submits]
    simp [leftSome, rightSome]
  · intro other library
    rw [held_run, held_run, Registry.lookup_registerAll, Registry.lookup_registerAll,
      contributionsTo_submits, contributionsTo_submits]
    split
    · rw [same library]
    · rfl

end Catalog
end TraitCatalog
