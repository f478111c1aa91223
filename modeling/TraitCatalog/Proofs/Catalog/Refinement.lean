import TraitCatalog.Proofs.Catalog.Run

/-!
# A catalog is a family of pages

Each page of a catalog is what a page by itself becomes under the events that concern it. The ready
signal concerns every interface, also when the page is made only after it.
-/

namespace TraitCatalog

namespace Page

def final (page : Page) (events : List (Event Id)) : Page :=
  (Id.run (page.run events)).2

theorem final_append (page : Page) (first second : List (Event Id)) :
    page.final (first ++ second) = (page.final first).final second := by
  unfold final
  rw [run_append]
  rfl

end Page

namespace Catalog

/-- What an event is to the page of an interface. -/
def Event.seenBy (interface : Interface) : Event → Option (Page.Event Id)
  | .submit other contribution => if interface = other then some (.submit contribution) else none
  | .activate other => if interface = other then some .activate else none
  | .activateAll => some .activate

def projection (interface : Interface) (events : List Event) : List (Page.Event Id) :=
  events.filterMap (Event.seenBy interface)

theorem touch_step (catalog : Catalog) (event : Event) (interface : Interface) :
    (catalog.step event).2.touch interface =
      (catalog.touch interface).final (event.seenBy interface).toList := by
  cases event with
  | submit other contribution =>
    show (catalog.submit other contribution).touch interface = _
    rw [touch_submit, Event.seenBy]
    split <;> rfl
  | activate other =>
    show (catalog.activate other).2.touch interface = _
    rw [touch_activate, Event.seenBy]
    split <;> rfl
  | activateAll => exact touch_activateAll catalog interface

theorem touch_run (catalog : Catalog) (events : List Event) (interface : Interface) :
    (catalog.run events).2.touch interface =
      (catalog.touch interface).final (projection interface events) := by
  induction events generalizing catalog with
  | nil => rfl
  | cons event rest ih =>
    rw [run_cons, ih, touch_step, ← Page.final_append]
    congr 1
    unfold projection
    cases seen : event.seenBy interface <;> simp [seen]

theorem touch_after (events : List Event) (interface : Interface) :
    (after events).touch interface = Page.fresh.final (projection interface events) :=
  touch_run empty events interface

theorem isActivated_activate (page : Page) : page.activate.1.isActivated = !page.isDirect := by
  cases page <;> rfl

/-- The ready signal counts the pages that were still buffering. -/
theorem activateAll_count (catalog : Catalog) :
    catalog.activateAll.1 =
      catalog.interfaces.countP fun interface => !(catalog.touch interface).isDirect := by
  unfold interfaces Table.keys
  rw [List.countP_map]
  show (catalog.pages.entries.filter _).length = _
  rw [← List.countP_eq_length_filter]
  apply List.countP_congr
  intro entry present
  have found : catalog.page? entry.1 = some entry.2 := Table.mem_entries_iff.1 present
  have same := (page?_eq_some_iff.1 found).2
  simp [same, isActivated_activate]

/-- A run on a catalog, seen from each interface by itself. -/
theorem run_refines_pages (events : List Event) :
    ((after events).ready = true ↔ .activateAll ∈ events) ∧
    (∀ interface, (∃ page, (after events).page? interface = some page) ↔ Touched interface events) ∧
    (∀ interface page, (after events).page? interface = some page →
      page = Page.fresh.final (projection interface events)) ∧
    (∀ before interface later, events = before ++ .activate interface :: later →
      (empty.run events).1[before.length]? =
        some (.outcome (Page.fresh.final (projection interface before)).activate.1)) ∧
    (∀ before later, events = before ++ .activateAll :: later →
      (empty.run events).1[before.length]? =
        some (.switched ((after before).interfaces.countP fun interface =>
          !(Page.fresh.final (projection interface before)).isDirect)) ∧
      ∀ interface page, (after events).page? interface = some page → page.isDirect = true) := by
  refine ⟨ready_after events, ?_, ?_, ?_, ?_⟩
  · intro interface
    rw [← Option.isSome_iff_exists]
    exact isSome_page?_after events interface
  · intro interface page found
    rw [(page?_eq_some_iff.1 found).2, touch_after]
  · rintro before interface later rfl
    rw [answer_at, ← touch_after]
    rfl
  · rintro before later rfl
    -- The pages that exist are counted by what their own runs made of them.
    constructor
    · rw [answer_at]
      show some (Answer.switched (after before).activateAll.1) = _
      simp only [activateAll_count, touch_after]
    · intro interface page found
      rw [(page?_eq_some_iff.1 found).2]
      exact isDirect_of_activateAll empty (by simp) interface

-- The page of the second interface is made behind the ready signal and is activated once more.
theorem run_refines_pages_late_page :
    let early : Interface := ⟨"core::fmt::Display"⟩
    let late : Interface := ⟨"core::iter::Extend"⟩
    let events : List Event :=
      [.submit early ⟨"petgraph", ["early"]⟩, .activateAll, .submit late ⟨"petgraph", ["late"]⟩,
        .activate late]
    (empty.run events).1[1]? = some (.switched 1) ∧
      (empty.run events).1[3]? = some (.outcome .alreadyActive) ∧
      ∃ page, (after events).page? late = some page ∧ page.isDirect = true := by
  intro early late events
  obtain ⟨_, touched, _, outcomes, signals⟩ := run_refines_pages events
  obtain ⟨page, found⟩ := (touched late).2 ⟨.activate late, by simp [events], rfl⟩
  have signal := signals [.submit early ⟨"petgraph", ["early"]⟩] _ rfl
  exact ⟨signal.1, outcomes (events.take 3) late [] rfl, page, found, signal.2 late page found⟩

end Catalog
end TraitCatalog
