import TraitCatalog.Catalog
import TraitCatalog.Proofs.Page.Protocol

/-!
# Runs of a catalog

`touch` gives every interface a page, the ones that nobody asked for too: such a page is made when it
is first needed, and what it would be changes with the ready signal. Seen through `touch`, each
operation acts on the pages one by one, so that a run is described interface by interface.
-/

namespace TraitCatalog.Catalog

/-! ### Single operations -/

theorem page?_setPage (catalog : Catalog) (interface other : Interface) (page : Page) :
    (catalog.setPage interface page).page? other =
      if other = interface then some page else catalog.page? other :=
  Table.get?_insert catalog.pages interface other page

theorem isSome_page?_setPage (catalog : Catalog) (interface other : Interface) (page : Page) :
    ((catalog.setPage interface page).page? other).isSome ↔
      (catalog.page? other).isSome ∨ some interface = some other := by
  rw [page?_setPage]
  by_cases same : other = interface
  · simp [same]
  · simp [same, Ne.symm same]

theorem touch_setPage (catalog : Catalog) (interface other : Interface) (page : Page) :
    (catalog.setPage interface page).touch other =
      if other = interface then page else catalog.touch other := by
  unfold touch
  rw [page?_setPage]
  split <;> rfl

theorem touch_update (catalog : Catalog) (interface other : Interface) (change : Page → Page) :
    (catalog.setPage interface (change (catalog.touch interface))).touch other =
      if other = interface then change (catalog.touch other) else catalog.touch other := by
  rw [touch_setPage]
  split
  · rename_i same
    rw [same]
  · rfl

theorem touch_submit (catalog : Catalog) (interface other : Interface)
    (contribution : Contribution) :
    (catalog.submit interface contribution).touch other =
      if other = interface then (catalog.touch other).submit contribution
      else catalog.touch other :=
  touch_update catalog interface other fun page => page.submit contribution

theorem touch_activate (catalog : Catalog) (interface other : Interface) :
    (catalog.activate interface).2.touch other =
      if other = interface then (catalog.touch other).activate.2 else catalog.touch other :=
  touch_update catalog interface other fun page => page.activate.2

theorem page?_activateAll (catalog : Catalog) (interface : Interface) :
    catalog.activateAll.2.page? interface =
      (catalog.page? interface).map fun page => page.activate.2 :=
  Table.get?_mapValues _ catalog.pages interface

/-- The ready signal activates every page, also those that are not there yet. -/
theorem touch_activateAll (catalog : Catalog) (interface : Interface) :
    catalog.activateAll.2.touch interface = (catalog.touch interface).activate.2 := by
  unfold touch
  rw [page?_activateAll]
  cases catalog.page? interface with
  | some page => rfl
  | none =>
    -- The page is still to be made: the signal changes what it would start as.
    show Page.fresh.activate.2 = catalog.newPage.activate.2
    unfold newPage
    split
    · exact (Page.activate_activate Page.fresh).symm
    · rfl

theorem page?_eq_some_iff {catalog : Catalog} {interface : Interface} {page : Page} :
    catalog.page? interface = some page ↔
      (catalog.page? interface).isSome ∧ page = catalog.touch interface := by
  unfold touch
  cases catalog.page? interface with
  | none => simp
  | some found => simp [eq_comm]

/-! ### Events -/

inductive Event where
  | submit (interface : Interface) (contribution : Contribution)
  | activate (interface : Interface)
  | activateAll
deriving DecidableEq

namespace Event

/-- The interface that an event is addressed to; the ready signal is addressed to none. -/
def interface? : Event → Option Interface
  | .submit interface _ => some interface
  | .activate interface => some interface
  | .activateAll => none

def contributionTo? (interface : Interface) : Event → Option Contribution
  | .submit other contribution => if interface = other then some contribution else none
  | _ => none

def activates (interface : Interface) : Event → Bool
  | .submit _ _ => false
  | .activate other => interface = other
  | .activateAll => true

end Event

inductive Answer where
  | taken
  | outcome (outcome : Page.Outcome)
  | switched (count : Nat)
deriving DecidableEq

def step (catalog : Catalog) : Event → Answer × Catalog
  | .submit interface contribution => (.taken, catalog.submit interface contribution)
  | .activate interface =>
    let (outcome, next) := catalog.activate interface
    (.outcome outcome, next)
  | .activateAll =>
    let (count, next) := catalog.activateAll
    (.switched count, next)

theorem ready_step (catalog : Catalog) (event : Event) :
    (catalog.step event).2.ready = (catalog.ready || event = .activateAll) := by
  cases event with
  | submit interface contribution => exact (Bool.or_false _).symm
  | activate interface => exact (Bool.or_false _).symm
  | activateAll => exact (Bool.or_true _).symm

theorem isSome_page?_step (catalog : Catalog) (event : Event) (interface : Interface) :
    ((catalog.step event).2.page? interface).isSome ↔
      (catalog.page? interface).isSome ∨ event.interface? = some interface := by
  cases event with
  | submit other contribution => exact isSome_page?_setPage catalog other interface _
  | activate other => exact isSome_page?_setPage catalog other interface _
  | activateAll =>
    show (catalog.activateAll.2.page? interface).isSome ↔ _
    rw [page?_activateAll]
    simp [Event.interface?]

theorem held_step (catalog : Catalog) (event : Event) (interface : Interface) :
    ((catalog.step event).2.touch interface).held =
      (catalog.touch interface).held.registerAll (event.contributionTo? interface).toList := by
  cases event with
  | submit other contribution =>
    show ((catalog.submit other contribution).touch interface).held = _
    rw [touch_submit, Event.contributionTo?]
    split
    · exact Page.held_submit _ contribution
    · rfl
  | activate other =>
    show ((catalog.activate other).2.touch interface).held = _
    rw [touch_activate]
    split
    · exact Page.held_activate _
    · rfl
  | activateAll =>
    show (catalog.activateAll.2.touch interface).held = _
    rw [touch_activateAll]
    exact Page.held_activate _

theorem isDirect_step (catalog : Catalog) (event : Event) (interface : Interface) :
    ((catalog.step event).2.touch interface).isDirect =
      ((catalog.touch interface).isDirect || event.activates interface) := by
  cases event with
  | submit other contribution =>
    show ((catalog.submit other contribution).touch interface).isDirect = _
    rw [touch_submit]
    split <;> simp [Event.activates]
  | activate other =>
    show ((catalog.activate other).2.touch interface).isDirect = _
    rw [touch_activate]
    split <;> simp_all [Event.activates]
  | activateAll =>
    show (catalog.activateAll.2.touch interface).isDirect = _
    rw [touch_activateAll]
    simp [Event.activates]

/-! ### Runs -/

/-- Runs events on a catalog and gives what each of them returned. -/
def run (catalog : Catalog) : List Event → List Answer × Catalog
  | [] => ([], catalog)
  | event :: rest =>
    let (answer, next) := catalog.step event
    let (answers, last) := next.run rest
    (answer :: answers, last)

def after (events : List Event) : Catalog :=
  (empty.run events).2

def Touched (interface : Interface) (events : List Event) : Prop :=
  ∃ event ∈ events, event.interface? = some interface

def contributionsTo (interface : Interface) (events : List Event) : List Contribution :=
  events.filterMap (Event.contributionTo? interface)

theorem contributionsTo_append (interface : Interface) (first second : List Event) :
    contributionsTo interface (first ++ second) =
      contributionsTo interface first ++ contributionsTo interface second :=
  List.filterMap_append

theorem touched_append (interface : Interface) (first second : List Event) :
    Touched interface (first ++ second) ↔ Touched interface first ∨ Touched interface second := by
  simp only [Touched, List.mem_append]
  grind

theorem run_cons (catalog : Catalog) (event : Event) (rest : List Event) :
    catalog.run (event :: rest) =
      ((catalog.step event).1 :: ((catalog.step event).2.run rest).1,
        ((catalog.step event).2.run rest).2) :=
  rfl

theorem run_append (catalog : Catalog) (first second : List Event) :
    catalog.run (first ++ second) =
      ((catalog.run first).1 ++ ((catalog.run first).2.run second).1,
        ((catalog.run first).2.run second).2) := by
  induction first generalizing catalog with
  | nil => rfl
  | cons event rest ih =>
    rw [List.cons_append, run_cons, run_cons, ih]
    rfl

theorem length_answers (catalog : Catalog) (events : List Event) :
    (catalog.run events).1.length = events.length := by
  induction events generalizing catalog with
  | nil => rfl
  | cons event rest ih => exact congrArg (· + 1) (ih _)

theorem answer_at (catalog : Catalog) (before later : List Event) (event : Event) :
    (catalog.run (before ++ event :: later)).1[before.length]? =
      some ((catalog.run before).2.step event).1 := by
  rw [run_append]
  show ((catalog.run before).1 ++ _)[before.length]? = _
  rw [← length_answers catalog before, List.getElem?_append_right (Nat.le_refl _), Nat.sub_self]
  rfl

theorem submitAll_eq_run (catalog : Catalog) (interface : Interface)
    (contributions : List Contribution) :
    catalog.submitAll interface contributions =
      (catalog.run (contributions.map (.submit interface))).2 := by
  induction contributions generalizing catalog with
  | nil => rfl
  | cons contribution rest ih => exact ih _

theorem ready_run (catalog : Catalog) (events : List Event) :
    (catalog.run events).2.ready = true ↔ catalog.ready = true ∨ .activateAll ∈ events := by
  induction events generalizing catalog with
  | nil => simp [run]
  | cons event rest ih =>
    rw [run_cons, ih, ready_step, List.mem_cons, Bool.or_eq_true, decide_eq_true_eq, or_assoc,
      eq_comm (a := event)]

theorem isSome_page?_run (catalog : Catalog) (events : List Event) (interface : Interface) :
    ((catalog.run events).2.page? interface).isSome ↔
      (catalog.page? interface).isSome ∨ Touched interface events := by
  induction events generalizing catalog with
  | nil => simp [run, Touched]
  | cons event rest ih =>
    rw [run_cons, ih, isSome_page?_step, or_assoc]
    simp [Touched]

/-- What a page holds is what it held before, then the contributions to it, in their order. -/
theorem held_run (catalog : Catalog) (events : List Event) (interface : Interface) :
    ((catalog.run events).2.touch interface).held =
      (catalog.touch interface).held.registerAll (contributionsTo interface events) := by
  induction events generalizing catalog with
  | nil => rfl
  | cons event rest ih =>
    rw [run_cons, ih, held_step, ← Registry.registerAll_append]
    congr 1
    unfold contributionsTo
    cases sent : event.contributionTo? interface <;> simp [sent]

theorem isDirect_run (catalog : Catalog) (events : List Event) (interface : Interface) :
    ((catalog.run events).2.touch interface).isDirect =
      ((catalog.touch interface).isDirect || events.any (Event.activates interface)) := by
  induction events generalizing catalog with
  | nil => exact (Bool.or_false _).symm
  | cons event rest ih =>
    rw [run_cons, ih, isDirect_step, Bool.or_assoc]
    rfl

theorem ready_after (events : List Event) : (after events).ready = true ↔ .activateAll ∈ events := by
  refine (ready_run empty events).trans ?_
  simp [empty]

theorem isSome_page?_after (events : List Event) (interface : Interface) :
    ((after events).page? interface).isSome ↔ Touched interface events := by
  refine (isSome_page?_run empty events interface).trans ?_
  simp [empty, page?]

theorem isDirect_of_activateAll (catalog : Catalog) {events : List Event}
    (signalled : .activateAll ∈ events) (interface : Interface) :
    ((catalog.run events).2.touch interface).isDirect = true := by
  rw [isDirect_run]
  have activated : events.any (Event.activates interface) = true :=
    List.any_eq_true.2 ⟨.activateAll, signalled, rfl⟩
  rw [activated, Bool.or_true]

end TraitCatalog.Catalog
