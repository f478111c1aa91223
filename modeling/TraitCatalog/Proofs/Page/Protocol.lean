import TraitCatalog.Page
import TraitCatalog.Proofs.Registry

/-!
# The activation protocol

A run hands a page any mixture of contributions and activations. Whatever the mixture is, nothing is
lost, doubled or put out of order, and the first activation alone makes a registry. A factory may
have effects in any monad: an equation between runs then says which factories were run as well.
-/

namespace TraitCatalog.Page

/-! ### Single steps -/

@[simp]
theorem isDirect_submit (page : Page) (contribution : Contribution) :
    (page.submit contribution).isDirect = page.isDirect := by
  cases page <;> rfl

@[simp]
theorem isDirect_activate (page : Page) : page.activate.2.isDirect = true := by
  cases page <;> rfl

theorem activate_activate (page : Page) : page.activate.2.activate.2 = page.activate.2 := by
  cases page <;> rfl

/-- What a page shows once it is activated. -/
def held : Page → Registry
  | .buffering pending => Registry.empty.registerAll pending
  | .direct registry => registry

theorem held_submit (page : Page) (contribution : Contribution) :
    (page.submit contribution).held = page.held.register contribution := by
  cases page with
  | buffering pending => exact Registry.registerAll_append _ pending [contribution]
  | direct registry => rfl

@[simp]
theorem held_activate (page : Page) : page.activate.2.held = page.held := by
  cases page <;> rfl

theorem eq_direct_of_isDirect {page : Page} (active : page.isDirect = true) :
    page = direct page.held := by
  cases page with
  | buffering pending => cases active
  | direct registry => rfl

/-! ### Runs -/

inductive Event (m : Type → Type) where
  | submit (contribution : Contribution)
  | activate
  | activateWith (factory : m Registry)

variable {m : Type → Type}

namespace Event

def contribution? : Event m → Option Contribution
  | .submit contribution => some contribution
  | _ => none

def isActivation : Event m → Bool
  | .submit _ => false
  | _ => true

def factory? [Monad m] : Event m → Option (m Registry)
  | .submit _ => none
  | .activate => some (pure .empty)
  | .activateWith factory => some factory

theorem contribution?_of_activation {event : Event m} (active : event.isActivation = true) :
    event.contribution? = none := by
  cases event with
  | submit contribution => cases active
  | activate => rfl
  | activateWith factory => rfl

theorem isActivation_of_factory [Monad m] {event : Event m} {factory : m Registry}
    (made : event.factory? = some factory) : event.isActivation = true := by
  cases event with
  | submit contribution => cases made
  | activate => rfl
  | activateWith given => rfl

theorem exists_factory [Monad m] {event : Event m} (active : event.isActivation = true) :
    ∃ factory, event.factory? = some factory := by
  cases event with
  | submit contribution => cases active
  | activate => exact ⟨_, rfl⟩
  | activateWith factory => exact ⟨factory, rfl⟩

end Event

def submissions (events : List (Event m)) : List Contribution :=
  events.filterMap Event.contribution?

def Quiet (events : List (Event m)) : Prop :=
  ∀ event ∈ events, event.isActivation = false

instance (events : List (Event m)) : Decidable (Quiet events) :=
  inferInstanceAs (Decidable (∀ event ∈ events, event.isActivation = false))

theorem quiet_nil : Quiet ([] : List (Event m)) := by
  intro event member
  cases member

theorem exists_first_activation {events : List (Event m)} (active : ¬Quiet events) :
    ∃ before trigger after, events = before ++ trigger :: after ∧ Quiet before ∧
      trigger.isActivation = true := by
  induction events with
  | nil => exact (active quiet_nil).elim
  | cons event rest ih =>
    cases here : event.isActivation with
    | true => exact ⟨[], event, rest, rfl, quiet_nil, here⟩
    | false =>
      have later : ¬Quiet rest := fun quiet => active (List.forall_mem_cons.2 ⟨here, quiet⟩)
      obtain ⟨before, trigger, after, split, quiet, first⟩ := ih later
      exact ⟨event :: before, trigger, after, congrArg (event :: ·) split,
        List.forall_mem_cons.2 ⟨here, quiet⟩, first⟩

variable [Monad m]

def step (page : Page) : Event m → m (Option Outcome × Page)
  | .submit contribution => pure (none, page.submit contribution)
  | .activate => pure (some page.activate.1, page.activate.2)
  | .activateWith factory => do
    let (outcome, next) ← page.activateWith factory
    return (some outcome, next)

/-- Runs events on a page and gives the outcomes of the activations, in order. -/
def run (page : Page) : List (Event m) → m (List Outcome × Page)
  | [] => pure ([], page)
  | event :: rest => do
    let (outcome, next) ← page.step event
    let (outcomes, last) ← next.run rest
    return (outcome.toList ++ outcomes, last)

variable [LawfulMonad m]

theorem run_append (page : Page) (first second : List (Event m)) :
    page.run (first ++ second) = do
      let (outcomes, middle) ← page.run first
      let (later, last) ← middle.run second
      return (outcomes ++ later, last) := by
  induction first generalizing page with
  | nil => simp [run]
  | cons event rest ih => simp [run, ih, List.append_assoc]

theorem step_direct_of_activation (registry : Registry) {event : Event m}
    (active : event.isActivation = true) :
    (direct registry).step event = pure (some .alreadyActive, direct registry) := by
  cases event with
  | submit contribution => cases active
  | activate => rfl
  | activateWith factory => simp [step, activateWith]

theorem run_direct (registry : Registry) (events : List (Event m)) :
    (direct registry).run events =
      pure (List.replicate (events.countP Event.isActivation) .alreadyActive,
        direct (registry.registerAll (submissions events))) := by
  induction events generalizing registry with
  | nil => rfl
  | cons event rest ih =>
    cases active : event.isActivation with
    | true =>
      have none_sent := Event.contribution?_of_activation active
      rw [run, step_direct_of_activation registry active]
      simp [ih, active, submissions, none_sent, List.replicate_succ]
    | false =>
      cases event with
      | submit contribution =>
        simp [run, step, submit, ih, submissions, Event.contribution?, active]
      | activate => cases active
      | activateWith factory => cases active

theorem run_buffering_of_quiet (pending : List Contribution) {events : List (Event m)}
    (quiet : Quiet events) :
    (buffering pending).run events = pure ([], buffering (pending ++ submissions events)) := by
  induction events generalizing pending with
  | nil => simp [run, submissions]
  | cons event rest ih =>
    obtain ⟨here, later⟩ := List.forall_mem_cons.1 quiet
    cases event with
    | submit contribution =>
      simp [run, step, submit, ih _ later, submissions, Event.contribution?]
    | activate => cases here
    | activateWith factory => cases here

theorem step_buffering_of_factory (pending : List Contribution) {event : Event m}
    {factory : m Registry} (made : event.factory? = some factory) :
    (buffering pending).step event = do
      let seed ← factory
      return (some (.activated pending.length), direct (seed.registerAll pending)) := by
  cases event with
  | submit contribution => cases made
  | activate =>
    obtain rfl := Option.some.inj made
    simp [step, activate, activateWith]
  | activateWith given =>
    obtain rfl := Option.some.inj made
    simp [step, activateWith]

/-- The whole run has the effects of the first activation's factory and no others. -/
theorem run_first_activation {before after : List (Event m)} {trigger : Event m}
    {factory : m Registry} (quiet : Quiet before) (made : trigger.factory? = some factory) :
    fresh.run (before ++ trigger :: after) = do
      let seed ← factory
      return (.activated (submissions before).length ::
          List.replicate (after.countP Event.isActivation) .alreadyActive,
        direct (seed.registerAll (submissions (before ++ trigger :: after)))) := by
  have none_sent := Event.contribution?_of_activation (Event.isActivation_of_factory made)
  have sent : submissions (before ++ trigger :: after) = submissions before ++ submissions after := by
    simp [submissions, none_sent]
  -- Three stretches: all waits, the trigger replays it, the rest goes straight in.
  rw [run_append, fresh, run_buffering_of_quiet [] quiet, sent]
  simp [run, step_buffering_of_factory _ made, run_direct, Registry.registerAll_append]

theorem run_later_activation {events : List (Event m)} (active : ¬Quiet events) {later : Event m}
    (again : later.isActivation = true) :
    fresh.run (events ++ [later]) = do
      let (outcomes, page) ← fresh.run events
      return (outcomes ++ [.alreadyActive], page) := by
  obtain ⟨before, trigger, after, rfl, quiet, first⟩ := exists_first_activation active
  obtain ⟨factory, made⟩ := Event.exists_factory first
  rw [run_append, run_first_activation quiet made]
  simp [run, step_direct_of_activation _ again]

/-- The protocol over a whole run. Before the first activation all contributions wait in their order
and no query sees them. From it on the page is direct: every library has what the first factory gave
it, then all of its contributions, whether they came before the activation or after it. -/
theorem run_fresh_exactly_once (events : List (Event m)) :
    (Quiet events →
      fresh.run events = pure ([], buffering (submissions events)) ∧
      (buffering (submissions events)).visible.toList = [] ∧
      (buffering (submissions events)).visible.libraries = [] ∧
      ∀ library, (buffering (submissions events)).visible.lookup library = []) ∧
    (¬Quiet events →
      (∃ before trigger after factory,
        events = before ++ trigger :: after ∧ Quiet before ∧ trigger.factory? = some factory ∧
        fresh.run events = do
          let seed ← factory
          return (.activated (submissions before).length ::
              List.replicate (after.countP Event.isActivation) .alreadyActive,
            direct (seed.registerAll (submissions events)))) ∧
      (∀ (seed : Registry) (library : Library),
        (direct (seed.registerAll (submissions events))).visible.lookup library =
          seed.lookup library ++ Contribution.gather library (submissions events)) ∧
      ∀ later : Event m, later.isActivation = true →
        fresh.run (events ++ [later]) = do
          let (outcomes, page) ← fresh.run events
          return (outcomes ++ [.alreadyActive], page)) := by
  constructor
  · intro quiet
    refine ⟨?_, rfl, rfl, fun _ => rfl⟩
    exact run_buffering_of_quiet [] quiet
  · intro active
    refine ⟨?_, ?_, ?_⟩
    · obtain ⟨before, trigger, after, rfl, quiet, first⟩ := exists_first_activation active
      obtain ⟨factory, made⟩ := Event.exists_factory first
      exact ⟨before, trigger, after, factory, rfl, quiet, made, run_first_activation quiet made⟩
    · intro seed library
      exact Registry.lookup_registerAll seed (submissions events) library
    · intro later again
      exact run_later_activation active again

-- The factories count how often they are run.
theorem run_fresh_exactly_once_counted :
    let seeded : StateM Nat Registry := do
      modify (· + 1)
      return Registry.empty.register ⟨"petgraph", ["seed"]⟩
    let later : Event (StateM Nat) := .activateWith seeded
    let events : List (Event (StateM Nat)) :=
      [.submit ⟨"petgraph", ["early"]⟩, .activateWith seeded, .submit ⟨"petgraph", ["late"]⟩]
    ¬Quiet events ∧
      (fresh.run (events ++ [later]) = do
        let (outcomes, page) ← fresh.run events
        return (outcomes ++ [.alreadyActive], page)) ∧
      ((fresh.run (events ++ [later])).run 0).2 = 1 := by
  intro seeded later events
  have active : ¬Quiet events := by decide
  exact ⟨active, ((run_fresh_exactly_once events).2 active).2.2 later rfl, rfl⟩

end TraitCatalog.Page
