import TraitCatalog.LoadPlan
import TraitCatalog.Proofs.Catalog.Settled

/-!
# Running a load plan

A load plan that runs fragments which are there is a run of the catalog: each fragment submits its
contributions to its interface, and the ready signal is given once. What the plan leaves is
therefore what was there, then what the fragments bring in the order of the plan. `LoadPlan.Loaded`
says so, and only one catalog fits it.
-/

namespace TraitCatalog

/-! ### Fragments as events -/

namespace Fragment

def submissions (fragment : Fragment) : List Catalog.Event :=
  fragment.contributions.map (.submit fragment.interface)

def contributionsTo (interface : Interface) (fragments : List Fragment) : List Contribution :=
  (fragments.filter fun fragment => fragment.interface = interface).flatMap contributions

theorem contributionsTo_append (interface : Interface) (first second : List Fragment) :
    contributionsTo interface (first ++ second) =
      contributionsTo interface first ++ contributionsTo interface second := by
  simp [contributionsTo]

theorem contributionsTo_submissions (fragment : Fragment) (interface : Interface) :
    Catalog.contributionsTo interface fragment.submissions =
      if fragment.interface = interface then fragment.contributions else [] := by
  unfold Catalog.contributionsTo submissions
  rw [List.filterMap_map]
  by_cases same : fragment.interface = interface
  · subst same
    have each : Catalog.Event.contributionTo? fragment.interface ∘ .submit fragment.interface =
        some := by
      funext contribution
      exact if_pos rfl
    rw [each, List.filterMap_some, if_pos rfl]
  · have each : Catalog.Event.contributionTo? interface ∘ .submit fragment.interface =
        fun _ => none := by
      funext contribution
      exact if_neg (Ne.symm same)
    rw [each, if_neg same]
    exact List.filterMap_eq_nil_iff.2 fun _ _ => rfl

theorem touched_submissions (fragment : Fragment) (interface : Interface) :
    Catalog.Touched interface fragment.submissions ↔
      fragment.interface = interface ∧ fragment.contributions ≠ [] := by
  simp only [Catalog.Touched, submissions, List.mem_map]
  constructor
  · rintro ⟨event, ⟨contribution, present, rfl⟩, same⟩
    exact ⟨Option.some.inj same, List.ne_nil_of_mem present⟩
  · rintro ⟨same, some_sent⟩
    obtain ⟨contribution, present⟩ := List.exists_mem_of_ne_nil _ some_sent
    exact ⟨_, ⟨contribution, present, rfl⟩, congrArg some same⟩

end Fragment

theorem LoadOrder.arrange_eq {α : Type} (order : LoadOrder) (found : List α) :
    order.arrange found =
      match order with
      | .discovered => found
      | .reverse => found.reverse := by
  cases order <;> rfl

theorem LoadOrder.mem_arrange {α : Type} {order : LoadOrder} {found : List α} {item : α} :
    item ∈ order.arrange found ↔ item ∈ found := by
  cases order with
  | discovered => exact Iff.rfl
  | reverse => exact List.mem_reverse

namespace LoadPlan

/-! ### Plans as runs -/

def fragment? (fragments : List Fragment) : LoadEvent → Option Fragment
  | .submit index => fragments[index]?
  | .activate => none

def operations (fragments : List Fragment) : LoadEvent → List Catalog.Event
  | .submit index =>
    match fragments[index]? with
    | some fragment => fragment.submissions
    | none => []
  | .activate => [.activateAll]

def trace (fragments : List Fragment) (events : List LoadEvent) : List Catalog.Event :=
  events.flatMap (operations fragments)

theorem contributionsTo_operations (fragments : List Fragment) (event : LoadEvent)
    (interface : Interface) :
    Catalog.contributionsTo interface (operations fragments event) =
      Fragment.contributionsTo interface (fragment? fragments event).toList := by
  cases event with
  | submit index =>
    rw [operations, fragment?]
    cases fragments[index]? with
    | none => rfl
    | some fragment =>
      refine (Fragment.contributionsTo_submissions fragment interface).trans ?_
      by_cases same : fragment.interface = interface <;> simp [Fragment.contributionsTo, same]
  | activate => rfl

theorem touched_operations (fragments : List Fragment) (event : LoadEvent)
    (interface : Interface) :
    Catalog.Touched interface (operations fragments event) ↔
      ∃ fragment, fragment? fragments event = some fragment ∧
        fragment.interface = interface ∧ fragment.contributions ≠ [] := by
  cases event with
  | submit index =>
    rw [operations, fragment?]
    cases fragments[index]? with
    | none => simp [Catalog.Touched]
    | some fragment => simp [Fragment.touched_submissions]
  | activate => simp [operations, fragment?, Catalog.Touched, Catalog.Event.interface?]

theorem run_eq_trace (fragments : List Fragment) (events : List LoadEvent) (catalog : Catalog)
    (inRange : ∀ index, .submit index ∈ events → index < fragments.length) :
    run fragments events catalog = (none, (catalog.run (trace fragments events)).2) := by
  induction events generalizing catalog with
  | nil => rfl
  | cons event rest ih =>
    have later : ∀ index, .submit index ∈ rest → index < fragments.length :=
      fun index member => inRange index (List.mem_cons_of_mem _ member)
    rw [trace, List.flatMap_cons, Catalog.run_append]
    cases event with
    | submit index =>
      have bound := inRange index List.mem_cons_self
      have found : fragments[index]? = some fragments[index] := List.getElem?_eq_getElem bound
      rw [run, operations, found]
      exact (ih _ later).trans (by rw [Catalog.submitAll_eq_run]; rfl)
    | activate => exact ih _ later

theorem contributionsTo_trace (fragments : List Fragment) (events : List LoadEvent)
    (interface : Interface) :
    Catalog.contributionsTo interface (trace fragments events) =
      Fragment.contributionsTo interface (events.filterMap (fragment? fragments)) := by
  induction events with
  | nil => rfl
  | cons event rest ih =>
    have first : (event :: rest).filterMap (fragment? fragments) =
        (fragment? fragments event).toList ++ rest.filterMap (fragment? fragments) := by
      cases found : fragment? fragments event <;> simp [found]
    rw [first, Fragment.contributionsTo_append, ← ih, ← contributionsTo_operations,
      ← Catalog.contributionsTo_append]
    rfl

theorem touched_trace (fragments : List Fragment) (events : List LoadEvent)
    (interface : Interface) :
    Catalog.Touched interface (trace fragments events) ↔
      ∃ fragment ∈ events.filterMap (fragment? fragments),
        fragment.interface = interface ∧ fragment.contributions ≠ [] := by
  induction events with
  | nil => simp [trace, Catalog.Touched]
  | cons event rest ih =>
    rw [trace, List.flatMap_cons, Catalog.touched_append, touched_operations]
    refine (or_congr Iff.rfl ih).trans ?_
    simp only [List.mem_filterMap, List.mem_cons]
    grind

/-! ### The events of a plan -/

theorem filterMap_range (fragments : List Fragment) (count : Nat) :
    (List.range count).filterMap (fun index => fragments[index]?) = fragments.take count := by
  induction count with
  | zero => rfl
  | succ count ih =>
    rw [List.range_succ, List.filterMap_append, ih, List.take_add_one]
    cases found : fragments[count]? <;> simp [found]

/-- The ready signal does not change which fragments run, nor their order. -/
theorem fragments_make (fragments : List Fragment) (count : Nat) (order : LoadOrder)
    (point : Option Nat) :
    (make count order point).events.filterMap (fragment? fragments) =
      order.arrange (fragments.take count) := by
  -- Without the signal the two parts of the plan join to all the indices again.
  have submits : ∀ indices : List Nat,
      (indices.map LoadEvent.submit).filterMap (fragment? fragments) =
        indices.filterMap fun index => fragments[index]? := by
    intro indices
    rw [List.filterMap_map]
    rfl
  unfold make
  simp only [List.filterMap_append, List.filterMap_cons, fragment?, submits]
  rw [← List.filterMap_append, List.take_append_drop]
  cases order with
  | discovered => exact filterMap_range fragments count
  | reverse =>
    show (List.range count).reverse.filterMap _ = (fragments.take count).reverse
    rw [List.filterMap_reverse, filterMap_range]

theorem lt_of_submit_mem_make {count index : Nat} {order : LoadOrder} {point : Option Nat}
    (member : .submit index ∈ (make count order point).events) : index < count := by
  unfold make at member
  simp only [List.mem_append, List.mem_cons, List.mem_map, LoadEvent.submit.injEq,
    reduceCtorEq, false_or, exists_eq_right] at member
  have present : index ∈ order.arrange (List.range count) :=
    member.elim List.mem_of_mem_take List.mem_of_mem_drop
  exact List.mem_range.1 (LoadOrder.mem_arrange.1 present)

theorem activate_mem_make (count : Nat) (order : LoadOrder) (point : Option Nat) :
    .activate ∈ (make count order point).events := by
  simp [make]

/-! ### What a plan leaves -/

/-- `loaded` is ready and shows what `catalog` held, then what the fragments bring, in order. -/
structure Loaded (catalog : Catalog) (fragments : List Fragment) (loaded : Catalog) : Prop where
  ready : loaded.ready = true
  pages : ∀ interface, (∃ page, loaded.page? interface = some page) ↔
    (∃ page, catalog.page? interface = some page) ∨
      ∃ fragment ∈ fragments, fragment.interface = interface ∧ fragment.contributions ≠ []
  direct : ∀ interface page, loaded.page? interface = some page → page.isDirect = true
  lookup : ∀ interface library, (loaded.visible interface).lookup library =
    catalog.heldFor interface library ++
      Contribution.gather library (Fragment.contributionsTo interface fragments)

theorem Loaded.settled {catalog loaded : Catalog} {fragments : List Fragment}
    (done : Loaded catalog fragments loaded) : loaded.Settled :=
  Catalog.settled_of_ready done.ready done.direct

theorem Loaded.unique {catalog left right : Catalog} {fragments : List Fragment}
    (leftDone : Loaded catalog fragments left) (rightDone : Loaded catalog fragments right) :
    left = right := by
  apply leftDone.settled.ext_lookup rightDone.settled (leftDone.ready.trans rightDone.ready.symm)
  · intro interface
    rw [Option.isSome_iff_exists, Option.isSome_iff_exists, leftDone.pages, rightDone.pages]
  · intro interface library
    rw [← leftDone.settled.visible_eq, ← rightDone.settled.visible_eq, leftDone.lookup,
      rightDone.lookup]

theorem loaded_trace (catalog : Catalog) (fragments : List Fragment) {events : List LoadEvent}
    (signalled : .activate ∈ events) :
    Loaded catalog (events.filterMap (fragment? fragments))
      (catalog.run (trace fragments events)).2 := by
  have given : .activateAll ∈ trace fragments events :=
    List.mem_flatMap.2 ⟨.activate, signalled, List.mem_singleton.2 rfl⟩
  have settled := Catalog.settled_run catalog given
  constructor
  · exact (Catalog.ready_run catalog _).2 (Or.inr given)
  · intro interface
    rw [← Option.isSome_iff_exists, ← Option.isSome_iff_exists, Catalog.isSome_page?_run,
      touched_trace]
  · intro interface page found
    exact settled.isDirect_of_page? found
  · intro interface library
    rw [settled.visible_eq, Catalog.held_run, Registry.lookup_registerAll,
      Catalog.lookup_held_touch, contributionsTo_trace]

theorem exists_loaded (fragments : List Fragment) {count : Nat}
    (inRange : count ≤ fragments.length) (order : LoadOrder) (catalog : Catalog) :
    ∃ loaded, Loaded catalog (order.arrange (fragments.take count)) loaded ∧
      ∀ point, (make count order point).apply fragments catalog = (none, loaded) := by
  have each : ∀ point, ∃ loaded, Loaded catalog (order.arrange (fragments.take count)) loaded ∧
      (make count order point).apply fragments catalog = (none, loaded) := by
    intro point
    refine ⟨_, ?_, run_eq_trace fragments _ catalog ?_⟩
    · rw [← fragments_make fragments count order point]
      exact loaded_trace catalog fragments (activate_mem_make count order point)
    · intro index member
      exact Nat.lt_of_lt_of_le (lt_of_submit_mem_make member) inRange
  -- Each point leaves a catalog of its own so far; the description has only one.
  obtain ⟨loaded, done, _⟩ := each none
  refine ⟨loaded, done, ?_⟩
  intro point
  obtain ⟨other, otherDone, applied⟩ := each point
  rw [applied, otherDone.unique done]

/-- A plan for fragments that are there succeeds on every catalog. It leaves the same wherever the
ready signal stands, and running it again appends the same once more. -/
theorem apply_make_loads (fragments : List Fragment) (count : Nat)
    (inRange : count ≤ fragments.length) (order : LoadOrder) (point : Option Nat)
    (catalog : Catalog) :
    let arranged :=
      match order with
      | .discovered => fragments.take count
      | .reverse => (fragments.take count).reverse
    ∃ loaded, (make count order point).apply fragments catalog = (none, loaded) ∧
      Loaded catalog arranged loaded ∧
      (∀ other, (make count order other).apply fragments catalog = (none, loaded)) ∧
      ∃ again, (make count order point).apply fragments loaded = (none, again) ∧
        Loaded loaded arranged again ∧
        (∀ interface, (∃ page, again.page? interface = some page) ↔
          ∃ page, loaded.page? interface = some page) ∧
        ∀ interface library, (again.visible interface).lookup library =
          (loaded.visible interface).lookup library ++
            Contribution.gather library (Fragment.contributionsTo interface arranged) := by
  intro arranged
  have same : order.arrange (fragments.take count) = arranged := order.arrange_eq _
  obtain ⟨loaded, done, applied⟩ := exists_loaded fragments inRange order catalog
  obtain ⟨again, doneAgain, appliedAgain⟩ := exists_loaded fragments inRange order loaded
  rw [same] at done doneAgain
  refine ⟨loaded, applied point, done, applied, again, appliedAgain point, doneAgain, ?_, ?_⟩
  · intro interface
    rw [doneAgain.pages, done.pages, or_assoc, or_self]
  · intro interface library
    rw [doneAgain.lookup, done.settled.visible_eq, Catalog.lookup_held_touch]

-- The ready signal stands between two fragments of one interface, whose page is still buffering.
theorem apply_make_loads_shared_interface :
    let display : Interface := ⟨"core::fmt::Display"⟩
    let fragments : List Fragment :=
      [⟨.ofText "one.js", display, [⟨"petgraph", ["a"]⟩]⟩,
        ⟨.ofText "two.js", display, [⟨"petgraph", ["b"]⟩]⟩]
    let catalog := Catalog.empty.submit display ⟨"petgraph", ["early"]⟩
    2 ≤ fragments.length ∧
      ∃ loaded, (make 2 .reverse (some 1)).apply fragments catalog = (none, loaded) ∧
        (loaded.visible display).lookup "petgraph" = ["early", "b", "a"] := by
  intro display fragments catalog
  have inRange : 2 ≤ fragments.length := by decide
  obtain ⟨loaded, applied, done, _⟩ :=
    apply_make_loads fragments 2 inRange .reverse (some 1) catalog
  refine ⟨inRange, loaded, applied, ?_⟩
  rw [done.lookup]
  decide

end LoadPlan
end TraitCatalog
