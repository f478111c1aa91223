import TraitCatalog.Proofs.Catalog.Settled

/-!
# What a catalog depends on

Once the ready signal was given, a catalog depends on two things only: which interfaces were touched,
and which descriptors each library sent to each of them, in order. How the submissions were cut,
mixed with others or placed around the activations does not show.
-/

namespace TraitCatalog.Catalog

/-- The descriptors that a library sent to an interface in a run, in order. -/
def submitted (interface : Interface) (library : Library) (events : List Event) : List Descriptor :=
  Contribution.gather library (contributionsTo interface events)

/-- Two runs touch the same interfaces and send the same descriptors to each of them. -/
structure SameHistory (left right : List Event) : Prop where
  touched : ∀ interface, Touched interface left ↔ Touched interface right
  submitted : ∀ interface library,
    submitted interface library left = submitted interface library right

theorem lookup_held_after (events : List Event) (interface : Interface) (library : Library) :
    ((after events).touch interface).held.lookup library = submitted interface library events := by
  unfold after
  rw [held_run, Registry.lookup_registerAll]
  rfl

theorem sameHistory_of_after_eq {left right : List Event} (same : after left = after right) :
    SameHistory left right := by
  constructor
  · intro interface
    rw [← isSome_page?_after, ← isSome_page?_after, same]
  · intro interface library
    rw [← lookup_held_after, ← lookup_held_after, same]

theorem after_eq_of_sameHistory {left right : List Event} (leftSignalled : .activateAll ∈ left)
    (rightSignalled : .activateAll ∈ right) (same : SameHistory left right) :
    after left = after right := by
  apply Settled.ext_lookup (settled_run empty leftSignalled) (settled_run empty rightSignalled)
  · exact ((ready_after left).2 leftSignalled).trans ((ready_after right).2 rightSignalled).symm
  · intro interface
    exact (isSome_page?_after left interface).trans
      ((same.touched interface).trans (isSome_page?_after right interface).symm)
  · intro interface library
    exact (lookup_held_after left interface library).trans
      ((same.submitted interface library).trans (lookup_held_after right interface library).symm)

/-- Behind the ready signal the history of a run and its catalog say the same, and the snapshot says
no less than the catalog. -/
theorem same_history_iff_same_catalog (left right : List Event)
    (leftSignalled : .activateAll ∈ left) (rightSignalled : .activateAll ∈ right) :
    (SameHistory left right ↔ after left = after right) ∧
    (SameHistory left right ↔ (after left).snapshot = (after right).snapshot) := by
  have forward := after_eq_of_sameHistory leftSignalled rightSignalled
  refine ⟨⟨forward, sameHistory_of_after_eq⟩, fun same => congrArg snapshot (forward same), ?_⟩
  intro same
  apply sameHistory_of_after_eq
  have ready := ((ready_after left).2 leftSignalled).trans
    ((ready_after right).2 rightSignalled).symm
  exact Settled.ext_snapshot (settled_run empty leftSignalled) (settled_run empty rightSignalled)
    ready same

-- One contribution in two parts, an empty one and an activation in between, another order of pages.
theorem same_history_iff_same_catalog_in_parts :
    let display : Interface := ⟨"core::fmt::Display"⟩
    let extend : Interface := ⟨"core::iter::Extend"⟩
    let left : List Event :=
      [.submit display ⟨"petgraph", ["a", "b"]⟩, .submit extend ⟨"other", ["c"]⟩, .activateAll]
    let right : List Event :=
      [.submit extend ⟨"petgraph", []⟩, .activate display, .submit display ⟨"petgraph", ["a"]⟩,
        .submit extend ⟨"other", ["c"]⟩, .submit display ⟨"petgraph", ["b"]⟩, .activateAll]
    SameHistory left right ∧ after left = after right ∧
      (after left).snapshot = (after right).snapshot := by
  intro display extend left right
  have same : SameHistory left right := by
    constructor
    · intro interface
      simp [Touched, left, right, Event.interface?]
      grind
    · intro interface library
      unfold submitted
      by_cases first : interface = display
      · rw [first,
          show contributionsTo display left = [⟨"petgraph", ["a", "b"]⟩] by decide,
          show contributionsTo display right = [⟨"petgraph", ["a"]⟩, ⟨"petgraph", ["b"]⟩] by decide]
        by_cases named : "petgraph" = library <;> simp [Contribution.gather_cons, named]
      · by_cases second : interface = extend
        · rw [second,
            show contributionsTo extend left = [⟨"other", ["c"]⟩] by decide,
            show contributionsTo extend right = [⟨"petgraph", []⟩, ⟨"other", ["c"]⟩] by decide]
          simp [Contribution.gather_cons]
        · have leftNone : contributionsTo interface left = [] := by
            simp [contributionsTo, List.filterMap_cons, Event.contributionTo?, left, first, second]
          have rightNone : contributionsTo interface right = [] := by
            simp [contributionsTo, List.filterMap_cons, Event.contributionTo?, right, first, second]
          rw [leftNone, rightNone]
  have settled := same_history_iff_same_catalog left right (by simp [left]) (by simp [right])
  exact ⟨same, settled.1.1 same, settled.2.1 same⟩

end TraitCatalog.Catalog
