import TraitCatalog.Proofs.LoadPlan.Apply

/-!
# When the order of loading matters

The order of fragments shows only among those that bring descriptors of one library to one interface.
Where each such pair has one fragment at most, any rearrangement of the fragments loads the same
catalog (`LoadPlan.Loaded.of_perm`), whatever pages are waiting or active on the way.
-/

namespace TraitCatalog

namespace Fragment

def contributes (interface : Interface) (library : Library) (fragment : Fragment) : Bool :=
  fragment.interface = interface &&
    fragment.contributions.any fun contribution =>
      contribution.library = library && !contribution.isEmpty

def descriptorsFor (interface : Interface) (library : Library) (fragment : Fragment) :
    List Descriptor :=
  if fragment.interface = interface then Contribution.gather library fragment.contributions else []

theorem contributes_iff {fragment : Fragment} {interface : Interface} {library : Library} :
    fragment.contributes interface library = true ↔
      fragment.descriptorsFor interface library ≠ [] := by
  unfold contributes descriptorsFor Contribution.gather
  by_cases same : fragment.interface = interface
  · simp [same, Contribution.isEmpty]
  · simp [same]

/-- The fragments that bring nothing of the library can be left out. -/
theorem gather_contributionsTo (interface : Interface) (library : Library)
    (fragments : List Fragment) :
    Contribution.gather library (contributionsTo interface fragments) =
      (fragments.filter (contributes interface library)).flatMap
        (descriptorsFor interface library) := by
  induction fragments with
  | nil => rfl
  | cons fragment rest ih =>
    have first : Contribution.gather library (contributionsTo interface (fragment :: rest)) =
        fragment.descriptorsFor interface library ++
          Contribution.gather library (contributionsTo interface rest) := by
      by_cases same : fragment.interface = interface <;>
        simp [contributionsTo, descriptorsFor, Contribution.gather, same]
    by_cases sends : fragment.contributes interface library = true
    · rw [first, List.filter_cons_of_pos sends, List.flatMap_cons, ih]
    · have nothing : fragment.descriptorsFor interface library = [] :=
        Decidable.byContradiction fun some_sent => sends (contributes_iff.2 some_sent)
      rw [first, List.filter_cons_of_neg sends, nothing, List.nil_append, ih]

theorem gather_eq_of_perm {left right : List Fragment} (same : left.Perm right)
    {interface : Interface} {library : Library}
    (alone : left.countP (contributes interface library) ≤ 1) :
    Contribution.gather library (contributionsTo interface left) =
      Contribution.gather library (contributionsTo interface right) := by
  have moved := same.filter (contributes interface library)
  rw [List.countP_eq_length_filter] at alone
  rw [gather_contributionsTo, gather_contributionsTo]
  -- No fragment, or one alone, has nothing to be rearranged with.
  cases found : left.filter (contributes interface library) with
  | nil =>
    rw [found] at moved
    rw [moved.nil_eq]
  | cons fragment rest =>
    rw [found, List.length_cons] at alone
    obtain rfl : rest = [] := List.eq_nil_of_length_eq_zero (by omega)
    rw [found] at moved
    rw [List.singleton_perm.1 moved]

end Fragment

namespace LoadPlan

theorem Loaded.of_perm {catalog loaded : Catalog} {left right : List Fragment}
    (done : Loaded catalog left loaded) (same : left.Perm right)
    (alone : ∀ interface library, left.countP (Fragment.contributes interface library) ≤ 1) :
    Loaded catalog right loaded := by
  refine ⟨done.ready, fun interface => ?_, done.direct, fun interface library => ?_⟩
  · simp only [done.pages, same.mem_iff]
  · rw [done.lookup, Fragment.gather_eq_of_perm same (alone interface library)]

/-- Where no two fragments bring descriptors of one library to one interface, fragments loaded in the
order of discovery and in reverse order leave the same catalog, wherever the ready signal stands in
either plan. -/
theorem apply_reverse_eq_discovered (fragments : List Fragment)
    (alone : ∀ interface library, fragments.countP (Fragment.contributes interface library) ≤ 1)
    (point otherPoint : Option Nat) (catalog : Catalog) :
    ∃ loaded, Loaded catalog fragments loaded ∧
      (make fragments.length .discovered point).apply fragments catalog = (none, loaded) ∧
      (make fragments.length .reverse otherPoint).apply fragments catalog = (none, loaded) := by
  have inRange := Nat.le_refl fragments.length
  obtain ⟨loaded, done, applied⟩ := exists_loaded fragments inRange .discovered catalog
  obtain ⟨other, otherDone, otherApplied⟩ := exists_loaded fragments inRange .reverse catalog
  rw [List.take_length] at done otherDone
  have reversed : Loaded catalog fragments.reverse loaded :=
    done.of_perm (List.reverse_perm fragments).symm alone
  refine ⟨loaded, done, applied point, ?_⟩
  rw [otherApplied otherPoint, otherDone.unique reversed]

-- Three fragments of one interface. The first sends twice for one library, and the last names that
-- library too but has nothing to send for it.
theorem apply_reverse_eq_discovered_shared_interface :
    let display : Interface := ⟨"core::fmt::Display"⟩
    let fragments : List Fragment :=
      [⟨.ofText "one.js", display, [⟨"petgraph", ["a"]⟩, ⟨"petgraph", ["b"]⟩]⟩,
        ⟨.ofText "two.js", display, [⟨"serde", ["c"]⟩]⟩,
        ⟨.ofText "three.js", display, [⟨"petgraph", []⟩]⟩]
    let catalog := Catalog.empty.submit display ⟨"petgraph", ["early"]⟩
    (∀ interface library, fragments.countP (Fragment.contributes interface library) ≤ 1) ∧
    ∃ loaded, (make 3 .discovered (some 1)).apply fragments catalog = (none, loaded) ∧
      (make 3 .reverse none).apply fragments catalog = (none, loaded) ∧
      (loaded.visible display).lookup "petgraph" = ["early", "a", "b"] := by
  intro display fragments catalog
  have alone : ∀ interface library,
      fragments.countP (Fragment.contributes interface library) ≤ 1 := by
    intro interface library
    by_cases first : "petgraph" = library
    · subst first
      by_cases same : display = interface <;>
        simp [fragments, Fragment.contributes, Contribution.isEmpty, same]
    · by_cases same : display = interface <;> by_cases second : "serde" = library <;>
        simp [fragments, Fragment.contributes, Contribution.isEmpty, same, first, second]
  obtain ⟨loaded, done, forward, backward⟩ :=
    apply_reverse_eq_discovered fragments alone (some 1) none catalog
  refine ⟨alone, loaded, forward, backward, ?_⟩
  rw [done.lookup]
  decide

end LoadPlan
end TraitCatalog
