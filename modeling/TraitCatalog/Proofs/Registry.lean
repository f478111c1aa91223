import TraitCatalog.Proofs.Table
import TraitCatalog.Registry

/-!
# What a registry answers

The answer of a registry for a library is everything that was registered for it, in order
(`Registry.lookup_registerAll`), and these answers settle the registry (`Registry.ext_lookup`). The libraries
that it lists are those with an answer (`Registry.mem_libraries_iff`).
-/

namespace TraitCatalog

/-! ### Contributions for one library -/

namespace Contribution

/-- The descriptors of all contributions for a library, in the order of the contributions. -/
def gather (library : Library) (contributions : List Contribution) : List Descriptor :=
  (contributions.filter fun contribution => contribution.library = library).flatMap descriptors

@[simp]
theorem gather_nil (library : Library) : gather library [] = [] :=
  rfl

theorem gather_cons (library : Library) (contribution : Contribution)
    (rest : List Contribution) :
    gather library (contribution :: rest) =
      (if contribution.library = library then contribution.descriptors else []) ++
        gather library rest := by
  by_cases same : contribution.library = library <;> simp [gather, same]

theorem gather_ne_nil_iff {library : Library} {contributions : List Contribution} :
    gather library contributions ≠ [] ↔
      ∃ contribution ∈ contributions, contribution.library = library ∧ contribution.descriptors ≠ [] := by
  simp [gather]

/-- Where each library contributes once, the order of the contributions does not matter. -/
theorem gather_eq_of_perm {left right : List Contribution} (same : left.Perm right)
    (distinct : (left.map Contribution.library).Nodup) (library : Library) :
    gather library left = gather library right := by
  have alone : ∀ {contributions : List Contribution},
      (contributions.map Contribution.library).Nodup →
      (contributions.filter fun contribution => contribution.library = library).Pairwise
        fun _ _ => False := by
    intro contributions distinct
    refine ((List.pairwise_map.1 distinct).filter _).imp_of_mem ?_
    intro a b inLeft inRight differ
    have leftLibrary := of_decide_eq_true (List.mem_filter.1 inLeft).2
    have rightLibrary := of_decide_eq_true (List.mem_filter.1 inRight).2
    exact differ (leftLibrary.trans rightLibrary.symm)
  have distinctRight := ((same.map Contribution.library).nodup_iff).1 distinct
  have filtered := List.Perm.eq_of_pairwise (fun _ _ _ _ impossible _ => impossible.elim)
    (alone distinct) (alone distinctRight) (same.filter _)
  unfold gather
  rw [filtered]

end Contribution

/-! ### Registries -/

namespace Registry

@[simp]
theorem lookup_empty (library : Library) : empty.lookup library = [] :=
  rfl

theorem lookup_register (registry : Registry) (contribution : Contribution) (library : Library) :
    (registry.register contribution).lookup library =
      registry.lookup library ++
        if contribution.library = library then contribution.descriptors else [] := by
  unfold register lookup
  split
  · rename_i nothing
    simp [nothing]
  · rw [Table.get?_upsert]
    by_cases same : library = contribution.library
    · simp [same, appended]
    · simp [same, Ne.symm same]

@[simp]
theorem registerAll_nil (registry : Registry) : registry.registerAll [] = registry :=
  rfl

@[simp]
theorem registerAll_cons (registry : Registry) (contribution : Contribution)
    (rest : List Contribution) :
    registry.registerAll (contribution :: rest) =
      (registry.register contribution).registerAll rest :=
  rfl

theorem registerAll_append (registry : Registry) (first second : List Contribution) :
    registry.registerAll (first ++ second) = (registry.registerAll first).registerAll second :=
  List.foldl_append

/-- A library answers with what it had, then with all that was registered for it, in order. -/
theorem lookup_registerAll (registry : Registry) (contributions : List Contribution)
    (library : Library) :
    (registry.registerAll contributions).lookup library =
      registry.lookup library ++ Contribution.gather library contributions := by
  induction contributions generalizing registry with
  | nil => simp
  | cons contribution rest ih =>
    rw [registerAll_cons, ih, lookup_register, Contribution.gather_cons, List.append_assoc]

theorem get?_eq_none_iff (registry : Registry) (library : Library) :
    registry.lists.get? library = none ↔ registry.lookup library = [] := by
  unfold lookup
  cases found : registry.lists.get? library with
  | none => simp
  | some descriptors =>
    have some_there := registry.populated _ (Table.mem_entries_iff.2 found)
    simpa using some_there

/-- A registry is settled by its answers, since no library is listed without descriptors. -/
theorem ext_lookup {left right : Registry}
    (agree : ∀ library, left.lookup library = right.lookup library) : left = right := by
  have lists : left.lists = right.lists := by
    apply Table.ext_get?
    intro library
    have same := agree library
    cases found : left.lists.get? library with
    | none =>
      have nothing := (get?_eq_none_iff left library).1 found
      exact ((get?_eq_none_iff right library).2 (same ▸ nothing)).symm
    | some descriptors =>
      cases found' : right.lists.get? library with
      | none =>
        have nothing := (get?_eq_none_iff right library).1 found'
        have missing := (get?_eq_none_iff left library).2 (same.trans nothing)
        rw [found] at missing
        cases missing
      | some others => simpa [lookup, found, found'] using same
  cases left
  cases right
  cases lists
  rfl

/-! ### Views -/

theorem mem_toList_iff {registry : Registry} {library : Library} {descriptors : List Descriptor} :
    (library, descriptors) ∈ registry.toList ↔
      descriptors ≠ [] ∧ descriptors = registry.lookup library := by
  constructor
  · intro listed
    have found : registry.lists.get? library = some descriptors := Table.mem_entries_iff.1 listed
    refine ⟨registry.populated _ listed, ?_⟩
    rw [lookup, found]
    rfl
  · rintro ⟨some_there, same⟩
    refine Table.mem_entries_iff.2 ?_
    rw [lookup] at same
    cases found : registry.lists.get? library with
    | none =>
      rw [found] at same
      exact absurd same some_there
    | some others =>
      rw [found] at same
      exact congrArg some same.symm

theorem mem_libraries_iff {registry : Registry} {library : Library} :
    library ∈ registry.libraries ↔ registry.lookup library ≠ [] := by
  constructor
  · intro listed
    obtain ⟨⟨_, descriptors⟩, present, rfl⟩ := List.mem_map.1 listed
    obtain ⟨some_there, same⟩ := mem_toList_iff.1 present
    exact same ▸ some_there
  · intro some_there
    exact List.mem_map_of_mem (f := Prod.fst) (mem_toList_iff.2 ⟨some_there, rfl⟩)

theorem libraries_pairwise (registry : Registry) : registry.libraries.Pairwise (· < ·) :=
  List.pairwise_map.2 registry.lists.sorted

end Registry
end TraitCatalog
