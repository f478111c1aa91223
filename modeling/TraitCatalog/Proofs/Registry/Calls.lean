import Mathlib.Data.Finset.Card
import TraitCatalog.Proofs.Registry
import TraitCatalog.Proofs.Text.ByteOrder

/-!
# Registries and the calls that filled them

Whatever contributions are registered, the registry lists the libraries that brought a descriptor, in
increasing order of their bytes, and loses none of the descriptors (`Registry.Records`). Two registries
are the same as soon as they answer alike, since nothing in them is left to chance.
-/

namespace TraitCatalog.Registry

def contributors (calls : List Contribution) : Finset Library :=
  ((calls.filter (!·.isEmpty)).map Contribution.library).toFinset

/-- What a registry shows of the calls that filled it. -/
structure Records (calls : List Contribution) (registry : Registry) : Prop where
  ordered : Increasing registry.libraries
  listed : ∀ library, library ∈ registry.libraries ↔
    ∃ call ∈ calls, call.library = library ∧ call.descriptors ≠ []
  populated : ∀ library descriptors, (library, descriptors) ∈ registry.toList → descriptors ≠ []
  size : registry.size = (contributors calls).card
  total : registry.descriptorCount = (calls.flatMap Contribution.descriptors).length
  lookup : ∀ library, registry.lookup library = Contribution.gather library calls

/-! ### Counting -/

theorem length_flatMap_upsert (library : Library) (descriptors : List Descriptor)
    (entries : List (Library × List Descriptor)) :
    ((Entries.upsert library (appended descriptors) entries).flatMap Prod.snd).length =
      (entries.flatMap Prod.snd).length + descriptors.length := by
  -- Wherever the list of the library goes, it is longer by the new descriptors; no order is needed.
  fun_induction Entries.upsert library (appended descriptors) entries with
  | case1 => simp [appended]
  | case2 k v rest =>
    simp only [appended, Option.getD_none, List.nil_append, List.flatMap_cons, List.length_append]
    omega
  | case3 k v rest _ _ ih =>
    simp only [List.flatMap_cons, List.length_append, ih]
    omega
  | case4 k v rest =>
    simp only [appended, Option.getD_some, List.flatMap_cons, List.length_append]
    omega

theorem descriptorCount_register (registry : Registry) (contribution : Contribution) :
    (registry.register contribution).descriptorCount =
      registry.descriptorCount + contribution.descriptors.length := by
  unfold register
  split
  · rename_i nothing
    rw [nothing, List.length_nil, Nat.add_zero]
  · exact length_flatMap_upsert contribution.library contribution.descriptors registry.toList

theorem descriptorCount_registerAll (registry : Registry) (contributions : List Contribution) :
    (registry.registerAll contributions).descriptorCount =
      registry.descriptorCount + (contributions.flatMap Contribution.descriptors).length := by
  induction contributions generalizing registry with
  | nil => rfl
  | cons contribution rest ih =>
    rw [registerAll_cons, ih, descriptorCount_register, List.flatMap_cons, List.length_append]
    omega

theorem mem_contributors {calls : List Contribution} {library : Library} :
    library ∈ contributors calls ↔
      ∃ call ∈ calls, call.library = library ∧ call.descriptors ≠ [] := by
  simp only [contributors, List.mem_toFinset, List.mem_map, List.mem_filter, Contribution.isEmpty,
    Bool.not_eq_true', List.isEmpty_eq_false_iff]
  constructor
  · rintro ⟨call, ⟨member, some_sent⟩, same⟩
    exact ⟨call, member, same, some_sent⟩
  · rintro ⟨call, member, same, some_sent⟩
    exact ⟨call, ⟨member, some_sent⟩, same⟩

/-! ### Calls on the empty registry -/

theorem lookup_registerAll_empty (calls : List Contribution) (library : Library) :
    (empty.registerAll calls).lookup library = Contribution.gather library calls := by
  rw [lookup_registerAll, lookup_empty, List.nil_append]

theorem mem_libraries_registerAll {calls : List Contribution} {library : Library} :
    library ∈ (empty.registerAll calls).libraries ↔
      ∃ call ∈ calls, call.library = library ∧ call.descriptors ≠ [] := by
  rw [mem_libraries_iff, lookup_registerAll_empty, Contribution.gather_ne_nil_iff]

theorem records_registerAll (calls : List Contribution) :
    Records calls (empty.registerAll calls) := by
  have ordered := increasing_of_pairwise (libraries_pairwise (empty.registerAll calls))
  refine ⟨ordered, fun _ => mem_libraries_registerAll, ?_, ?_, ?_, lookup_registerAll_empty calls⟩
  · intro library descriptors listed
    exact (mem_toList_iff.1 listed).1
  · have same : (empty.registerAll calls).libraries.toFinset = contributors calls := by
      ext library
      rw [List.mem_toFinset, mem_libraries_registerAll, mem_contributors]
    rw [← same, List.toFinset_card_of_nodup ordered.distinct]
    exact (List.length_map Prod.fst).symm
  · rw [descriptorCount_registerAll]
    exact Nat.zero_add _

/-- Whatever is registered, a registry lists the libraries that brought descriptors, once each and in
increasing order, with all that they brought. Registries filled by any two lists of calls are equal
exactly if every library has the same answer in both. -/
theorem registerAll_settled_by_lookup (calls : List Contribution) :
    Records calls (empty.registerAll calls) ∧
    ∀ others, empty.registerAll calls = empty.registerAll others ↔
      ∀ library, (empty.registerAll calls).lookup library = (empty.registerAll others).lookup library := by
  refine ⟨records_registerAll calls, fun others => ⟨?_, ext_lookup⟩⟩
  intro same library
  rw [same]

end TraitCatalog.Registry
