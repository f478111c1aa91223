import TraitCatalog.Contribution
import TraitCatalog.Table

/-!
# Registries

A registry lists, for each library that contributed, its descriptors in the order of registration.
A library without descriptors is not in the registry at all, so `lookup` settles it.
-/

namespace TraitCatalog

structure Registry where
  lists : Table Library (List Descriptor)
  populated : ∀ entry ∈ lists.entries, entry.2 ≠ []
deriving DecidableEq

namespace Registry

def empty : Registry :=
  ⟨.empty, by simp [Table.empty]⟩

def appended (descriptors : List Descriptor) (old : Option (List Descriptor)) : List Descriptor :=
  old.getD [] ++ descriptors

theorem appended_ne_nil {descriptors : List Descriptor} {old : Option (List Descriptor)}
    (some_new : descriptors ≠ []) : appended descriptors old ≠ [] := by
  simp [appended, some_new]

theorem populated_upsert {entries : List (Library × List Descriptor)} {library : Library}
    {descriptors : List Descriptor} (populated : ∀ entry ∈ entries, entry.2 ≠ [])
    (some_new : descriptors ≠ []) :
    ∀ entry ∈ Entries.upsert library (appended descriptors) entries, entry.2 ≠ [] := by
  fun_induction Entries.upsert library (appended descriptors) entries with
  | case1 => exact List.forall_mem_cons.2 ⟨appended_ne_nil some_new, populated⟩
  | case2 => exact List.forall_mem_cons.2 ⟨appended_ne_nil some_new, populated⟩
  | case3 k v rest _ _ ih =>
    obtain ⟨first, others⟩ := List.forall_mem_cons.1 populated
    exact List.forall_mem_cons.2 ⟨first, ih others⟩
  | case4 =>
    exact List.forall_mem_cons.2
      ⟨appended_ne_nil some_new, (List.forall_mem_cons.1 populated).2⟩

/-- Appends the descriptors of a contribution to those of its library. An empty contribution
changes nothing. -/
def register (registry : Registry) (contribution : Contribution) : Registry :=
  if nonempty : contribution.descriptors = [] then registry
  else
    ⟨registry.lists.upsert contribution.library (appended contribution.descriptors),
      populated_upsert registry.populated nonempty⟩

def registerAll (registry : Registry) (contributions : List Contribution) : Registry :=
  contributions.foldl register registry

/-! ### Views -/

/-- The descriptors of a library, none if it is unknown. -/
def lookup (registry : Registry) (library : Library) : List Descriptor :=
  (registry.lists.get? library).getD []

def libraries (registry : Registry) : List Library :=
  registry.lists.keys

def toList (registry : Registry) : List (Library × List Descriptor) :=
  registry.lists.entries

def size (registry : Registry) : Nat :=
  registry.lists.size

def isEmpty (registry : Registry) : Bool :=
  registry.lists.entries.isEmpty

def descriptorCount (registry : Registry) : Nat :=
  (registry.toList.flatMap Prod.snd).length

end Registry
end TraitCatalog
