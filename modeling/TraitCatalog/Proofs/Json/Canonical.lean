import TraitCatalog.Json.Value
import TraitCatalog.Proofs.Json.Loops
import TraitCatalog.Proofs.Table

/-!
# Values are kept in one form

In a canonical value the members of every object stand in strictly increasing order of their names.
Every value that is read from a text is canonical, in whichever order the text gives the members and
however often it repeats a name (`canonical_of_parse`).
-/

namespace TraitCatalog.Json

/-- The names of every object increase strictly. -/
inductive Canonical : Json → Prop where
  | null : Canonical .null
  | bool (value : Bool) : Canonical (.bool value)
  | number (value : Number) : Canonical (.number value)
  | string (text : String) : Canonical (.string text)
  | array {items : List Json} (each : ∀ item ∈ items, Canonical item) : Canonical (.array items)
  | object {members : List (String × Json)} (sorted : Entries.Sorted members)
      (each : ∀ member ∈ members, Canonical member.2) : Canonical (.object members)

theorem canonical_ofTexts (texts : List String) : (ofTexts texts).Canonical := by
  refine .array fun item member => ?_
  obtain ⟨text, _, rfl⟩ := List.mem_map.1 member
  exact .string text

theorem canonical_ofLists {lists : List (String × List String)} (sorted : Entries.Sorted lists) :
    (object (lists.map fun entry => (entry.1, ofTexts entry.2))).Canonical := by
  refine .object (List.pairwise_map.2 sorted) fun member present => ?_
  obtain ⟨entry, _, rfl⟩ := List.mem_map.1 present
  exact canonical_ofTexts entry.2

/-! ### Reading -/

theorem Reader.value_of_reads_keyword {α : Type} {value found : α} {letters text rest : List Char}
    (read : Reads (Reader.keyword value letters text) found rest) : found = value := by
  fun_induction Reader.keyword value letters text with
  | case1 => exact absurd read not_reads_error
  | case2 => exact (reads_ok.1 read).1.symm
  | case3 => exact absurd read not_reads_error
  | case4 letter others _ rest ih => exact ih (reads_behind.1 read)
  | case5 => exact absurd read not_reads_error
  | case6 => exact absurd read not_reads_error

theorem canonical_of_reads_scalar {text rest : List Char} {found : Json}
    (read : Reads (scalar text) found rest) : found.Canonical := by
  unfold scalar at read
  split at read
  · exact absurd read not_reads_error
  · split at read
    · rw [Reader.value_of_reads_keyword (reads_behind.1 read)]
      exact .null
    · split at read
      · rw [Reader.value_of_reads_keyword (reads_behind.1 read)]
        exact .bool true
      · split at read
        · rw [Reader.value_of_reads_keyword (reads_behind.1 read)]
          exact .bool false
        · split at read
          · obtain ⟨_, _, rfl⟩ := reads_map_behind.1 read
            exact .string _
          · split at read
            · obtain ⟨_, _, rfl⟩ := reads_map.1 read
              exact .number _
            · exact absurd read not_reads_error

theorem canonical_insert {name : String} {value : Json} {members : List (String × Json)}
    (object : (Json.object members).Canonical) (canonical : value.Canonical) :
    (Json.object (Entries.insert name value members)).Canonical := by
  cases object with
  | object sorted each =>
    refine .object (Entries.sorted_upsert sorted) fun member present => ?_
    rcases Entries.mem_insert present with rfl | old
    · exact canonical
    · exact each member old

theorem canonical_of_reads_value {room : Nat} {text rest : List Char} {found : Json}
    (read : Reads (value room text) found rest) : found.Canonical := by
  induction room generalizing text rest found with
  | zero =>
    rw [value, reads_afterGap] at read
    generalize skipGap text = text at read
    split at read
    · exact absurd read not_reads_error
    · exact absurd read not_reads_error
    · exact canonical_of_reads_scalar read
  | succ room ih =>
    rw [value, reads_afterGap] at read
    generalize skipGap text = text at read
    split at read
    · obtain ⟨items, readItems, rfl⟩ := reads_map_behind.1 read
      exact .array (Reader.items_forall ih readItems)
    · obtain ⟨members, readMembers, rfl⟩ := reads_map_behind.1 read
      refine Reader.members_invariant (I := fun members => (Json.object members).Canonical) ?_
        (.object .nil fun _ member => absurd member List.not_mem_nil) readMembers
      intro gathered key reader holds accepted text next rest readNext
      obtain rfl := Except.ok.inj accepted
      obtain ⟨value, readValue, rfl⟩ := reads_map.1 readNext
      exact canonical_insert holds (ih readValue)
    · exact canonical_of_reads_scalar read

/-- Every value that a text holds is canonical. -/
theorem canonical_of_parse {text : String} {found : Json} (read : parse text = .ok found) :
    found.Canonical := by
  obtain ⟨_, readValue, _⟩ := Reader.run_eq_ok_iff.1 read
  exact canonical_of_reads_value readValue

end TraitCatalog.Json
