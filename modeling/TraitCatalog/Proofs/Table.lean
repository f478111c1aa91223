import TraitCatalog.Table

/-!
# Look-ups in tables

The entries of a table are its look-ups: an entry is found at its key (`Table.mem_entries_iff`), and
the other operations on tables are described by the look-ups that they leave. A table filled from a
list of pairs depends on the order of the pairs only where a key occurs twice.
-/

namespace TraitCatalog

namespace Entries

variable {κ α β : Type}

theorem nodup_of_sorted [LT κ] [Std.Irrefl fun a b : κ => a < b] {entries : List (κ × α)}
    (sorted : Sorted entries) : (entries.map Prod.fst).Nodup := by
  refine List.pairwise_map.2 (sorted.imp ?_)
  intro a b less same
  exact Std.lt_irrefl (same ▸ less)

variable [DecidableEq κ]

theorem mem_of_get?_eq_some {key : κ} {value : α} {entries : List (κ × α)}
    (found : get? key entries = some value) : (key, value) ∈ entries := by
  induction entries with
  | nil => simp [get?] at found
  | cons entry rest ih =>
    obtain ⟨k, v⟩ := entry
    rw [get?] at found
    split at found
    · rename_i same
      obtain rfl := Option.some.inj found
      rw [same]
      exact List.mem_cons_self
    · exact List.mem_cons_of_mem _ (ih found)

theorem isSome_get?_iff {key : κ} {entries : List (κ × α)} :
    (get? key entries).isSome ↔ key ∈ entries.map Prod.fst := by
  induction entries with
  | nil => simp [get?]
  | cons entry rest ih =>
    rw [get?]
    split
    · rename_i same
      simp [same]
    · rename_i differ
      simpa [Ne.symm differ] using ih

theorem get?_eq_some_iff_mem {entries : List (κ × α)} (distinct : (entries.map Prod.fst).Nodup)
    {key : κ} {value : α} : get? key entries = some value ↔ (key, value) ∈ entries := by
  refine ⟨mem_of_get?_eq_some, fun present => ?_⟩
  induction entries with
  | nil => cases present
  | cons entry rest ih =>
    obtain ⟨first, others⟩ := List.nodup_cons.1 distinct
    rcases List.mem_cons.1 present with rfl | later
    · simp [get?]
    · have differ : entry.1 ≠ key :=
        fun same => first (List.mem_map.2 ⟨(key, value), later, same.symm⟩)
      rw [get?, if_neg differ]
      exact ih others later

theorem get?_map (key : κ) (f : α → β) (entries : List (κ × α)) :
    get? key (entries.map fun entry => (entry.1, f entry.2)) = (get? key entries).map f := by
  induction entries with
  | nil => rfl
  | cons entry rest ih =>
    rw [List.map_cons, get?, get?, ih]
    split <;> rfl

end Entries

/-! ### Writing pairs one after the other -/

namespace Entries

def insertAll {κ α : Type} [LT κ] [DecidableLT κ] (pairs entries : List (κ × α)) : List (κ × α) :=
  pairs.foldl (fun entries pair => insert pair.1 pair.2 entries) entries

section Map

variable {κ α β : Type} [LT κ] [DecidableLT κ]

theorem insert_map (key : κ) (value : α) (f : α → β) (entries : List (κ × α)) :
    insert key (f value) (entries.map fun entry => (entry.1, f entry.2)) =
      (insert key value entries).map fun entry => (entry.1, f entry.2) := by
  unfold insert
  fun_induction upsert key (fun _ => value) entries with
  | case1 => rfl
  | case2 k v rest below => simp [upsert, below]
  | case3 k v rest below above ih => simp [upsert, below, above, ih]
  | case4 k v rest below above => simp [upsert, below, above]

theorem insertAll_map (f : α → β) (pairs entries : List (κ × α)) :
    insertAll (pairs.map fun pair => (pair.1, f pair.2))
        (entries.map fun entry => (entry.1, f entry.2)) =
      (insertAll pairs entries).map fun entry => (entry.1, f entry.2) := by
  induction pairs generalizing entries with
  | nil => rfl
  | cons pair rest ih =>
    have first := insert_map pair.1 pair.2 f entries
    simpa [insertAll, first] using ih (insert pair.1 pair.2 entries)

end Map

variable {κ α : Type} [LT κ] [LE κ] [Std.IsLinearOrder κ] [Std.LawfulOrderLT κ]

theorem eq_of_sorted_of_perm {left right : List (κ × α)} (leftSorted : Sorted left)
    (rightSorted : Sorted right) (same : left.Perm right) : left = right := by
  refine List.Perm.eq_of_pairwise ?_ leftSorted rightSorted same
  intro a b _ _ less greater
  exact absurd (Std.lt_trans less greater) Std.lt_irrefl

variable [DecidableLT κ]

theorem upsert_perm {key : κ} {f : Option α → α} {entries : List (κ × α)}
    (new : ∀ entry ∈ entries, entry.1 ≠ key) :
    (upsert key f entries).Perm ((key, f none) :: entries) := by
  fun_induction upsert key f entries with
  | case1 => exact .refl _
  | case2 => exact .refl _
  | case3 k v rest _ _ ih =>
    have later := ih fun entry member => new entry (List.mem_cons_of_mem _ member)
    exact (later.cons (k, v)).trans (.swap ..)
  | case4 k v rest below above =>
    exact absurd (eq_of_not_lt above below) (new (k, v) List.mem_cons_self)

theorem mem_insert {key : κ} {value : α} {entries : List (κ × α)} {entry : κ × α}
    (present : entry ∈ insert key value entries) : entry = (key, value) ∨ entry ∈ entries := by
  unfold insert at present
  fun_induction upsert key (fun _ => value) entries with
  | case1 => exact Or.inl (List.mem_singleton.1 present)
  | case2 => exact List.mem_cons.1 present
  | case3 k v rest _ _ ih =>
    rcases List.mem_cons.1 present with rfl | later
    · exact Or.inr List.mem_cons_self
    · exact (ih later).imp id (List.mem_cons_of_mem _)
  | case4 k v rest below above =>
    rw [eq_of_not_lt above below] at present
    exact (List.mem_cons.1 present).imp id (List.mem_cons_of_mem _)

theorem sorted_insertAll {pairs entries : List (κ × α)} (sorted : Sorted entries) :
    Sorted (insertAll pairs entries) := by
  induction pairs generalizing entries with
  | nil => exact sorted
  | cons pair rest ih => exact ih (sorted_upsert sorted)

theorem insertAll_perm {pairs entries : List (κ × α)}
    (distinct : ((pairs ++ entries).map Prod.fst).Nodup) :
    (insertAll pairs entries).Perm (pairs ++ entries) := by
  induction pairs generalizing entries with
  | nil => exact .refl _
  | cons pair rest ih =>
    obtain ⟨key, value⟩ := pair
    obtain ⟨first, later⟩ := List.nodup_cons.1 distinct
    have new : ∀ entry ∈ entries, entry.1 ≠ key := by
      intro entry member same
      exact first (List.mem_map.2 ⟨entry, List.mem_append_right rest member, same⟩)
    have written : (insert key value entries).Perm ((key, value) :: entries) := upsert_perm new
    have moved : (rest ++ insert key value entries).Perm ((key, value) :: (rest ++ entries)) :=
      (written.append_left rest).trans List.perm_middle
    have all := ih (((moved.map Prod.fst).nodup_iff).2 distinct)
    exact all.trans moved

theorem insertAll_eq_self {pairs : List (κ × α)} (sorted : Sorted pairs) :
    insertAll pairs [] = pairs := by
  have kept : (insertAll pairs []).Perm (pairs ++ []) := by
    refine insertAll_perm ?_
    rw [List.append_nil]
    exact nodup_of_sorted sorted
  rw [List.append_nil] at kept
  exact eq_of_sorted_of_perm (sorted_insertAll .nil) sorted kept

end Entries

namespace Table

variable {κ α β : Type} [LT κ] [DecidableEq κ]

@[simp]
theorem get?_empty (key : κ) : (empty : Table κ α).get? key = none :=
  rfl

@[simp]
theorem get?_mapValues (f : α → β) (table : Table κ α) (key : κ) :
    (table.mapValues f).get? key = (table.get? key).map f :=
  Entries.get?_map key f table.entries

section Order

variable [LE κ] [Std.LawfulOrderLT κ]

theorem mem_entries_iff {table : Table κ α} {key : κ} {value : α} :
    (key, value) ∈ table.entries ↔ table.get? key = some value :=
  (Entries.get?_eq_some_iff_mem (Entries.nodup_of_sorted table.sorted)).symm

variable [Std.IsLinearOrder κ] [DecidableLT κ]

@[simp]
theorem get?_insert (table : Table κ α) (key other : κ) (value : α) :
    (table.insert key value).get? other = if other = key then some value else table.get? other :=
  get?_upsert table key other fun _ => value

end Order
end Table

/-! ### Tables of pairs -/

namespace Table

theorem eq_of_entries_eq {κ α : Type} [LT κ] {left right : Table κ α}
    (same : left.entries = right.entries) : left = right := by
  cases left
  cases right
  cases same
  rfl

variable {κ α : Type} [LT κ] [DecidableLT κ] [LE κ] [Std.IsLinearOrder κ] [Std.LawfulOrderLT κ]

def ofPairs (pairs : List (κ × α)) : Table κ α :=
  ⟨Entries.insertAll pairs [], Entries.sorted_insertAll .nil⟩

theorem ofPairs_append_singleton (pairs : List (κ × α)) (pair : κ × α) :
    ofPairs (pairs ++ [pair]) = (ofPairs pairs).insert pair.1 pair.2 := by
  refine eq_of_entries_eq ?_
  show Entries.insertAll (pairs ++ [pair]) [] = _
  rw [Entries.insertAll, List.foldl_append]
  rfl

theorem ofPairs_entries (table : Table κ α) : ofPairs table.entries = table :=
  eq_of_entries_eq (Entries.insertAll_eq_self table.sorted)

theorem foldl_insert (pairs : List (κ × α)) :
    pairs.foldl (fun table pair => table.insert pair.1 pair.2) empty = ofPairs pairs := by
  have folded : ∀ (pairs : List (κ × α)) (table : Table κ α),
      (pairs.foldl (fun table pair => table.insert pair.1 pair.2) table).entries =
        Entries.insertAll pairs table.entries := by
    intro pairs
    induction pairs with
    | nil => exact fun _ => rfl
    | cons pair rest ih => exact fun table => ih (table.insert pair.1 pair.2)
  exact eq_of_entries_eq (folded pairs empty)

end Table
end TraitCatalog
