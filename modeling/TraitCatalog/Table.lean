/-!
# Tables

A table holds one value for each of its keys, in strictly increasing order of the keys. Two tables
are therefore equal when every look-up answers the same, however they came about
(`Table.ext_get?`).
-/

namespace TraitCatalog

/-! ### Entries -/

namespace Entries

variable {κ α : Type}

def get? [DecidableEq κ] (key : κ) : List (κ × α) → Option α
  | [] => none
  | (k, v) :: rest => if k = key then some v else get? key rest

/-- Replaces the value at a key by `f` of the old one; a new key goes before the first greater
one. -/
def upsert [LT κ] [DecidableLT κ] (key : κ) (f : Option α → α) : List (κ × α) → List (κ × α)
  | [] => [(key, f none)]
  | (k, v) :: rest =>
    if key < k then (key, f none) :: (k, v) :: rest
    else if k < key then (k, v) :: upsert key f rest
    else (k, f (some v)) :: rest

def insert [LT κ] [DecidableLT κ] (key : κ) (value : α) : List (κ × α) → List (κ × α) :=
  upsert key fun _ => value

def Sorted [LT κ] (entries : List (κ × α)) : Prop :=
  entries.Pairwise fun a b => a.1 < b.1

theorem get?_eq_none_of_lt [DecidableEq κ] [LT κ] [Std.Irrefl fun a b : κ => a < b] {key : κ}
    {entries : List (κ × α)} (above : ∀ entry ∈ entries, key < entry.1) : get? key entries = none := by
  induction entries with
  | nil => rfl
  | cons entry rest ih =>
    have less := above entry (by simp)
    rw [get?, if_neg fun same => Std.lt_irrefl (same ▸ less)]
    exact ih fun e later => above e (by simp [later])

section Order

variable [LT κ] [LE κ] [Std.IsLinearOrder κ] [Std.LawfulOrderLT κ]

theorem eq_of_not_lt {a b : κ} (ab : ¬a < b) (ba : ¬b < a) : a = b :=
  Std.le_antisymm (Std.not_lt.1 ba) (Std.not_lt.1 ab)

theorem eq_of_get?_eq [DecidableEq κ] {left right : List (κ × α)} (leftSorted : Sorted left)
    (rightSorted : Sorted right) (agree : ∀ key, get? key left = get? key right) :
    left = right := by
  induction left generalizing right with
  | nil =>
    cases right with
    | nil => rfl
    | cons entry rest => simpa [get?] using agree entry.1
  | cons entry rest ih =>
    cases right with
    | nil => simpa [get?] using agree entry.1
    | cons entry' rest' =>
      obtain ⟨k, v⟩ := entry
      obtain ⟨k', v'⟩ := entry'
      obtain ⟨first, others⟩ := List.pairwise_cons.1 leftSorted
      obtain ⟨first', others'⟩ := List.pairwise_cons.1 rightSorted
      have same : k = k' := by
        refine eq_of_not_lt (fun less => ?_) fun less => ?_
        · have missing : get? k ((k', v') :: rest') = none := by
            refine get?_eq_none_of_lt fun entry present => ?_
            rcases List.mem_cons.1 present with rfl | later
            · exact less
            · exact Std.lt_trans less (first' entry later)
          have found := agree k
          rw [missing] at found
          simp [get?] at found
        · have missing : get? k' ((k, v) :: rest) = none := by
            refine get?_eq_none_of_lt fun entry present => ?_
            rcases List.mem_cons.1 present with rfl | later
            · exact less
            · exact Std.lt_trans less (first entry later)
          have found := agree k'
          rw [missing] at found
          simp [get?] at found
      subst same
      have value := agree k
      simp only [get?, if_true, Option.some.injEq] at value
      subst value
      congr 1
      refine ih others others' fun key => ?_
      by_cases here : k = key
      · subst here; rw [get?_eq_none_of_lt first, get?_eq_none_of_lt first']
      · simpa [get?, here] using agree key

variable [DecidableLT κ]

theorem mem_upsert {key : κ} {f : Option α → α} {entries : List (κ × α)} {entry : κ × α}
    (present : entry ∈ upsert key f entries) : entry.1 = key ∨ entry ∈ entries := by
  fun_induction upsert key f entries with
  | case1 => simp_all
  | case2 => simp_all only [List.mem_cons]; grind
  | case3 => simp_all only [List.mem_cons]; grind
  | case4 k v rest above below =>
    have same := eq_of_not_lt above below
    simp_all only [List.mem_cons]; grind

theorem sorted_upsert {key : κ} {f : Option α → α} {entries : List (κ × α)}
    (sorted : Sorted entries) : Sorted (upsert key f entries) := by
  fun_induction upsert key f entries with
  | case1 => simp [Sorted]
  | case2 k v rest below =>
    refine List.pairwise_cons.2 ⟨fun entry present => ?_, sorted⟩
    rcases List.mem_cons.1 present with rfl | later
    · exact below
    · exact Std.lt_trans below ((List.pairwise_cons.1 sorted).1 entry later)
  | case3 k v rest _ above ih =>
    obtain ⟨first, others⟩ := List.pairwise_cons.1 sorted
    refine List.pairwise_cons.2 ⟨fun entry present => ?_, ih others⟩
    rcases mem_upsert present with same | old
    · exact same ▸ above
    · exact first entry old
  | case4 k v rest _ _ =>
    obtain ⟨first, others⟩ := List.pairwise_cons.1 sorted
    exact List.pairwise_cons.2 ⟨first, others⟩

theorem get?_upsert [DecidableEq κ] (key other : κ) (f : Option α → α) (entries : List (κ × α))
    (sorted : Sorted entries) :
    get? other (upsert key f entries) =
      if other = key then some (f (get? key entries)) else get? other entries := by
  fun_induction upsert key f entries with
  | case1 => simp only [get?, eq_comm]
  | case2 k v rest below =>
    have none_here : get? key ((k, v) :: rest) = none := get?_eq_none_of_lt fun entry present => by
      rcases List.mem_cons.1 present with rfl | later
      · exact below
      · exact Std.lt_trans below ((List.pairwise_cons.1 sorted).1 entry later)
    rw [none_here, get?]
    simp only [eq_comm]
  | case3 k v rest _ above ih =>
    have differ : k ≠ key := fun same => Std.lt_irrefl (same ▸ above)
    rw [get?, get?, get?, ih (List.pairwise_cons.1 sorted).2, if_neg differ]
    by_cases here : k = other
    · subst here; simp [differ]
    · simp [here]
  | case4 k v rest below above =>
    obtain rfl := eq_of_not_lt above below
    simp only [get?, if_true]
    by_cases here : k = other
    · subst here; simp
    · simp [here, Ne.symm here]

end Order

end Entries

/-! ### Tables -/

/-- One value for each key, in strictly increasing order of the keys. -/
structure Table (κ α : Type) [LT κ] where
  entries : List (κ × α)
  sorted : Entries.Sorted entries
deriving DecidableEq

namespace Table

variable {κ α β : Type} [LT κ]

def empty : Table κ α :=
  ⟨[], List.Pairwise.nil⟩

def get? [DecidableEq κ] (table : Table κ α) (key : κ) : Option α :=
  Entries.get? key table.entries

def keys (table : Table κ α) : List κ :=
  table.entries.map Prod.fst

def size (table : Table κ α) : Nat :=
  table.entries.length

def mapValues (f : α → β) (table : Table κ α) : Table κ β :=
  ⟨table.entries.map fun entry => (entry.1, f entry.2),
    List.pairwise_map.2 (table.sorted.imp fun less => less)⟩

variable [LE κ] [Std.IsLinearOrder κ] [Std.LawfulOrderLT κ]

theorem ext_get? [DecidableEq κ] {left right : Table κ α}
    (agree : ∀ key, left.get? key = right.get? key) : left = right := by
  obtain ⟨entries, sorted⟩ := left
  obtain ⟨entries', sorted'⟩ := right
  congr
  exact Entries.eq_of_get?_eq sorted sorted' agree

variable [DecidableLT κ]

def upsert (table : Table κ α) (key : κ) (f : Option α → α) : Table κ α :=
  ⟨Entries.upsert key f table.entries, Entries.sorted_upsert table.sorted⟩

def insert (table : Table κ α) (key : κ) (value : α) : Table κ α :=
  table.upsert key fun _ => value

theorem get?_upsert [DecidableEq κ] (table : Table κ α) (key other : κ) (f : Option α → α) :
    (table.upsert key f).get? other =
      if other = key then some (f (table.get? key)) else table.get? other :=
  Entries.get?_upsert key other f table.entries table.sorted

end Table
end TraitCatalog
