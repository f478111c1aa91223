import TraitCatalog.Proofs.LoadPlan.Apply

/-!
# Plans for more fragments than there are

Such a plan runs until it comes to a fragment that is not there, and what it did before stays. In the
order of discovery that is all there is to submit; in reverse order it is nothing, and only the ready
signal can come before the failure.
-/

namespace TraitCatalog

def Catalog.submitFragments (catalog : Catalog) (fragments : List Fragment) : Catalog :=
  fragments.foldl
    (fun catalog fragment => catalog.submitAll fragment.interface fragment.contributions) catalog

namespace LoadPlan

def pick (fragments : List Fragment) (indices : List Nat) : List Fragment :=
  indices.filterMap fun index => fragments[index]?

theorem run_submits_append (fragments : List Fragment) {indices : List Nat}
    (inRange : ∀ index ∈ indices, index < fragments.length) (later : List LoadEvent)
    (catalog : Catalog) :
    run fragments (indices.map .submit ++ later) catalog =
      run fragments later (catalog.submitFragments (pick fragments indices)) := by
  induction indices generalizing catalog with
  | nil => rfl
  | cons index rest ih =>
    obtain ⟨bound, others⟩ := List.forall_mem_cons.1 inRange
    have found : fragments[index]? = some fragments[index] := List.getElem?_eq_getElem bound
    rw [List.map_cons, List.cons_append, run, found, pick, List.filterMap_cons_some found]
    exact ih others _

theorem run_submit_missing {fragments : List Fragment} {index : Nat}
    (absent : fragments.length ≤ index) (later : List LoadEvent) (catalog : Catalog) :
    run fragments (.submit index :: later) catalog =
      (some (.outOfRange index fragments.length), catalog) := by
  rw [run, List.getElem?_eq_none absent]

/-- The signal is given only if it stands before the first fragment that is missing. -/
theorem run_stops_at_missing (fragments : List Fragment) {present later : List Nat} {missing : Nat}
    (inRange : ∀ index ∈ present, index < fragments.length)
    (absent : fragments.length ≤ missing) (point : Nat) (catalog : Catalog) :
    run fragments (((present ++ missing :: later).take point).map .submit ++
        .activate :: ((present ++ missing :: later).drop point).map .submit) catalog =
      (some (.outOfRange missing fragments.length),
        if point ≤ present.length then
          (catalog.submitFragments
            (pick fragments (present.take point))).activateAll.2.submitFragments
              (pick fragments (present.drop point))
        else catalog.submitFragments (pick fragments present)) := by
  by_cases early : point ≤ present.length
  · have before : ∀ index ∈ present.take point, index < fragments.length :=
      fun index member => inRange index (List.mem_of_mem_take member)
    have behind : ∀ index ∈ present.drop point, index < fragments.length :=
      fun index member => inRange index (List.mem_of_mem_drop member)
    rw [List.take_append_of_le_length early, List.drop_append_of_le_length early,
      run_submits_append fragments before, run, List.map_append, run_submits_append fragments behind,
      if_pos early]
    exact run_submit_missing absent _ _
  · -- The missing fragment itself stands before the signal.
    obtain ⟨more, same⟩ : ∃ more, (present ++ missing :: later).take point =
        present ++ missing :: more := by
      obtain ⟨extra, rfl⟩ : ∃ extra, point = present.length + (extra + 1) :=
        ⟨point - present.length - 1, by omega⟩
      exact ⟨later.take extra, List.take_length_add_append (extra + 1)⟩
    rw [same, List.map_append, List.append_assoc, run_submits_append fragments inRange, if_neg early]
    exact run_submit_missing absent _ _

/-! ### The two orders -/

theorem pick_range (fragments : List Fragment) (count : Nat) :
    pick fragments (List.range count) = fragments.take count :=
  filterMap_range fragments count

theorem pick_take_range (fragments : List Fragment) (point : Nat) :
    pick fragments ((List.range fragments.length).take point) = fragments.take point := by
  rw [List.take_range, pick_range]
  simp [List.take_eq_take_iff]

theorem pick_drop_range (fragments : List Fragment) (point : Nat) :
    pick fragments ((List.range fragments.length).drop point) = fragments.drop point := by
  -- Both sides complete what is taken before the point to all the fragments.
  have whole : pick fragments ((List.range fragments.length).take point) ++
      pick fragments ((List.range fragments.length).drop point) = fragments := by
    unfold pick
    rw [← List.filterMap_append, List.take_append_drop, filterMap_range, List.take_length]
  rw [pick_take_range] at whole
  exact List.append_cancel_left (whole.trans (List.take_append_drop point fragments).symm)

theorem exists_range_eq {present count : Nat} (short : present < count) :
    ∃ later, List.range count = List.range present ++ present :: later := by
  obtain ⟨extra, rfl⟩ : ∃ extra, count = present + (extra + 1) := ⟨count - present - 1, by omega⟩
  rw [List.range_add, List.range_succ_eq_map]
  exact ⟨_, rfl⟩

theorem apply_discovered_of_short {fragments : List Fragment} {count : Nat}
    (short : fragments.length < count) (after : Option Nat) (catalog : Catalog) :
    (make count .discovered after).apply fragments catalog =
      (some (.outOfRange fragments.length fragments.length),
        if activationPoint count after ≤ fragments.length then
          (catalog.submitFragments
            (fragments.take (activationPoint count after))).activateAll.2.submitFragments
              (fragments.drop (activationPoint count after))
        else catalog.submitFragments fragments) := by
  obtain ⟨later, same⟩ := exists_range_eq short
  have inRange : ∀ index ∈ List.range fragments.length, index < fragments.length :=
    fun _ member => List.mem_range.1 member
  simp only [apply, make, LoadOrder.arrange, same]
  rw [run_stops_at_missing fragments inRange (Nat.le_refl _), List.length_range,
    pick_take_range, pick_drop_range, pick_range, List.take_length]

theorem apply_reverse_of_short {fragments : List Fragment} {count : Nat}
    (short : fragments.length < count) (after : Option Nat) (catalog : Catalog) :
    (make count .reverse after).apply fragments catalog =
      (some (.outOfRange (count - 1) fragments.length),
        if activationPoint count after = 0 then catalog.activateAll.2 else catalog) := by
  have last : (List.range count).reverse = (count - 1) :: (List.range (count - 1)).reverse := by
    obtain ⟨before, rfl⟩ : ∃ before, count = before + 1 := ⟨count - 1, by omega⟩
    simp [List.range_succ]
  have nothing : ∀ index ∈ ([] : List Nat), index < fragments.length := by simp
  have absent : fragments.length ≤ count - 1 := by omega
  simp only [apply, make, LoadOrder.arrange, last]
  refine (run_stops_at_missing fragments nothing absent _ catalog).trans ?_
  simp [Catalog.submitFragments, pick]

theorem apply_fails_iff (fragments : List Fragment) (count : Nat) (order : LoadOrder)
    (after : Option Nat) (catalog : Catalog) :
    (∃ error left, (make count order after).apply fragments catalog = (some error, left)) ↔
      fragments.length < count := by
  by_cases inRange : count ≤ fragments.length
  · obtain ⟨loaded, _, applied⟩ := exists_loaded fragments inRange order catalog
    simpa [applied after] using inRange
  · have short : fragments.length < count := by omega
    cases order with
    | discovered => exact iff_of_true ⟨_, _, apply_discovered_of_short short after catalog⟩ short
    | reverse => exact iff_of_true ⟨_, _, apply_reverse_of_short short after catalog⟩ short

/-- A plan fails exactly if it is for more fragments than there are. In the order of discovery it fails
behind the last fragment, when all of them were submitted, and the ready signal was given if it stands
no later than that. In reverse order it fails at the first submission, with nothing but the ready signal
before it, if that. -/
theorem apply_make_stops_at_missing (fragments : List Fragment) (count : Nat) (after : Option Nat)
    (catalog : Catalog) :
    (∀ order, (∃ error left, (make count order after).apply fragments catalog = (some error, left)) ↔
      fragments.length < count) ∧
    (fragments.length < count →
      let point := min (after.getD count) count
      (make count .discovered after).apply fragments catalog =
        (some (.outOfRange fragments.length fragments.length),
          if point ≤ fragments.length then
            (catalog.submitFragments (fragments.take point)).activateAll.2.submitFragments
              (fragments.drop point)
          else catalog.submitFragments fragments) ∧
      (make count .reverse after).apply fragments catalog =
        (some (.outOfRange (count - 1) fragments.length),
          if point = 0 then catalog.activateAll.2 else catalog)) := by
  constructor
  · intro order
    exact apply_fails_iff fragments count order after catalog
  · intro short point
    exact ⟨apply_discovered_of_short short after catalog, apply_reverse_of_short short after catalog⟩

-- The signal stands right before the submission that fails, so the waiting page is activated.
theorem apply_make_stops_at_missing_behind_signal :
    let display : Interface := ⟨"core::fmt::Display"⟩
    let fragments : List Fragment :=
      [⟨.ofText "one.js", display, [⟨"petgraph", ["a"]⟩]⟩,
        ⟨.ofText "two.js", display, [⟨"petgraph", ["b"]⟩]⟩]
    let catalog := Catalog.empty.submit display ⟨"petgraph", ["early"]⟩
    fragments.length < 3 ∧
      (∃ left, (make 3 .discovered (some 2)).apply fragments catalog = (some (.outOfRange 2 2), left) ∧
        left.ready = true ∧ (left.visible display).lookup "petgraph" = ["early", "a", "b"]) ∧
      (make 3 .reverse (some 2)).apply fragments catalog = (some (.outOfRange 2 2), catalog) := by
  intro display fragments catalog
  have short : fragments.length < 3 := by decide
  obtain ⟨discovered, reverse⟩ :=
    (apply_make_stops_at_missing fragments 3 (some 2) catalog).2 short
  refine ⟨short, ⟨_, discovered, ?_, ?_⟩, reverse⟩
  · decide
  · decide

end LoadPlan
end TraitCatalog
