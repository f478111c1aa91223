import TraitCatalog.LoadPlan

/-!
# The events of a load plan

A plan runs every fragment once, in one of two orders, and gives the ready signal once, behind as many
fragments as asked for. `Planned` says so of any events, and those of the plan are the only ones that fit
it. A loop over the indices gives the signal at the same place, either on its way or at its end
(`eventsFrom_eq`).
-/

namespace TraitCatalog.LoadPlan

structure Planned (count : Nat) (order : LoadOrder) (after : Option Nat) (events : List LoadEvent) :
    Prop where
  length : events.length = count + 1
  signal : events.count .activate = 1
  before : ∃ sent later, events = sent ++ .activate :: later ∧ .activate ∉ sent ∧
    sent.length = match after with
      | none => count
      | some point => min point count
  submits : events.filter (· != .activate) = match order with
    | .discovered => (List.range count).map .submit
    | .reverse => (List.range count).reverse.map .submit
  once : ∀ index, events.count (.submit index) = if index < count then 1 else 0

/-- The events that a loop makes from a position on: the signal comes where the position is the point,
before the index there or behind the last one. -/
def eventsFrom (point position : Nat) : List Nat → List LoadEvent
  | [] => if position = point then [.activate] else []
  | index :: rest =>
    if position = point then .activate :: .submit index :: eventsFrom point (position + 1) rest
    else .submit index :: eventsFrom point (position + 1) rest

/-! ### One signal between submissions -/

/-- The submissions of all indices, with the signal behind as many of them as `point` says. -/
def signalled (indices : List Nat) (point : Nat) : List LoadEvent :=
  (indices.take point).map .submit ++ .activate :: (indices.drop point).map .submit

theorem activate_not_mem_submits (indices : List Nat) : .activate ∉ indices.map LoadEvent.submit := by
  simp

theorem filter_eq_of_not_mem {events : List LoadEvent} (absent : .activate ∉ events) :
    events.filter (· != .activate) = events := by
  refine List.filter_eq_self.2 fun event member => bne_iff_ne.2 ?_
  rintro rfl
  exact absent member

theorem filter_append_signal {sent later : List LoadEvent} (sentOnly : .activate ∉ sent)
    (laterOnly : .activate ∉ later) :
    (sent ++ .activate :: later).filter (· != .activate) = sent ++ later := by
  rw [List.filter_append, List.filter_cons_of_neg (by simp), filter_eq_of_not_mem sentOnly,
    filter_eq_of_not_mem laterOnly]

theorem length_signalled (indices : List Nat) (point : Nat) :
    (signalled indices point).length = indices.length + 1 := by
  simp only [signalled, List.length_append, List.length_cons, List.length_map, List.length_take,
    List.length_drop]
  omega

theorem count_activate_signalled (indices : List Nat) (point : Nat) :
    (signalled indices point).count .activate = 1 := by
  rw [signalled, List.count_append, List.count_cons_self,
    List.count_eq_zero.2 (activate_not_mem_submits _), List.count_eq_zero.2 (activate_not_mem_submits _)]

theorem filter_signalled (indices : List Nat) (point : Nat) :
    (signalled indices point).filter (· != .activate) = indices.map .submit := by
  rw [signalled, filter_append_signal (activate_not_mem_submits _) (activate_not_mem_submits _),
    ← List.map_append, List.take_append_drop]

theorem count_submit_signalled (indices : List Nat) (point index : Nat) :
    (signalled indices point).count (.submit index) = indices.count index := by
  have submits : ∀ others : List Nat,
      (others.map LoadEvent.submit).count (.submit index) = others.count index := by
    intro others
    rw [List.count, List.countP_map, List.count]
    exact List.countP_congr fun other _ => by simp
  rw [signalled, List.count_append, List.count_cons_of_ne (by simp), submits, submits,
    ← List.count_append, List.take_append_drop]

/-- Where the signal stands and what is left without it settle the events. -/
theorem eq_signalled {sent later : List LoadEvent} {indices : List Nat}
    (alone : (sent ++ .activate :: later).count .activate = 1) (sentOnly : .activate ∉ sent)
    (rest : (sent ++ .activate :: later).filter (· != .activate) = indices.map .submit) :
    sent ++ .activate :: later = signalled indices sent.length := by
  have laterOnly : .activate ∉ later := by
    rw [List.count_append, List.count_cons_self] at alone
    exact List.count_eq_zero.1 (by omega)
  rw [filter_append_signal sentOnly laterOnly] at rest
  rw [signalled, List.map_take, List.map_drop, ← rest, List.take_left, List.drop_left]

/-! ### The plan -/

theorem length_arrange {α : Type} (order : LoadOrder) (found : List α) :
    (order.arrange found).length = found.length := by
  cases order with
  | discovered => rfl
  | reverse => exact List.length_reverse

theorem count_arrange_range (order : LoadOrder) (count index : Nat) :
    (order.arrange (List.range count)).count index = if index < count then 1 else 0 := by
  have range : (List.range count).count index = if index < count then 1 else 0 := by
    simp only [List.nodup_range.count, List.mem_range]
  cases order with
  | discovered => exact range
  | reverse =>
    show (List.range count).reverse.count index = _
    rw [List.count_reverse, range]

theorem activationPoint_le (count : Nat) (after : Option Nat) : activationPoint count after ≤ count :=
  Nat.min_le_right ..

theorem activationPoint_eq (count : Nat) (after : Option Nat) :
    activationPoint count after = match after with
      | none => count
      | some point => min point count := by
  cases after with
  | none => exact Nat.min_self count
  | some point => rfl

theorem submits_arrange (count : Nat) (order : LoadOrder) :
    (order.arrange (List.range count)).map LoadEvent.submit = match order with
      | .discovered => (List.range count).map .submit
      | .reverse => (List.range count).reverse.map .submit := by
  cases order <;> rfl

theorem make_events (count : Nat) (order : LoadOrder) (after : Option Nat) :
    (make count order after).events =
      signalled (order.arrange (List.range count)) (activationPoint count after) :=
  rfl

theorem planned_make (count : Nat) (order : LoadOrder) (after : Option Nat) :
    Planned count order after (make count order after).events := by
  have total : (order.arrange (List.range count)).length = count := by
    rw [length_arrange, List.length_range]
  have bound := activationPoint_le count after
  rw [make_events]
  constructor
  · rw [length_signalled, total]
  · exact count_activate_signalled _ _
  · refine ⟨_, _, rfl, activate_not_mem_submits _, ?_⟩
    rw [List.length_map, List.length_take, total, ← activationPoint_eq]
    omega
  · rw [filter_signalled, submits_arrange]
  · intro index
    rw [count_submit_signalled, count_arrange_range]

theorem Planned.eq_make {count : Nat} {order : LoadOrder} {after : Option Nat}
    {events : List LoadEvent} (planned : Planned count order after events) :
    events = (make count order after).events := by
  obtain ⟨sent, later, rfl, sentOnly, point⟩ := planned.before
  have submits := planned.submits
  rw [← submits_arrange] at submits
  rw [eq_signalled planned.signal sentOnly submits, point, ← activationPoint_eq, make_events]

/-! ### The loop -/

theorem eventsFrom_of_lt {point position : Nat} (passed : point < position) (indices : List Nat) :
    eventsFrom point position indices = indices.map .submit := by
  induction indices generalizing position with
  | nil => exact if_neg (by omega)
  | cons index rest ih => rw [eventsFrom, if_neg (by omega), ih (by omega), List.map_cons]

theorem eventsFrom_eq {point position : Nat} {indices : List Nat} (ahead : position ≤ point)
    (reached : point ≤ position + indices.length) :
    eventsFrom point position indices = signalled indices (point - position) := by
  induction indices generalizing position with
  | nil =>
    rw [List.length_nil] at reached
    rw [eventsFrom, if_pos (by omega)]
    simp [signalled]
  | cons index rest ih =>
    rw [List.length_cons] at reached
    rw [eventsFrom]
    by_cases here : position = point
    · -- From here on the loop only submits.
      rw [if_pos here, eventsFrom_of_lt (by omega), show point - position = 0 by omega]
      rfl
    · rw [if_neg here, ih (by omega) (by omega),
        show point - position = (point - (position + 1)) + 1 by omega]
      rfl

theorem make_eq_eventsFrom (count : Nat) (order : LoadOrder) (after : Option Nat) :
    (make count order after).events =
      eventsFrom (activationPoint count after) 0 (order.arrange (List.range count)) := by
  have bound := activationPoint_le count after
  have reached : activationPoint count after ≤ 0 + (order.arrange (List.range count)).length := by
    rw [length_arrange, List.length_range]
    omega
  rw [eventsFrom_eq (Nat.zero_le _) reached, make_events, Nat.sub_zero]

/-- The plan for `count` fragments has one event more than there are fragments: each runs once, in
increasing or in decreasing order, and the one ready signal comes behind as many of them as asked for, but
no more than there are. No other events are like that, and a loop that gives the signal on reaching the
point makes the same ones. -/
theorem make_is_the_one_planned (count : Nat) (order : LoadOrder) (after : Option Nat) :
    (∀ events, Planned count order after events ↔ events = (make count order after).events) ∧
    (make count order after).events =
      eventsFrom (activationPoint count after) 0 (order.arrange (List.range count)) := by
  refine ⟨fun events => ⟨Planned.eq_make, ?_⟩, make_eq_eventsFrom count order after⟩
  rintro rfl
  exact planned_make count order after

end TraitCatalog.LoadPlan
