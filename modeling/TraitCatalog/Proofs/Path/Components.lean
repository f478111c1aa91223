import TraitCatalog.Path

/-!
# The components of a path

Joining a proper name to a path adds one component, however the path is spelled
(`components_join`). Paths are compared by their components alone, and the comparison is a linear order
on these (`key_injective`, `le_total`, `le_trans`).
-/

namespace TraitCatalog.Path

/-- A name that an entry of a directory can have. -/
structure ProperName (name : Bytes) : Prop where
  nonempty : name ≠ []
  unslashed : slash ∉ name
  notDot : name ≠ [dot]
  notDots : name ≠ [dot, dot]

namespace ProperName

variable {name : Bytes} (proper : ProperName name)

include proper

theorem ofPiece?_eq : Component.ofPiece? name = some (.normal name) := by
  simp [Component.ofPiece?, proper.nonempty, proper.notDot, proper.notDots]

theorem ofFirst?_eq (alone : Bool) : Component.ofFirst? name alone = some (.normal name) := by
  simp [Component.ofFirst?, proper.nonempty, proper.notDot, proper.ofPiece?_eq]

theorem not_isAbsolute : isAbsolute ⟨name⟩ = false := by
  cases name with
  | nil => exact absurd rfl proper.nonempty
  | cons byte rest =>
    have differ : byte ≠ slash := fun same => proper.unslashed (same ▸ List.mem_cons_self)
    simp [isAbsolute, differ]

end ProperName

/-! ### Joining -/

theorem pieces_append (left right : Bytes) :
    pieces ⟨left ++ slash :: right⟩ = pieces ⟨left⟩ ++ pieces ⟨right⟩ :=
  List.splitOnP_append_cons left right (beq_self_eq_true slash)

theorem exists_pieces (path : Path) : ∃ first others, path.pieces = first :: others :=
  List.exists_cons_of_ne_nil (List.splitOnP_ne_nil _ path.bytes)

theorem filterMap_snd_map (pieces : List Bytes) :
    (pieces.map fun piece => (piece, Component.ofPiece? piece)).filterMap Prod.snd =
      pieces.filterMap Component.ofPiece? := by
  rw [List.filterMap_map]
  rfl

theorem components_of_pieces {path : Path} {first : Bytes} {others : List Bytes}
    (split : path.pieces = first :: others) :
    path.components =
      (Component.ofFirst? first others.isEmpty).toList ++ others.filterMap Component.ofPiece? := by
  unfold components marked
  rw [split]
  dsimp only
  rw [List.filterMap_cons, filterMap_snd_map]
  cases Component.ofFirst? first others.isEmpty <;> rfl

theorem bytes_eq_nil_of_pieces {path : Path} (split : path.pieces = [[]]) : path.bytes = [] := by
  have joined : [slash].intercalate (path.bytes.splitOn slash) = path.bytes :=
    List.intercalate_splitOn slash
  unfold pieces at split
  rw [split] at joined
  exact joined.symm

theorem pieces_of_unslashed {piece : Bytes} (unslashed : slash ∉ piece) : pieces ⟨piece⟩ = [piece] := by
  refine List.splitOnP_eq_singleton fun byte member => beq_eq_false_iff_ne.2 ?_
  rintro rfl
  exact unslashed member

theorem components_slash (path : Bytes) {piece : Bytes} (unslashed : slash ∉ piece) :
    components ⟨path ++ slash :: piece⟩ =
      components ⟨path ++ [slash]⟩ ++ (Component.ofPiece? piece).toList := by
  obtain ⟨first, others, split⟩ := exists_pieces ⟨path⟩
  have longer : ∀ {last}, slash ∉ last →
      pieces ⟨path ++ slash :: last⟩ = first :: (others ++ [last]) := by
    intro last lastUnslashed
    rw [pieces_append, pieces_of_unslashed lastUnslashed, split]
    rfl
  have notAlone : ∀ last : Bytes, (others ++ [last]).isEmpty = false := by
    cases others <;> exact fun _ => rfl
  have empty : Component.ofPiece? [] = none := rfl
  rw [components_of_pieces (longer unslashed), components_of_pieces (longer List.not_mem_nil),
    notAlone, notAlone, List.filterMap_append, List.filterMap_append, List.append_assoc]
  cases found : Component.ofPiece? piece <;> simp [found, empty]

/-- A slash at the end does not count, except that of the root. -/
theorem components_trailing_slash {path : Bytes} (some_path : path ≠ []) :
    components ⟨path ++ [slash]⟩ = components ⟨path⟩ := by
  obtain ⟨first, others, split⟩ := exists_pieces ⟨path⟩
  have longer : pieces ⟨path ++ [slash]⟩ = first :: (others ++ [[]]) := by
    rw [pieces_append, pieces_of_unslashed List.not_mem_nil, split]
    rfl
  have alone : Component.ofFirst? first (others ++ [[]]).isEmpty =
      Component.ofFirst? first others.isEmpty := by
    cases others with
    | nil =>
      have some_first : first ≠ [] := by
        rintro rfl
        exact some_path (bytes_eq_nil_of_pieces split)
      simp [Component.ofFirst?, some_first]
    | cons second others => rfl
  rw [components_of_pieces longer, components_of_pieces split, alone, List.filterMap_append]
  simp [Component.ofPiece?]

theorem components_join (path : Path) {name : Bytes} (proper : ProperName name) :
    (path.join ⟨name⟩).components = path.components ++ [.normal name] := by
  obtain ⟨bytes⟩ := path
  have behind : ∀ front, components ⟨front ++ slash :: name⟩ =
      components ⟨front ++ [slash]⟩ ++ [.normal name] := by
    intro front
    rw [components_slash front proper.unslashed, proper.ofPiece?_eq]
    rfl
  unfold join
  rw [proper.not_isAbsolute, if_neg Bool.false_ne_true]
  rcases List.eq_nil_or_concat bytes with rfl | ⟨front, last, same⟩
  · show components ⟨name⟩ = _
    rw [components_of_pieces (pieces_of_unslashed proper.unslashed), proper.ofFirst?_eq]
    rfl
  · rw [List.concat_eq_append] at same
    subst same
    rw [List.getLast?_concat, Option.getD_some]
    split
    · rename_i same
      subst same
      rw [List.append_assoc]
      exact behind front
    · rw [behind, components_trailing_slash (by simp)]

def descend (path : Path) (names : List Bytes) : Path :=
  names.foldl (fun path name => path.join ⟨name⟩) path

theorem components_descend (path : Path) {names : List Bytes}
    (proper : ∀ name ∈ names, ProperName name) :
    (path.descend names).components = path.components ++ names.map .normal := by
  induction names generalizing path with
  | nil => simp [descend]
  | cons name names ih =>
    obtain ⟨first, others⟩ := List.forall_mem_cons.1 proper
    show ((path.join ⟨name⟩).descend names).components = _
    rw [ih _ others, components_join path first, List.append_assoc]
    rfl

theorem descend_injective (path : Path) {left right : List Bytes}
    (leftProper : ∀ name ∈ left, ProperName name) (rightProper : ∀ name ∈ right, ProperName name)
    (same : (path.descend left).components = (path.descend right).components) : left = right := by
  rw [components_descend path leftProper, components_descend path rightProper] at same
  exact (List.map_inj_right fun _ _ => Component.normal.inj).1 (List.append_cancel_left same)

/-! ### Order -/

theorem key_injective {a b : Component} (same : a.key = b.key) : a = b := by
  cases a <;> cases b <;> simp_all [Component.key]

theorem components_eq_of_keys {a b : List Component}
    (same : a.map Component.key = b.map Component.key) : a = b :=
  List.map_inj_right (fun _ _ => key_injective) |>.1 same

def Precedes (a b : Path) : Prop :=
  a.components.map Component.key < b.components.map Component.key

theorem le_trans (a b c : Path) (first : a.le b = true) (second : b.le c = true) : a.le c = true :=
  decide_eq_true (List.le_trans (of_decide_eq_true first) (of_decide_eq_true second))

theorem le_total (a b : Path) : (a.le b || b.le a) = true := by
  simp only [le, Bool.or_eq_true, decide_eq_true_eq]
  exact List.le_total _ _

theorem precedes_of_le {a b : Path} (le : a.le b = true) (differ : a.components ≠ b.components) :
    a.Precedes b := by
  have keys : a.components.map Component.key ≤ b.components.map Component.key := of_decide_eq_true le
  exact Std.lt_of_le_of_ne keys fun same => differ (components_eq_of_keys same)

theorem Precedes.asymm {a b : Path} (before : a.Precedes b) : ¬b.Precedes a :=
  List.lt_asymm before

theorem nodup_of_increasing {paths : List Path} (increasing : paths.Pairwise Precedes) :
    paths.Nodup := by
  refine increasing.imp ?_
  rintro a _ before rfl
  exact before.asymm before

theorem eq_of_increasing {left right : List Path} (leftIncreasing : left.Pairwise Precedes)
    (rightIncreasing : right.Pairwise Precedes) (same : ∀ path, path ∈ left ↔ path ∈ right) :
    left = right := by
  have perm := (List.perm_ext_iff_of_nodup (nodup_of_increasing leftIncreasing)
    (nodup_of_increasing rightIncreasing)).2 same
  refine perm.eq_of_pairwise ?_ leftIncreasing rightIncreasing
  intro a b _ _ before behind
  exact absurd behind before.asymm

end TraitCatalog.Path
