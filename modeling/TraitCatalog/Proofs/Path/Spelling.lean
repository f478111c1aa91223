import TraitCatalog.Proofs.Path.Components

/-!
# Spellings of a path

A path along names can be spelled in many ways: slashes may be repeated, a lone dot may stand at the
front or between slashes, and slashes may trail. `Spelling` lists the ways of a relative path, and none
of them shows in the components (`moves_of_spelling`). Stripping a directory off a path leaves the
components behind those of the directory (`components_of_below?`).
-/

namespace TraitCatalog.Path

/-! ### Parts between slashes -/

theorem unslashed_of_mem_pieces {path : Path} {piece : Bytes} (member : piece ∈ path.pieces) :
    slash ∉ piece := by
  obtain ⟨bytes⟩ := path
  unfold pieces List.splitOn at member
  induction bytes generalizing piece with
  | nil =>
    obtain rfl := List.mem_singleton.1 member
    exact List.not_mem_nil
  | cons byte rest ih =>
    rw [List.splitOnP_cons_eq_if_modifyHead] at member
    split at member
    · rcases List.mem_cons.1 member with rfl | later
      · exact List.not_mem_nil
      · exact ih later
    · rename_i differ
      obtain ⟨first, others, split⟩ := exists_pieces ⟨rest⟩
      unfold pieces List.splitOn at split
      rw [split] at member ih
      rcases List.mem_cons.1 member with rfl | later
      · rw [List.mem_cons, not_or]
        exact ⟨fun same => differ (beq_iff_eq.2 same.symm), ih List.mem_cons_self⟩
      · exact ih (List.mem_cons_of_mem first later)

def isIdle (piece : Bytes) : Bool :=
  (Component.ofPiece? piece).isNone

/-- The components of all parts, read as if none of them were the first. -/
def steps (bytes : Bytes) : List Component :=
  (pieces ⟨bytes⟩).filterMap Component.ofPiece?

theorem steps_append (left right : Bytes) :
    steps (left ++ slash :: right) = steps left ++ steps right := by
  unfold steps
  rw [pieces_append, List.filterMap_append]

theorem ProperName.steps_eq {name : Bytes} (proper : ProperName name) :
    steps name = [.normal name] := by
  rw [steps, pieces_of_unslashed proper.unslashed, List.filterMap_cons_some proper.ofPiece?_eq]
  rfl

theorem components_absolute (rest : Bytes) : components ⟨slash :: rest⟩ = .root :: steps rest := by
  obtain ⟨first, others, split⟩ := exists_pieces ⟨rest⟩
  have longer : pieces ⟨slash :: rest⟩ = [] :: first :: others :=
    (pieces_append [] rest).trans (congrArg ([] :: ·) split)
  rw [components_of_pieces longer, steps, split]
  rfl

/-! ### Below a directory -/

theorem exists_passed {components : List Component} {parts rest : List (Bytes × Option Component)}
    (found : after? components parts = some rest) :
    ∃ passed, parts = passed ++ rest ∧ passed.filterMap Prod.snd = components := by
  fun_induction after? components parts with
  | case1 parts => exact ⟨[], Option.some.inj found, rfl⟩
  | case2 => cases found
  | case3 component components piece parts ih =>
    obtain ⟨passed, rfl, same⟩ := ih found
    exact ⟨(piece, none) :: passed, rfl, by simpa using same⟩
  | case4 components piece other parts ih =>
    obtain ⟨passed, rfl, same⟩ := ih found
    exact ⟨(piece, some other) :: passed, rfl, by simpa using same⟩
  | case5 => cases found

theorem filterMap_dropWhile_isIdle (pieces : List Bytes) :
    (pieces.dropWhile isIdle).filterMap Component.ofPiece? = pieces.filterMap Component.ofPiece? := by
  induction pieces with
  | nil => rfl
  | cons piece pieces ih =>
    rw [List.dropWhile_cons]
    split
    · rename_i idle
      rw [ih, List.filterMap_cons_none (Option.isNone_iff_eq_none.1 idle)]
    · rfl

def trimIdle (pieces : List Bytes) : List Bytes :=
  ((pieces.dropWhile isIdle).reverse.dropWhile isIdle).reverse

theorem filterMap_trimIdle (pieces : List Bytes) :
    (trimIdle pieces).filterMap Component.ofPiece? = pieces.filterMap Component.ofPiece? := by
  rw [trimIdle, List.filterMap_reverse, filterMap_dropWhile_isIdle, List.filterMap_reverse,
    List.reverse_reverse, filterMap_dropWhile_isIdle]

theorem trimIdle_prefix_dropWhile (pieces : List Bytes) : trimIdle pieces <+: pieces.dropWhile isIdle := by
  rw [← List.reverse_suffix, trimIdle, List.reverse_reverse]
  exact List.dropWhile_suffix isIdle

theorem isIdle_head {pieces others : List Bytes} {first : Bytes}
    (trimmed : trimIdle pieces = first :: others) : isIdle first = false := by
  obtain ⟨more, same⟩ := trimmed ▸ trimIdle_prefix_dropWhile pieces
  have stopped := List.head?_dropWhile_not isIdle pieces
  rwa [← same] at stopped

theorem map_fst_trimmed (pieces : List Bytes) :
    ((((pieces.map fun piece => (piece, Component.ofPiece? piece)).dropWhile
      fun part => part.2.isNone).reverse.dropWhile fun part => part.2.isNone).reverse).map Prod.fst =
        trimIdle pieces := by
  simp only [List.dropWhile_map, ← List.map_reverse, List.map_map, Function.comp_def, List.map_id']
  rfl

/-- Of parts that do not start idly, the first is read as the others are. -/
theorem components_ofPieces_trimIdle {pieces : List Bytes}
    (unslashed : ∀ piece ∈ pieces, slash ∉ piece) :
    (ofPieces (trimIdle pieces)).components = pieces.filterMap Component.ofPiece? := by
  rw [← filterMap_trimIdle]
  have part : ∀ piece ∈ trimIdle pieces, slash ∉ piece := fun piece member =>
    unslashed piece ((List.dropWhile_suffix isIdle).subset ((trimIdle_prefix_dropWhile pieces).subset member))
  cases trimmed : trimIdle pieces with
  | nil => rfl
  | cons first others =>
    rw [trimmed] at part
    have split : (ofPieces (first :: others)).pieces = first :: others :=
      List.splitOn_intercalate slash part (List.cons_ne_nil first others)
    have busy := isIdle_head trimmed
    have visible : first ≠ [] ∧ first ≠ [dot] := by
      constructor <;> rintro rfl <;> cases busy
    rw [components_of_pieces split, Component.ofFirst?, if_neg visible.1, if_neg visible.2]
    cases found : Component.ofPiece? first <;> simp [found]

/-- The components of a path are those of the directory that it starts with, and then those below. -/
theorem components_of_below? {path directory relative : Path}
    (below : path.below? directory = some relative) (some_directory : directory.components ≠ []) :
    path.components = directory.components ++ relative.components := by
  obtain ⟨first, others, split⟩ := exists_pieces path
  unfold below? at below
  obtain ⟨rest, found, kept⟩ := Option.bind_eq_some_iff.1 below
  obtain ⟨passed, same, counted⟩ := exists_passed found
  have all : path.components = directory.components ++ rest.filterMap Prod.snd := by
    rw [components, same, List.filterMap_append, counted]
  -- The directory has a component, so at least the first part is passed.
  cases passed with
  | nil => exact absurd counted.symm some_directory
  | cons head passed =>
    unfold marked at same
    rw [split] at same
    obtain ⟨-, later⟩ := List.cons.inj same
    obtain ⟨front, back, rfl, -, rfl⟩ := List.map_eq_append_iff.1 later
    have trimmed : relative = ofPieces (trimIdle back) := by
      rw [← Option.some.inj kept, ← map_fst_trimmed]
    have unslashed : ∀ piece ∈ back, slash ∉ piece := fun piece member =>
      unslashed_of_mem_pieces (split ▸ List.mem_cons_of_mem first (List.mem_append_right front member))
    rw [all, trimmed, components_ofPieces_trimIdle unslashed, List.filterMap_map]
    rfl

/-! ### Relative paths -/

/-- The components that lead on from a place. -/
def moves (components : List Component) : List Component :=
  components.filter (· != .current)

theorem moves_steps (bytes : Bytes) : moves (steps bytes) = steps bytes := by
  refine List.filter_eq_self.2 fun component member => ?_
  obtain ⟨piece, _, found⟩ := List.mem_filterMap.1 member
  unfold Component.ofPiece? at found
  split at found
  · cases found
  · split at found <;> cases found <;> rfl

/-- In a relative path only a dot at the front is read otherwise than behind a slash. -/
theorem components_relative {path : Path} (relative : path.isAbsolute = false) :
    path.components = steps path.bytes ∨ path.components = .current :: steps path.bytes := by
  obtain ⟨first, others, split⟩ := exists_pieces path
  have read : steps path.bytes = (Component.ofPiece? first).toList ++
      others.filterMap Component.ofPiece? := by
    unfold steps
    rw [split]
    cases found : Component.ofPiece? first <;> simp [found]
  rw [components_of_pieces split, read]
  unfold Component.ofFirst?
  split
  · rename_i empty
    subst empty
    cases others with
    | nil => exact Or.inl rfl
    | cons second others =>
      have joined : [slash].intercalate path.pieces = path.bytes := List.intercalate_splitOn slash
      rw [split] at joined
      rw [isAbsolute, ← joined] at relative
      cases relative
  · split
    · rename_i lone
      subst lone
      exact Or.inr rfl
    · exact Or.inl rfl

theorem moves_components {path : Path} (relative : path.isAbsolute = false) :
    moves path.components = steps path.bytes := by
  rcases components_relative relative with same | same
  · rw [same, moves_steps]
  · rw [same]
    exact moves_steps path.bytes

/-! ### Spellings -/

/-- Slashes, and dots that stand alone between them. -/
inductive Gap : Bytes → Prop where
  | one : Gap [slash]
  | more {gap : Bytes} (others : Gap gap) : Gap (slash :: gap)
  | dotted {gap : Bytes} (others : Gap gap) : Gap (slash :: dot :: gap)

inductive Along : List Bytes → Bytes → Prop where
  | last (name : Bytes) : Along [name] name
  | next (name : Bytes) {gap : Bytes} {names : List Bytes} {bytes : Bytes} (between : Gap gap)
      (later : Along names bytes) : Along (name :: names) (name ++ gap ++ bytes)

inductive Lead : Bytes → Prop where
  | nothing : Lead []
  | dotted {gap : Bytes} (behind : Gap gap) : Lead (dot :: gap)

inductive Tail : Bytes → Prop where
  | nothing : Tail []
  | slashes {gap : Bytes} (before : Gap gap) : Tail gap
  | dotted {gap : Bytes} (before : Gap gap) : Tail (gap ++ [dot])

/-- The ways to write the relative path along names. -/
inductive Spelling (names : List Bytes) : Bytes → Prop where
  | mk {lead bytes tail : Bytes} (front : Lead lead) (along : Along names bytes) (back : Tail tail) :
      Spelling names (lead ++ bytes ++ tail)

theorem Gap.steps_eq {gap : Bytes} (between : Gap gap) (left right : Bytes) :
    steps (left ++ gap ++ right) = steps left ++ steps right := by
  induction between generalizing left with
  | one =>
    rw [List.append_assoc]
    exact steps_append left right
  | @more gap _ ih =>
    have same : left ++ slash :: gap ++ right = left ++ slash :: ([] ++ gap ++ right) := by simp
    rw [same, steps_append, ih]
    rfl
  | @dotted gap _ ih =>
    have same : left ++ slash :: dot :: gap ++ right = left ++ slash :: ([dot] ++ gap ++ right) := by
      simp
    rw [same, steps_append, ih]
    rfl

theorem Along.steps_eq {names : List Bytes} {bytes : Bytes} (along : Along names bytes)
    (proper : ∀ name ∈ names, ProperName name) : steps bytes = names.map .normal := by
  induction along with
  | last name => exact (proper name List.mem_cons_self).steps_eq
  | next name between _ ih =>
    obtain ⟨first, others⟩ := List.forall_mem_cons.1 proper
    rw [between.steps_eq, first.steps_eq, ih others]
    rfl

theorem Lead.steps_eq {lead : Bytes} (front : Lead lead) (bytes : Bytes) :
    steps (lead ++ bytes) = steps bytes := by
  cases front with
  | nothing => rfl
  | dotted behind => exact behind.steps_eq [dot] bytes

theorem Tail.steps_eq {tail : Bytes} (back : Tail tail) (bytes : Bytes) :
    steps (bytes ++ tail) = steps bytes := by
  have nothing : steps [] = [] := rfl
  have lone : steps [dot] = [] := rfl
  cases back with
  | nothing => rw [List.append_nil]
  | slashes before => rw [← List.append_nil (bytes ++ tail), before.steps_eq, nothing, List.append_nil]
  | dotted before => rw [← List.append_assoc, before.steps_eq, lone, List.append_nil]

theorem Along.exists_cons {names : List Bytes} {bytes : Bytes} (along : Along names bytes)
    (proper : ∀ name ∈ names, ProperName name) : ∃ byte rest, byte ≠ slash ∧ bytes = byte :: rest := by
  have first : ∀ {name : Bytes} (rest : Bytes), ProperName name →
      ∃ byte others, byte ≠ slash ∧ name ++ rest = byte :: others := by
    intro name rest proper
    obtain ⟨byte, others, rfl⟩ := List.exists_cons_of_ne_nil proper.nonempty
    exact ⟨byte, others ++ rest, fun same => proper.unslashed (same ▸ List.mem_cons_self), rfl⟩
  cases along with
  | last => simpa using first [] (proper bytes List.mem_cons_self)
  | next name => simpa using first _ (proper name List.mem_cons_self)

theorem Spelling.relative {names : List Bytes} {bytes : Bytes} (spelled : Spelling names bytes)
    (proper : ∀ name ∈ names, ProperName name) : isAbsolute ⟨bytes⟩ = false := by
  obtain ⟨front, along, _⟩ := spelled
  cases front with
  | nothing =>
    obtain ⟨byte, rest, differ, rfl⟩ := along.exists_cons proper
    simp [isAbsolute, differ]
  | dotted => rfl

/-- No way to write a path along names shows in where it leads. -/
theorem moves_of_spelling {names : List Bytes} {bytes : Bytes} (spelled : Spelling names bytes)
    (proper : ∀ name ∈ names, ProperName name) : moves (components ⟨bytes⟩) = names.map .normal := by
  rw [moves_components (spelled.relative proper)]
  obtain ⟨front, along, back⟩ := spelled
  rw [back.steps_eq, front.steps_eq, along.steps_eq proper]

theorem along_intercalate (name : Bytes) (names : List Bytes) :
    Along (name :: names) ([slash].intercalate (name :: names)) := by
  induction names generalizing name with
  | nil => simpa using Along.last name
  | cons next names ih => simpa using Along.next name .one (ih next)

theorem spelling_intercalate {names : List Bytes} (some_name : names ≠ []) :
    Spelling names ([slash].intercalate names) := by
  obtain ⟨name, names, rfl⟩ := List.exists_cons_of_ne_nil some_name
  simpa using Spelling.mk .nothing (along_intercalate name names) .nothing

/-! ### Going up -/

def GoesUp (bytes : Bytes) : Prop :=
  ∃ before behind, bytes = before ++ [dot, dot] ++ behind ∧
    (before = [] ∨ ∃ front, before = front ++ [slash]) ∧
    (behind = [] ∨ ∃ back, behind = slash :: back)

theorem GoesUp.mem_pieces {bytes : Bytes} (up : GoesUp bytes) : [dot, dot] ∈ pieces ⟨bytes⟩ := by
  obtain ⟨before, behind, rfl, front, back⟩ := up
  have first : [dot, dot] ∈ pieces ⟨[dot, dot] ++ behind⟩ := by
    rcases back with rfl | ⟨back, rfl⟩
    · rw [List.append_nil, pieces_of_unslashed (by decide)]
      exact List.mem_cons_self
    · rw [pieces_append, pieces_of_unslashed (by decide)]
      exact List.mem_cons_self
  rw [List.append_assoc]
  rcases front with rfl | ⟨front, rfl⟩
  · exact first
  · rw [List.append_assoc]
    show _ ∈ pieces ⟨front ++ slash :: _⟩
    rw [pieces_append]
    exact List.mem_append_right _ first

theorem GoesUp.parent_mem {bytes : Bytes} (up : GoesUp bytes) : .parent ∈ components ⟨bytes⟩ := by
  have member := up.mem_pieces
  obtain ⟨first, others, split⟩ := exists_pieces ⟨bytes⟩
  rw [components_of_pieces split, List.mem_append]
  rw [split] at member
  rcases List.mem_cons.1 member with rfl | later
  · exact Or.inl List.mem_cons_self
  · exact Or.inr (List.mem_filterMap.2 ⟨_, later, rfl⟩)

end TraitCatalog.Path
