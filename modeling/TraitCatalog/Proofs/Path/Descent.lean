import TraitCatalog.Proofs.Path.Spelling

/-!
# Paths below a directory

Names can be joined to a directory one after the other or all at once, with the same bytes
(`descend_eq_join`), and so a path from the root is made (`ofNames_eq_descend`). Stripping the directory
off again leaves the names, however it is spelled (`below?_descend`).
-/

namespace TraitCatalog.Path

/-! ### Joining -/

/-- What comes between a path and what is joined to it: a slash, unless there is one already. -/
def joint (path : Path) : Bytes :=
  if path.bytes.getLast?.getD slash = slash then [] else [slash]

theorem join_eq (path : Path) {next : Path} (relative : next.isAbsolute = false) :
    path.join next = ⟨path.bytes ++ path.joint ++ next.bytes⟩ := by
  unfold join joint
  rw [relative, if_neg Bool.false_ne_true]
  split <;> simp

theorem joint_append (bytes : Bytes) {name : Bytes} (proper : ProperName name) :
    joint ⟨bytes ++ name⟩ = [slash] := by
  rcases List.eq_nil_or_concat name with rfl | ⟨front, last, rfl⟩
  · exact absurd rfl proper.nonempty
  · have differ : last ≠ slash := by
      rintro rfl
      exact proper.unslashed (by simp)
    simp [joint, List.getLast?_append, differ]

theorem ofPieces_relative {names : List Bytes} (some_name : names ≠ [])
    (proper : ∀ name ∈ names, ProperName name) : (ofPieces names).isAbsolute = false :=
  (spelling_intercalate some_name).relative proper

theorem descend_eq_join (path : Path) {names : List Bytes} (some_name : names ≠ [])
    (proper : ∀ name ∈ names, ProperName name) : path.descend names = path.join (ofPieces names) := by
  induction names generalizing path with
  | nil => exact absurd rfl some_name
  | cons name names ih =>
    obtain ⟨first, others⟩ := List.forall_mem_cons.1 proper
    cases names with
    | nil => simp [descend, ofPieces]
    | cons next names =>
      have some_other := List.cons_ne_nil next names
      show (path.join ⟨name⟩).descend (next :: names) = _
      rw [ih _ some_other others, join_eq _ (ofPieces_relative some_other others),
        join_eq _ first.not_isAbsolute, joint_append _ first,
        join_eq _ (ofPieces_relative some_name proper)]
      simp [ofPieces, List.intercalate_cons_cons]

theorem isAbsolute_join {path next : Path} (absolute : path.isAbsolute = true) :
    (path.join next).isAbsolute = true := by
  obtain ⟨bytes⟩ := path
  cases bytes with
  | nil => cases absolute
  | cons byte rest =>
    unfold join
    split
    · assumption
    · split <;> exact absolute

/-! ### From the root -/

theorem bytes_ofNames_ne_nil (names : List Bytes) : (ofNames names).bytes ≠ [] :=
  List.cons_ne_nil _ _

theorem ofNames_eq_descend {names : List Bytes} (proper : ∀ name ∈ names, ProperName name) :
    ofNames names = (Path.mk [slash]).descend names := by
  by_cases some_name : names = []
  · rw [some_name]
    rfl
  · rw [descend_eq_join _ some_name proper,
      join_eq _ (ofPieces_relative some_name proper)]
    rfl

theorem pieces_ofNames {names : List Bytes} (proper : ∀ name ∈ names, ProperName name) :
    ∀ piece ∈ (ofNames names).pieces, piece = [] ∨ piece ∈ names := by
  have split : (ofNames names).pieces = [] :: pieces ⟨[slash].intercalate names⟩ :=
    pieces_append [] _
  rw [split]
  by_cases some_name : names = []
  · rw [some_name]
    simp [pieces]
  · have apart : pieces ⟨[slash].intercalate names⟩ = names :=
      List.splitOn_intercalate slash (fun name member => (proper name member).unslashed) some_name
    rw [apart]
    simp

/-! ### Stripping -/

/-- Behind the components of the front only idle parts of it are left. -/
theorem exists_idle (front rest : List (Bytes × Option Component)) :
    ∃ idle, (∀ part ∈ idle, part.2 = none) ∧
      after? (front.filterMap Prod.snd) (front ++ rest) = some (idle ++ rest) := by
  induction front with
  | nil => exact ⟨[], by simp, by simp [after?]⟩
  | cons part front ih =>
    obtain ⟨idle, idly, found⟩ := ih
    obtain ⟨piece, component⟩ := part
    cases component with
    | some component => exact ⟨idle, idly, by simp [after?, found]⟩
    | none =>
      cases components : front.filterMap Prod.snd with
      | nil =>
        rw [List.filterMap_eq_nil_iff] at components
        refine ⟨(piece, none) :: front, List.forall_mem_cons.2 ⟨rfl, components⟩, ?_⟩
        simp [after?, List.filterMap_eq_nil_iff.2 components]
      | cons component others =>
        rw [components] at found
        exact ⟨idle, idly, by simp [after?, components, found]⟩

theorem exists_slashed {directory : Path} (some_directory : directory.bytes ≠ []) :
    ∃ front, directory.bytes ++ directory.joint = front ++ [slash] ∧
      components ⟨front ++ [slash]⟩ = directory.components := by
  obtain ⟨bytes⟩ := directory
  rcases List.eq_nil_or_concat bytes with rfl | ⟨front, last, rfl⟩
  · exact absurd rfl some_directory
  · by_cases slashed : last = slash
    · subst slashed
      exact ⟨front, by simp [joint], by simp⟩
    · exact ⟨front.concat last, by simp [joint, slashed], components_trailing_slash some_directory⟩

theorem exists_marked_join {directory : Path} (some_directory : directory.bytes ≠ [])
    {names : List Bytes} (some_name : names ≠ []) (proper : ∀ name ∈ names, ProperName name) :
    ∃ front, front.filterMap Prod.snd = directory.components ∧
      (directory.join (ofPieces names)).marked =
        front ++ names.map fun name => (name, some (.normal name)) := by
  obtain ⟨bytes, slashed, same⟩ := exists_slashed some_directory
  obtain ⟨first, others, split⟩ := exists_pieces ⟨bytes⟩
  have unslashed : ∀ name ∈ names, slash ∉ name := fun name member => (proper name member).unslashed
  have names_eq : (ofPieces names).pieces = names := List.splitOn_intercalate slash unslashed some_name
  have pieces_eq : (directory.join (ofPieces names)).pieces = first :: (others ++ names) := by
    rw [join_eq _ (ofPieces_relative some_name proper), slashed, List.append_assoc]
    show pieces ⟨bytes ++ slash :: (ofPieces names).bytes⟩ = _
    rw [pieces_append, split, ← List.cons_append]
    exact congrArg _ names_eq
  have notAlone : (others ++ names).isEmpty = false := by simp [some_name]
  refine ⟨(first, Component.ofFirst? first false) ::
    others.map fun piece => (piece, Component.ofPiece? piece), ?_, ?_⟩
  · have slashed_pieces : pieces ⟨bytes ++ [slash]⟩ = first :: (others ++ [[]]) := by
      rw [pieces_append, split, pieces_of_unslashed List.not_mem_nil, List.cons_append]
    have empty : Component.ofPiece? [] = none := rfl
    have alone : (others ++ [[]]).isEmpty = false := by simp
    rw [← same, components_of_pieces slashed_pieces, alone, List.filterMap_cons, filterMap_snd_map]
    cases Component.ofFirst? first false <;> simp [empty]
  · unfold marked
    rw [pieces_eq]
    simp only [notAlone, List.map_append, List.cons_append]
    congr 2
    exact List.map_congr_left fun name member => by rw [(proper name member).ofPiece?_eq]

theorem below?_descend {directory : Path} (some_directory : directory.bytes ≠ [])
    {names : List Bytes} (some_name : names ≠ []) (proper : ∀ name ∈ names, ProperName name) :
    (directory.descend names).below? directory = some (ofPieces names) := by
  obtain ⟨front, same, marks⟩ := exists_marked_join some_directory some_name proper
  obtain ⟨idle, idly, found⟩ := exists_idle front (names.map fun name => (name, some (.normal name)))
  have busy : ∀ names : List Bytes,
      (names.map fun name => (name, some (Component.normal name))).dropWhile
        (fun part => part.2.isNone) = names.map fun name => (name, some (Component.normal name)) := by
    intro names
    cases names <;> rfl
  have passed : ∀ part ∈ idle, part.2.isNone = true := fun part member => by rw [idly part member]; rfl
  rw [descend_eq_join directory some_name proper]
  unfold below?
  rw [marks, ← same, found]
  simp only [Option.bind_eq_bind, Option.bind_some, List.dropWhile_append_of_pos passed, busy,
    ← List.map_reverse, List.reverse_reverse, List.map_map]
  simp [Function.comp_def]

/-! ### What names lead to -/

theorem fileName?_descend (path : Path) {names : List Bytes} {name : Bytes}
    (proper : ∀ other ∈ names ++ [name], ProperName other) :
    (path.descend (names ++ [name])).fileName? = some name := by
  unfold fileName?
  rw [components_descend path proper, List.map_append, ← List.append_assoc]
  simp

theorem precedes_descend (path : Path) {left right : List Bytes}
    (leftProper : ∀ name ∈ left, ProperName name) (rightProper : ∀ name ∈ right, ProperName name)
    (less : left < right) : (path.descend left).Precedes (path.descend right) := by
  unfold Precedes
  rw [components_descend path leftProper, components_descend path rightProper, List.map_append,
    List.map_append, List.map_map, List.map_map]
  refine List.append_left_lt (List.map_lt ?_ less)
  intro a b below
  exact List.cons_lt_cons_iff.2 (Or.inr ⟨rfl, below⟩)

end TraitCatalog.Path
