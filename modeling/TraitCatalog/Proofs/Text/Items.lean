import TraitCatalog.Text.Items

/-!
# The items of a list

Two equations settle `items`: a separator cuts a list in two (`runs_append_cons`), and a run of other
characters is one item (`IsItem.runs_eq`). Every text is a listing of some items, with separators around
them, and these are the items that are found in it (`items_eq_iff_listing`).
-/

namespace TraitCatalog.Text

def runs (text : List Char) : List (List Char) :=
  (text.splitOnP isSeparator).filter (!·.isEmpty)

structure IsItem (run : List Char) : Prop where
  nonempty : run ≠ []
  unbroken : ∀ c ∈ run, isSeparator c = false

def Separating (text : List Char) : Prop :=
  ∀ c ∈ text, isSeparator c = true

/-- One run after the other, with separators between two of them and perhaps behind the last. -/
inductive Along : List (List Char) → List Char → Prop where
  | last (run : List Char) {tail : List Char} (back : Separating tail) : Along [run] (run ++ tail)
  | next (run : List Char) {gap text : List Char} {runs : List (List Char)}
      (between : Separating gap) (some_gap : gap ≠ []) (later : Along runs text) :
      Along (run :: runs) (run ++ gap ++ text)

inductive Listing : List (List Char) → List Char → Prop where
  | nothing {gap : List Char} (blank : Separating gap) : Listing [] gap
  | something {lead text : List Char} {runs : List (List Char)} (front : Separating lead)
      (along : Along runs text) : Listing runs (lead ++ text)

theorem items_eq_map (text : String) : items text = (runs text.toList).map String.ofList :=
  rfl

theorem isSeparator_iff {c : Char} : isSeparator c = true ↔ c = ',' ∨ isBlank c = true := by
  simp [isSeparator]

/-! ### Cutting at separators -/

theorem runs_append_cons (before behind : List Char) {c : Char} (separates : isSeparator c = true) :
    runs (before ++ c :: behind) = runs before ++ runs behind := by
  unfold runs
  rw [List.splitOnP_append_cons before behind separates, List.filter_append]

theorem runs_cons {c : Char} (separates : isSeparator c = true) (text : List Char) :
    runs (c :: text) = runs text :=
  runs_append_cons [] text separates

theorem IsItem.runs_eq {run : List Char} (item : IsItem run) : runs run = [run] := by
  unfold runs
  rw [List.splitOnP_eq_singleton item.unbroken]
  simp [item.nonempty]

theorem Separating.runs_append {gap : List Char} (separating : Separating gap) (text : List Char) :
    runs (gap ++ text) = runs text := by
  induction gap with
  | nil => rfl
  | cons c gap ih =>
    obtain ⟨first, others⟩ := List.forall_mem_cons.1 separating
    rw [List.cons_append, runs_cons first, ih others]

theorem Separating.runs_eq {gap : List Char} (separating : Separating gap) : runs gap = [] := by
  have cut := separating.runs_append []
  rwa [List.append_nil] at cut

theorem IsItem.runs_append {run gap : List Char} (item : IsItem run) (between : Separating gap)
    (some_gap : gap ≠ []) (text : List Char) : runs (run ++ gap ++ text) = run :: runs text := by
  obtain ⟨c, gap, rfl⟩ := List.exists_cons_of_ne_nil some_gap
  obtain ⟨first, others⟩ := List.forall_mem_cons.1 between
  rw [List.append_assoc, List.cons_append, runs_append_cons run _ first, item.runs_eq,
    Separating.runs_append others]
  rfl

/-! ### Listings -/

theorem Along.runs_eq {listed : List (List Char)} {text : List Char} (along : Along listed text)
    (items : ∀ run ∈ listed, IsItem run) : runs text = listed := by
  induction along with
  | @last run tail back =>
    have item := items run List.mem_cons_self
    by_cases bare : tail = []
    · rw [bare, List.append_nil, item.runs_eq]
    · have cut := item.runs_append back bare []
      rwa [List.append_nil] at cut
  | next run between some_gap _ ih =>
    obtain ⟨item, others⟩ := List.forall_mem_cons.1 items
    rw [item.runs_append between some_gap, ih others]

theorem Listing.runs_eq {listed : List (List Char)} {text : List Char} (listing : Listing listed text)
    (items : ∀ run ∈ listed, IsItem run) : runs text = listed := by
  cases listing with
  | nothing blank => exact blank.runs_eq
  | something front along => rw [front.runs_append, along.runs_eq items]

theorem Listing.cons_separator {listed : List (List Char)} {text : List Char}
    (listing : Listing listed text) {c : Char} (separates : isSeparator c = true) :
    Listing listed (c :: text) := by
  cases listing with
  | nothing blank => exact .nothing (List.forall_mem_cons.2 ⟨separates, blank⟩)
  | something front along =>
    exact .something (List.forall_mem_cons.2 ⟨separates, front⟩) along

theorem IsItem.cons {run : List Char} (item : IsItem run) {c : Char} (stays : isSeparator c = false) :
    IsItem (c :: run) :=
  ⟨List.cons_ne_nil c run, List.forall_mem_cons.2 ⟨stays, item.unbroken⟩⟩

theorem isItem_singleton {c : Char} (stays : isSeparator c = false) : IsItem [c] :=
  ⟨List.cons_ne_nil c [], List.forall_mem_singleton.2 stays⟩

theorem Along.exists_cons {listed : List (List Char)} {text : List Char} (along : Along listed text)
    (items : ∀ run ∈ listed, IsItem run) {c : Char} (stays : isSeparator c = false) :
    ∃ longer, (∀ run ∈ longer, IsItem run) ∧ Along longer (c :: text) := by
  cases along with
  | last run back =>
    have item := items run List.mem_cons_self
    exact ⟨[c :: run], List.forall_mem_singleton.2 (item.cons stays), .last (c :: run) back⟩
  | @next run gap text runs between some_gap later =>
    obtain ⟨item, others⟩ := List.forall_mem_cons.1 items
    exact ⟨(c :: run) :: runs, List.forall_mem_cons.2 ⟨item.cons stays, others⟩,
      .next (c :: run) between some_gap later⟩

theorem exists_listing (text : List Char) :
    ∃ listed, (∀ run ∈ listed, IsItem run) ∧ Listing listed text := by
  have empty : Separating [] := fun _ member => absurd member List.not_mem_nil
  induction text with
  | nil => exact ⟨[], fun _ member => absurd member List.not_mem_nil, .nothing empty⟩
  | cons c text ih =>
    obtain ⟨listed, items, listing⟩ := ih
    by_cases separates : isSeparator c = true
    · exact ⟨listed, items, listing.cons_separator separates⟩
    · have stays := Bool.eq_false_iff.2 separates
      have alone := isItem_singleton stays
      -- The character joins the first run, unless there are separators before that.
      cases listing with
      | nothing blank =>
        exact ⟨[[c]], List.forall_mem_singleton.2 alone, .something empty (.last [c] blank)⟩
      | @something lead text _ front along =>
        by_cases bare : lead = []
        · obtain ⟨longer, longerItems, longerAlong⟩ := along.exists_cons items stays
          subst bare
          exact ⟨longer, longerItems, .something empty longerAlong⟩
        · exact ⟨[c] :: listed, List.forall_mem_cons.2 ⟨alone, items⟩,
            .something empty (.next [c] front bare along)⟩

theorem runs_eq_iff_listing {text : List Char} {listed : List (List Char)} :
    runs text = listed ↔ (∀ run ∈ listed, IsItem run) ∧ Listing listed text := by
  refine ⟨?_, fun ⟨items, listing⟩ => listing.runs_eq items⟩
  rintro rfl
  obtain ⟨listed, items, listing⟩ := exists_listing text
  rw [listing.runs_eq items]
  exact ⟨items, listing⟩

/-! ### What is left out -/

theorem Separating.filter_eq {gap : List Char} (separating : Separating gap) :
    gap.filter (!isSeparator ·) = [] :=
  List.filter_eq_nil_iff.2 fun c member => by simp [separating c member]

theorem IsItem.filter_eq {run : List Char} (item : IsItem run) :
    run.filter (!isSeparator ·) = run :=
  List.filter_eq_self.2 fun c member => by simp [item.unbroken c member]

theorem Along.filter_eq {listed : List (List Char)} {text : List Char} (along : Along listed text)
    (items : ∀ run ∈ listed, IsItem run) : text.filter (!isSeparator ·) = listed.flatten := by
  induction along with
  | last run back =>
    have item := items run List.mem_cons_self
    rw [List.filter_append, item.filter_eq, back.filter_eq]
    rfl
  | next run between _ _ ih =>
    obtain ⟨item, others⟩ := List.forall_mem_cons.1 items
    rw [List.filter_append, List.filter_append, item.filter_eq, between.filter_eq, ih others,
      List.append_nil]
    rfl

theorem flatten_runs (text : List Char) : (runs text).flatten = text.filter (!isSeparator ·) := by
  obtain ⟨listed, items, listing⟩ := exists_listing text
  rw [listing.runs_eq items]
  cases listing with
  | nothing blank => rw [blank.filter_eq]; rfl
  | something front along =>
    rw [List.filter_append, front.filter_eq, along.filter_eq items]
    rfl

/-! ### Items -/

theorem items_append (before behind : String) {c : Char} (separates : c = ',' ∨ isBlank c = true) :
    items (before ++ String.singleton c ++ behind) = items before ++ items behind := by
  have cut := runs_append_cons before.toList behind.toList (isSeparator_iff.2 separates)
  simp only [items_eq_map, String.toList_append, String.toList_singleton, List.append_assoc,
    List.singleton_append, cut, List.map_append]

theorem map_toList_items (text : String) : (items text).map String.toList = runs text.toList := by
  simp [items_eq_map, Function.comp_def]

theorem items_eq_iff_listing {text : String} {names : List String} :
    items text = names ↔
      (∀ name ∈ names, IsItem name.toList) ∧ Listing (names.map String.toList) text.toList := by
  have chars : items text = names ↔ runs text.toList = names.map String.toList := by
    rw [← map_toList_items]
    exact (List.map_inj_right fun _ _ => String.toList_inj.1).symm
  rw [chars, runs_eq_iff_listing, List.forall_mem_map]

/-- The items of a text are its longest runs without a separator, in order. A separator cuts a list in
two, wherever it stands, nothing but the separators is left out, and items written with any mixtures of
separators between and around them are read back. -/
theorem items_are_maximal_runs :
    (∀ (before behind : String) (c : Char), c = ',' ∨ isBlank c = true →
      items (before ++ String.singleton c ++ behind) = items before ++ items behind) ∧
    (∀ text : String, text ≠ "" → (∀ c ∈ text.toList, isSeparator c = false) → items text = [text]) ∧
    (∀ text : String,
      (∀ item ∈ items text, item ≠ "" ∧ ∀ c ∈ item.toList, isSeparator c = false) ∧
      (items text).flatMap String.toList = text.toList.filter (!isSeparator ·)) ∧
    ∀ (text : String) (names : List String), items text = names ↔
      (∀ name ∈ names, IsItem name.toList) ∧ Listing (names.map String.toList) text.toList := by
  have filled : ∀ {text : String}, text.toList ≠ [] ↔ text ≠ "" := by simp
  refine ⟨fun before behind c separates => items_append before behind separates, ?_, ?_,
    fun _ _ => items_eq_iff_listing⟩
  · intro text some_text unbroken
    have item : IsItem text.toList := ⟨filled.2 some_text, unbroken⟩
    rw [items_eq_map, item.runs_eq]
    simp
  · intro text
    refine ⟨fun item member => ?_, ?_⟩
    · have found := (items_eq_iff_listing.1 rfl).1 item member
      exact ⟨filled.1 found.nonempty, found.unbroken⟩
    · rw [List.flatMap_def, map_toList_items, flatten_runs]

-- Commas, an ideographic space and a tab stand between the names, more of them at both ends.
theorem items_are_maximal_runs_mixed_separators :
    items ", core,\u3000std\talloc,\n" = ["core", "std", "alloc"] := by
  obtain ⟨-, -, -, read⟩ := items_are_maximal_runs
  refine (read _ _).2 ⟨?_, ?_⟩
  · have unbroken : (["core", "std", "alloc"].flatMap String.toList).all (!isSeparator ·) = true := by
      decide
    have filled : ∀ name ∈ ["core", "std", "alloc"], name.toList ≠ [] := by decide
    refine fun name member => ⟨filled name member, fun c inside => ?_⟩
    simpa using List.all_eq_true.1 unbroken c (List.mem_flatMap.2 ⟨name, member, inside⟩)
  · have front : Separating [',', ' '] := List.all_eq_true.1 (by decide)
    have first : Separating [',', '\u3000'] := List.all_eq_true.1 (by decide)
    have second : Separating ['\t'] := List.all_eq_true.1 (by decide)
    have back : Separating [',', '\n'] := List.all_eq_true.1 (by decide)
    exact .something front (.next ['c', 'o', 'r', 'e'] first (by decide)
      (.next ['s', 't', 'd'] second (by decide) (.last ['a', 'l', 'l', 'o', 'c'] back)))

end TraitCatalog.Text
