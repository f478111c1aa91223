import TraitCatalog.Proofs.Script.Grammar

/-!
# Scripts as assignments and what stands around them

A layout cuts a text at its assignments. It is clear when no header starts in what stands around
them, whatever that header would reach into. A text has at most one clear layout
(`Layout.eq_of_text_eq`), and a script is accepted exactly when it has one with an assignment.
-/

namespace TraitCatalog.Script

open Json (Reads)

structure Assignment where
  header : List Char
  library : List Char
  array : List Char
  descriptors : List Descriptor
  headed : IsHeader library header
  named : library ≠ []
  listed : IsArray descriptors array

namespace Assignment

def text (assignment : Assignment) : List Char :=
  assignment.header ++ assignment.array

def contribution (assignment : Assignment) : Contribution :=
  ⟨String.ofList assignment.library, assignment.descriptors⟩

end Assignment

/-- A filler, then assignments with a filler behind each of them. -/
inductive Layout where
  | ending (filler : List Char)
  | assigned (filler : List Char) (assignment : Assignment) (rest : Layout)

def HeaderAt (text : List Char) : Prop :=
  ∃ library header rest, IsHeader library header ∧ text = header ++ rest

/-- No header starts inside a filler that stands before `following`. -/
def Passive (filler following : List Char) : Prop :=
  ∀ before inside, filler = before ++ inside → inside ≠ [] → ¬HeaderAt (inside ++ following)

namespace Layout

def text : Layout → List Char
  | .ending filler => filler
  | .assigned filler assignment rest => filler ++ (assignment.text ++ rest.text)

def assignments : Layout → List Assignment
  | .ending _ => []
  | .assigned _ assignment rest => assignment :: rest.assignments

def Clear : Layout → Prop
  | .ending filler => Passive filler []
  | .assigned filler assignment rest => Passive filler (assignment.text ++ rest.text) ∧ rest.Clear

/-- The layout cuts a text at all of its headers. -/
structure Cuts (layout : Layout) (source : List Char) : Prop where
  text : layout.text = source
  clear : layout.Clear

end Layout

/-! ### Search -/

theorem headerAt_iff {text : List Char} : HeaderAt text ↔ (header? text).isSome := by
  rw [Option.isSome_iff_exists]
  constructor
  · rintro ⟨library, header, rest, headed, same⟩
    exact ⟨(library, rest), header?_eq_some_iff.2 ⟨header, headed, same⟩⟩
  · rintro ⟨⟨library, rest⟩, found⟩
    obtain ⟨header, headed, same⟩ := header?_eq_some_iff.1 found
    exact ⟨library, header, rest, headed, same⟩

theorem passive_nil (following : List Char) : Passive [] following := by
  rintro before inside split some_inside
  exact absurd (List.append_eq_nil_iff.1 split.symm).2 some_inside

theorem passive_cons_iff {c : Char} {filler following : List Char} :
    Passive (c :: filler) following ↔
      header? (c :: (filler ++ following)) = none ∧ Passive filler following := by
  rw [← Option.not_isSome_iff_eq_none, ← headerAt_iff]
  constructor
  · intro passive
    exact ⟨passive [] _ rfl (List.cons_ne_nil _ _),
      fun before inside split => passive (c :: before) inside (congrArg (c :: ·) split)⟩
  · rintro ⟨here, later⟩ before inside split some_inside
    cases before with
    | nil =>
      obtain rfl : c :: filler = inside := split
      exact here
    | cons first before => exact later before inside (List.cons.inj split).2 some_inside

instance decidablePassive : (filler following : List Char) → Decidable (Passive filler following)
  | [], following => isTrue (passive_nil following)
  | _ :: filler, following =>
    have := decidablePassive filler following
    decidable_of_iff _ passive_cons_iff.symm

theorem find?_eq_none_iff {text : List Char} : find? text = none ↔ Passive text [] := by
  induction text with
  | nil => exact ⟨fun _ => passive_nil [], fun _ => rfl⟩
  | cons c rest ih =>
    rw [passive_cons_iff, List.append_nil, ← ih, find?]
    split
    · rename_i found
      simp [found]
    · rename_i found
      simp [found]

theorem exists_filler_of_find? {text : List Char} {header : Header text}
    (found : find? text = some header) :
    ∃ filler, text = filler ++ header.start ∧ Passive filler header.start ∧
      header? header.start = some (header.library, header.body) := by
  induction text with
  | nil => cases found
  | cons c rest ih =>
    rw [find?] at found
    split at found
    · rename_i library body here
      obtain rfl := Option.some.inj found
      exact ⟨[], rfl, passive_nil _, here⟩
    · rename_i missing
      obtain ⟨later, foundLater, rfl⟩ := Option.map_eq_some_iff.1 found
      obtain ⟨filler, split, passive, here⟩ := ih foundLater
      refine ⟨c :: filler, congrArg (c :: ·) split, passive_cons_iff.2 ⟨?_, passive⟩, here⟩
      rwa [← split]

theorem find?_append {filler following library body : List Char}
    (passive : Passive filler following) (here : header? following = some (library, body)) :
    ∃ header, find? (filler ++ following) = some header ∧ header.start = following ∧
      header.library = library ∧ header.body = body := by
  induction filler with
  | nil =>
    cases following with
    | nil => simp [header?, Text.dropWord?] at here
    | cons c rest =>
      rw [List.nil_append, find?]
      split
      · rename_i found
        rw [here] at found
        obtain ⟨rfl, rfl⟩ := Prod.mk.inj (Option.some.inj found)
        exact ⟨_, rfl, rfl, rfl, rfl⟩
      · rename_i missing
        rw [here] at missing
        cases missing
  | cons c filler ih =>
    obtain ⟨missing, later⟩ := passive_cons_iff.1 passive
    obtain ⟨header, found, start, library, body⟩ := ih later
    rw [List.cons_append, find?]
    split
    · rename_i found'
      rw [missing] at found'
      cases found'
    · rw [found]
      exact ⟨_, rfl, start, library, body⟩

theorem Passive.not_headerAt {filler before inside following : List Char}
    (passive : Passive filler following) (split : filler = before ++ inside)
    (headed : HeaderAt (inside ++ following)) : inside = [] := by
  by_cases nothing : inside = []
  · exact nothing
  · exact absurd headed (passive before inside split nothing)

/-- Two fillers that stand before headers in one text end at the same header. -/
theorem eq_of_passive {left right leftRest rightRest : List Char} (leftPassive : Passive left leftRest)
    (rightPassive : Passive right rightRest) (leftHeaded : HeaderAt leftRest)
    (rightHeaded : HeaderAt rightRest) (same : left ++ leftRest = right ++ rightRest) :
    left = right ∧ leftRest = rightRest := by
  rcases List.append_eq_append_iff.1 same with ⟨between, split, rest⟩ | ⟨between, split, rest⟩
  · obtain rfl := rightPassive.not_headerAt split (rest ▸ leftHeaded)
    exact ⟨by simpa using split.symm, by simpa using rest⟩
  · obtain rfl := leftPassive.not_headerAt split (rest ▸ rightHeaded)
    exact ⟨by simpa using split, by simpa using rest.symm⟩

/-! ### Layouts -/

namespace Assignment

theorem header?_text (assignment : Assignment) (rest : List Char) :
    header? (assignment.text ++ rest) = some (assignment.library, assignment.array ++ rest) :=
  header?_eq_some_iff.2 ⟨assignment.header, assignment.headed, List.append_assoc ..⟩

theorem reads_array (assignment : Assignment) (rest : List Char) :
    Reads (body (assignment.array ++ rest)) assignment.descriptors rest :=
  reads_body_iff.2 ⟨assignment.array, assignment.listed, rfl⟩

/-- Assignments at the front of one text are the same. -/
theorem eq_of_append_eq {left right : Assignment} {leftRest rightRest : List Char}
    (same : left.text ++ leftRest = right.text ++ rightRest) : left = right ∧ leftRest = rightRest := by
  have found := left.header?_text leftRest
  rw [same, right.header?_text] at found
  obtain ⟨library, arrays⟩ := Prod.mk.inj (Option.some.inj found)
  have read := left.reads_array leftRest
  rw [← arrays] at read
  obtain ⟨descriptors, rests⟩ := (right.reads_array rightRest).unique read
  subst rests
  have array := List.append_cancel_right arrays
  have header : left.header = right.header := by
    have texts := List.append_cancel_right same
    unfold text at texts
    rw [array] at texts
    exact List.append_cancel_right texts
  cases left
  cases right
  cases library
  cases descriptors
  cases array
  cases header
  exact ⟨rfl, rfl⟩

end Assignment

namespace Layout

def contributions (layout : Layout) : List Contribution :=
  layout.assignments.map Assignment.contribution

theorem headerAt_assignment (assignment : Assignment) (rest : List Char) :
    HeaderAt (assignment.text ++ rest) :=
  ⟨assignment.library, assignment.header, assignment.array ++ rest, assignment.headed,
    List.append_assoc ..⟩

theorem not_clear_ending {filler before rest : List Char} {assignment : Assignment}
    (clear : (ending filler).Clear) : filler ≠ before ++ (assignment.text ++ rest) := by
  intro split
  have headed := headerAt_assignment assignment rest
  have nothing : assignment.text ++ rest = [] :=
    clear.not_headerAt split (by rwa [List.append_nil])
  rw [nothing, headerAt_iff] at headed
  cases headed

/-- The headers of a text leave no choice where it is cut. -/
theorem eq_of_text_eq {left right : Layout} (leftClear : left.Clear) (rightClear : right.Clear)
    (same : left.text = right.text) : left = right := by
  induction left generalizing right with
  | ending filler =>
    cases right with
    | ending filler' => exact congrArg ending same
    | assigned filler' assignment rest => exact absurd same (not_clear_ending leftClear)
  | assigned filler assignment rest ih =>
    cases right with
    | ending filler' => exact absurd same.symm (not_clear_ending rightClear)
    | assigned filler' assignment' rest' =>
      obtain ⟨rfl, following⟩ := eq_of_passive leftClear.1 rightClear.1
        (headerAt_assignment assignment rest.text) (headerAt_assignment assignment' rest'.text) same
      obtain ⟨rfl, later⟩ := Assignment.eq_of_append_eq following
      rw [ih leftClear.2 rightClear.2 later]

end Layout

/-! ### Parsing -/

theorem layout_of_assignments {source text : List Char} {found : List Contribution}
    (read : assignments source text = .ok found) :
    ∃ layout : Layout, layout.Cuts text ∧ layout.contributions = found := by
  fun_induction assignments source text generalizing found with
  | case1 text missing =>
    obtain rfl := Except.ok.inj read
    exact ⟨.ending text, ⟨rfl, find?_eq_none_iff.1 missing⟩, rfl⟩
  | case2 => cases read
  | case3 => cases read
  | case4 => cases read
  | case5 text header foundHeader named array readArray _ others readOthers ih =>
    obtain rfl := Except.ok.inj read
    obtain ⟨filler, split, passive, here⟩ := exists_filler_of_find? foundHeader
    obtain ⟨front, headed, start⟩ := header?_eq_some_iff.1 here
    obtain ⟨listing, listed, behind⟩ := reads_body_iff.1 ⟨array, readArray, rfl, rfl⟩
    obtain ⟨rest, cuts, later⟩ := ih readOthers
    let assignment : Assignment :=
      ⟨front, header.library, listing, array.value, headed, by simpa using named, listed⟩
    have following : header.start = assignment.text ++ rest.text := by
      rw [start, behind, cuts.text]
      exact (List.append_assoc ..).symm
    refine ⟨.assigned filler assignment rest, ⟨?_, ?_, cuts.clear⟩, ?_⟩
    · rw [split, following]
      rfl
    · rwa [← following]
    · rw [← later]
      rfl

theorem assignments_of_layout (source : List Char) {layout : Layout} (clear : layout.Clear) :
    assignments source layout.text = .ok layout.contributions := by
  induction layout with
  | ending filler =>
    rw [assignments, show find? (Layout.ending filler).text = none from find?_eq_none_iff.2 clear]
    rfl
  | assigned filler assignment rest ih =>
    obtain ⟨header, found, _, library, body⟩ :=
      find?_append clear.1 (assignment.header?_text rest.text)
    obtain ⟨array, readArray, descriptors, left⟩ := body ▸ assignment.reads_array rest.text
    have named : ¬assignment.library.isEmpty = true := by simpa using assignment.named
    rw [assignments]
    simp only [Layout.text, found, readArray, left, ih clear.2, library, descriptors, if_neg named]
    rfl

theorem parse_eq_ok_iff {source : String} {contributions : List Contribution} :
    parse source = .ok contributions ↔
      assignments source.toList source.toList = .ok contributions ∧ contributions ≠ [] := by
  unfold parse
  split
  · rename_i nothing
    simp only [nothing, reduceCtorEq, Except.ok.injEq, false_iff, not_and, Decidable.not_not]
    exact Eq.symm
  · rename_i found some_found
    constructor
    · intro read
      exact ⟨read, fun nothing => some_found (nothing ▸ read)⟩
    · exact And.left

theorem parse_eq_ok_iff_layout {source : String} {contributions : List Contribution} :
    parse source = .ok contributions ↔
      ∃ layout : Layout, layout.Cuts source.toList ∧ layout.assignments ≠ [] ∧
        contributions = layout.contributions := by
  rw [parse_eq_ok_iff]
  constructor
  · rintro ⟨read, some_read⟩
    obtain ⟨layout, cuts, rfl⟩ := layout_of_assignments read
    exact ⟨layout, cuts, fun nothing => some_read (by simp [Layout.contributions, nothing]), rfl⟩
  · rintro ⟨layout, cuts, some_assigned, rfl⟩
    have read := assignments_of_layout source.toList cuts.clear
    rw [cuts.text] at read
    exact ⟨read, by simpa [Layout.contributions] using some_assigned⟩

/-- A script is accepted exactly when it can be cut into assignments and fillers in which no header
starts. The cut is unique, and the script gives what its assignments say, in their order. -/
theorem parse_accepts_layouts (source : String) :
    (∀ contributions, parse source = .ok contributions ↔
      ∃ layout : Layout, layout.Cuts source.toList ∧ layout.assignments ≠ [] ∧
        contributions = layout.assignments.map Assignment.contribution) ∧
    (∀ left right : Layout, left.Cuts source.toList → right.Cuts source.toList → left = right) ∧
    ((∃ error, parse source = .error error) ↔
      ¬∃ layout : Layout, layout.Cuts source.toList ∧ layout.assignments ≠ []) := by
  refine ⟨fun contributions => parse_eq_ok_iff_layout, ?_, ?_⟩
  · intro left right leftCuts rightCuts
    exact Layout.eq_of_text_eq leftCuts.clear rightCuts.clear
      (leftCuts.text.trans rightCuts.text.symm)
  · constructor
    · rintro ⟨error, refused⟩ ⟨layout, cuts, some_assigned⟩
      have accepted := parse_eq_ok_iff_layout.2 ⟨layout, cuts, some_assigned, rfl⟩
      rw [refused] at accepted
      cases accepted
    · intro no_layout
      cases result : parse source with
      | error error => exact ⟨error, rfl⟩
      | ok contributions =>
        obtain ⟨layout, cuts, some_assigned, _⟩ := parse_eq_ok_iff_layout.1 result
        exact absurd ⟨layout, cuts, some_assigned⟩ no_layout

-- The filler holds a header that is not completed, the literal one that is not looked for.
theorem parse_accepts_layouts_nested :
    let source := "implementors['x implementors['lib'] = [\"implementors['no'] = []\",];"
    parse source = .ok [⟨"lib", ["implementors['no'] = []"]⟩] ∧
      ∃ layout : Layout, layout.Cuts source.toList ∧
        ∀ other : Layout, other.Cuts source.toList → other = layout := by
  intro source
  let assignment : Assignment :=
    { header := _
      library := "lib".toList
      array := _
      descriptors := ["implementors['no'] = []"]
      headed := .mk (.inl rfl) (by decide) Text.blank_nil Text.blank_nil
        Text.blank_space Text.blank_space
      named := by decide
      listed := .comma Text.blank_nil
        (.one ⟨_, Json.Quoted.spells_flatMap_escaped _, rfl⟩ Text.blank_nil) Text.blank_nil }
  let layout : Layout := .assigned "implementors['x ".toList assignment (.ending [';'])
  have cuts : layout.Cuts source.toList :=
    ⟨by decide, show Passive _ _ by decide, show Passive _ _ by decide⟩
  obtain ⟨accepted, unique, _⟩ := parse_accepts_layouts source
  exact ⟨(accepted _).2 ⟨layout, cuts, by decide, by decide⟩, layout, cuts,
    fun other otherCuts => unique other layout otherCuts cuts⟩

end TraitCatalog.Script
