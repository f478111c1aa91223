import TraitCatalog.Interface.Location
import TraitCatalog.Proofs.Interface.Language
import TraitCatalog.Proofs.Path.Spelling
import TraitCatalog.Proofs.Text.ByteOrder

/-!
# Where interfaces are documented

The place of a file names its interface by directories and by an item (`Leads`). The names are joined,
and the joined text is read as an interface (`ofComponents_eq_ok_iff`). A longer place never tells the
interface of a shorter one at its end (`ofComponents_append_ne`).
-/

namespace TraitCatalog

/-! ### Cutting at the last separator -/

namespace Text

variable {α : Type} [BEq α] [LawfulBEq α] {separator : α}

theorem splitLast?_append (before : List α) {behind : List α} (absent : separator ∉ behind) :
    splitLast? separator (before ++ separator :: behind) = some (before, behind) := by
  have passed : ∀ c ∈ behind.reverse, (c != separator) = true := by
    intro c member
    have differ : c ≠ separator := fun same => absent (same ▸ List.mem_reverse.1 member)
    simpa using differ
  have reversed : (before ++ separator :: behind).reverse =
      behind.reverse ++ separator :: before.reverse := by simp
  unfold splitLast?
  rw [reversed, List.dropWhile_append_of_pos passed, List.takeWhile_append_of_pos passed]
  simp

theorem eq_of_splitLast?_eq_some {text before behind : List α}
    (found : splitLast? separator text = some (before, behind)) :
    text = before ++ separator :: behind ∧ separator ∉ behind := by
  have whole := List.takeWhile_append_dropWhile (l := text.reverse) (p := (· != separator))
  have stopped := List.head?_dropWhile_not (· != separator) text.reverse
  have passed := List.all_takeWhile (l := text.reverse) (p := (· != separator))
  unfold splitLast? at found
  split at found
  · cases found
  · rename_i c rest left
    cases found
    rw [left] at whole stopped
    obtain rfl : c = separator := by simpa using stopped
    constructor
    · have reversed := congrArg List.reverse whole
      simpa using reversed.symm
    · intro member
      have differ := List.all_eq_true.1 passed c (List.mem_reverse.1 member)
      simp at differ

theorem exists_splitLast?_of_mem {text : List α} (present : separator ∈ text) :
    ∃ parts, splitLast? separator text = some parts := by
  unfold splitLast?
  split
  · rename_i left
    have whole := List.takeWhile_append_dropWhile (l := text.reverse) (p := (· != separator))
    have passed := List.all_takeWhile (l := text.reverse) (p := (· != separator))
    rw [left, List.append_nil] at whole
    rw [whole] at passed
    have differ := List.all_eq_true.1 passed separator (List.mem_reverse.2 present)
    simp at differ
  · exact ⟨_, rfl⟩

end Text

theorem ok_of_mapError {ε ε' α : Type} {result : Except ε α} {f : ε → ε'} {value : α}
    (mapped : result.mapError f = .ok value) : result = .ok value := by
  cases result with
  | error error => cases mapped
  | ok found => exact congrArg Except.ok (Except.ok.inj mapped)

theorem exists_of_mapError {ε ε' α : Type} {result : Except ε α} {f : ε → ε'} {error : ε'}
    (mapped : result.mapError f = .error error) : ∃ cause, error = f cause := by
  cases result with
  | error cause => exact ⟨cause, (Except.error.inj mapped).symm⟩
  | ok found => cases mapped

namespace Interface

/-! ### File names -/

theorem item?_eq_some_iff {fileName : String} {item : List Char} :
    item? fileName = some item ↔
      ∃ extension, '.' ∉ extension ∧
        fileName.toList = "trait.".toList ++ item ++ '.' :: extension := by
  unfold item?
  dsimp only
  constructor
  · intro found
    cases split : Text.splitLast? '.' fileName.toList with
    | none =>
      -- A name that starts with `trait.` has a dot.
      rw [split] at found
      have whole : fileName.toList = "trait.".toList ++ item := Text.dropWord?_eq_some_iff.1 found
      have dotted : '.' ∈ fileName.toList := by simp [whole]
      obtain ⟨parts, some_parts⟩ := Text.exists_splitLast?_of_mem dotted
      cases split.symm.trans some_parts
    | some parts =>
      obtain ⟨stem, extension⟩ := parts
      obtain ⟨whole, absent⟩ := Text.eq_of_splitLast?_eq_some split
      rw [split] at found
      have stem_eq : stem = "trait.".toList ++ item := Text.dropWord?_eq_some_iff.1 found
      exact ⟨extension, absent, stem_eq ▸ whole⟩
  · rintro ⟨extension, absent, whole⟩
    rw [whole, Text.splitLast?_append _ absent]
    exact Text.dropWord?_eq_some_iff.2 rfl

def pageName (item extension : String) : String :=
  "trait." ++ item ++ "." ++ extension

theorem item?_pageName (item : String) {extension : String} (absent : '.' ∉ extension.toList) :
    item? (pageName item extension) = some item.toList :=
  item?_eq_some_iff.2 ⟨extension.toList, absent, by simp [pageName]⟩

/-! ### Names along a path -/

theorem names_eq_ok_iff {path : Path} {components : List Path.Component} {texts : List String} :
    names path components = .ok texts ↔
      Path.moves components = texts.map fun text => .normal (Bytes.ofText text) := by
  induction components generalizing texts with
  | nil => cases texts <;> simp [names, Path.moves]
  | cons component rest ih =>
    cases component with
    | current => exact ih
    | root => cases texts <;> simp [names, Path.moves]
    | parent => cases texts <;> simp [names, Path.moves]
    | normal name =>
      have kept : Path.moves (.normal name :: rest) = .normal name :: Path.moves rest := rfl
      rw [kept, names]
      cases read : name.text? with
      | none =>
        cases texts with
        | nil => simp
        | cons text texts =>
          have other : name ≠ Bytes.ofText text := by
            intro same
            cases read.symm.trans (Bytes.text?_eq_some_iff.2 same)
          simp [other]
      | some text =>
        obtain rfl := Bytes.text?_eq_some_iff.1 read
        cases texts with
        | nil => cases names path rest <;> simp [Except.map]
        | cons other texts =>
          rw [List.map_cons, List.cons.injEq, ← ih, Path.Component.normal.injEq, Bytes.ofText_inj]
          cases names path rest <;> simp [Except.map]

/-- The components lead through the directories to a page of the item. -/
def Leads (components : List Path.Component) (directories : List String) (item : String) : Prop :=
  ∃ extension : String, '.' ∉ extension.toList ∧
    Path.moves components =
      (directories ++ [pageName item extension]).map fun name => .normal (Bytes.ofText name)

/-- The names are joined before anything is said about them. -/
theorem ofComponents_of_leads {components : List Path.Component} {directories : List String}
    {item : String} (leads : Leads components directories item) (named : item ≠ "") (path : Path) :
    ofComponents path components =
      (parse ("::".intercalate (directories ++ [item]))).mapError .malformed := by
  obtain ⟨extension, absent, along⟩ := leads
  unfold ofComponents
  simp only [names_eq_ok_iff.2 along, List.getLast?_concat, List.dropLast_concat,
    item?_pageName item absent]
  cases chars : item.toList with
  | nil => exact absurd (String.toList_eq_nil_iff.1 chars) named
  | cons c rest => simp only [← chars, String.ofList_toList]

theorem exists_leads_of_ofComponents {path : Path} {components : List Path.Component}
    {interface : Interface} (located : ofComponents path components = .ok interface) :
    ∃ directories item, Leads components directories item ∧ item ≠ "" := by
  unfold ofComponents at located
  split at located
  · cases located
  · rename_i segments along
    split at located
    · cases located
    · rename_i fileName last
      obtain ⟨directories, rfl⟩ := List.getLast?_eq_some_iff.1 last
      split at located
      · cases located
      · cases located
      · rename_i item some_item found
        obtain ⟨extension, absent, whole⟩ := item?_eq_some_iff.1 found
        have page : fileName = pageName (String.ofList item) (String.ofList extension) := by
          apply String.toList_injective
          simp [whole, pageName]
        refine ⟨directories, String.ofList item, ⟨String.ofList extension, ?_, ?_⟩, ?_⟩
        · simpa using absent
        · rw [← page]
          exact names_eq_ok_iff.1 along
        · intro empty
          exact some_item (String.ofList_eq_empty_iff.1 empty)

/-- Whether a place tells an interface does not depend on the path that errors would show. -/
theorem ofComponents_eq_ok_iff {path : Path} {components : List Path.Component}
    {interface : Interface} :
    ofComponents path components = .ok interface ↔
      ∃ directories item, Leads components directories item ∧ item ≠ "" ∧
        parse ("::".intercalate (directories ++ [item])) = .ok interface := by
  constructor
  · intro located
    obtain ⟨directories, item, leads, named⟩ := exists_leads_of_ofComponents located
    rw [ofComponents_of_leads leads named] at located
    exact ⟨directories, item, leads, named, ok_of_mapError located⟩
  · rintro ⟨directories, item, leads, named, read⟩
    rw [ofComponents_of_leads leads named, read]
    rfl

theorem isPath_of_ofPath {path : Path} {interface : Interface}
    (located : ofPath path = .ok interface) : IsPath interface.text.toList := by
  obtain ⟨_, _, _, _, read⟩ := ofComponents_eq_ok_iff.1 located
  exact isPath_of_parse read

/-! ### Joined names -/

theorem toList_joined (names : List String) :
    ("::".intercalate names).toList = [':', ':'].intercalate (names.map String.toList) :=
  String.toList_intercalate

section Joined

variable {names : List String} (some_name : names ≠ [])

include some_name

theorem parse_joined (proper : ∀ name ∈ names, IsSegment name.toList) :
    parse ("::".intercalate names) = .ok ⟨"::".intercalate names⟩ := by
  refine parse_of_isPath ?_
  rw [toList_joined]
  exact isPath_intercalate (by simpa using some_name) (List.forall_mem_map.2 proper)

theorem splitSegments_joined (proper : ∀ name ∈ names, IsSegment name.toList) :
    splitSegments ("::".intercalate names).toList = names.map String.toList := by
  rw [toList_joined]
  exact splitSegments_intercalate (by simpa using some_name) (List.forall_mem_map.2 proper)

/-- The segments of an interface are the names that were joined if these are segments, and only then. -/
theorem splitSegments_eq_names_iff {interface : Interface}
    (read : parse ("::".intercalate names) = .ok interface) :
    splitSegments interface.text.toList = names.map String.toList ↔
      ∀ name ∈ names, IsSegment name.toList := by
  constructor
  · intro same name member
    have all := (isPath_of_parse read).splitSegments
    rw [same, List.all_map, List.all_eq_true] at all
    exact isSegment_iff.1 (all name member)
  · intro proper
    obtain rfl := Except.ok.inj (read.symm.trans (parse_joined some_name proper))
    exact splitSegments_joined some_name proper

end Joined

theorem joined_injective {left right : List String} (some_left : left ≠ []) (some_right : right ≠ [])
    (leftProper : ∀ name ∈ left, IsSegment name.toList)
    (rightProper : ∀ name ∈ right, IsSegment name.toList)
    (same : "::".intercalate left = "::".intercalate right) : left = right := by
  have segments := splitSegments_joined some_left leftProper
  rw [same, splitSegments_joined some_right rightProper] at segments
  exact ((List.map_inj_right fun _ _ same => String.toList_injective same).1 segments).symm

theorem named_of_isSegment {text : String} (proper : IsSegment text.toList) : text ≠ "" := by
  rintro rfl
  exact proper.1 rfl

/-! ### Longer places -/

theorem filter_visible_of_parse {text : String} {interface : Interface}
    (read : parse text = .ok interface) :
    text.toList.filter (fun c => !Text.isBlank c) = interface.text.toList := by
  have visible := (isPath_of_parse read).not_blank
  obtain ⟨_, rfl⟩ := parse_eq_ok_iff.1 read
  obtain ⟨before, behind, blankBefore, blankBehind, same⟩ := (Text.trimsTo_trim text).between
  have nothing : ∀ {blanks : List Char}, Text.Blank blanks →
      blanks.filter (fun c => !Text.isBlank c) = [] := by
    intro blanks blank
    refine List.filter_eq_nil_iff.2 fun c member => ?_
    simp [blank c member]
  have kept : (Text.trim text).toList.filter (fun c => !Text.isBlank c) = (Text.trim text).toList := by
    refine List.filter_eq_self.2 fun c member => ?_
    simpa using visible c member
  show text.toList.filter _ = (Text.trim text).toList
  rw [same, List.filter_append, List.filter_append, nothing blankBefore, nothing blankBehind, kept,
    List.nil_append, List.append_nil]

theorem intercalate_append {separator : List Char} (front : List (List Char)) {back : List (List Char)}
    (some_back : back ≠ []) :
    separator.intercalate (front ++ back) =
      front.flatMap (· ++ separator) ++ separator.intercalate back := by
  induction front with
  | nil => rfl
  | cons name front ih =>
    obtain ⟨next, others, same⟩ : ∃ next others, front ++ back = next :: others :=
      List.exists_cons_of_ne_nil (by simp [some_back])
    rw [same] at ih
    simp [same, ih]

/-- More names in front make another interface, if they make one. -/
theorem parse_joined_ne {front back : List String} (some_front : front ≠ []) (some_back : back ≠ [])
    {interface : Interface} (read : parse ("::".intercalate back) = .ok interface) :
    parse ("::".intercalate (front ++ back)) ≠ .ok interface := by
  intro longer
  have short := filter_visible_of_parse read
  have long := filter_visible_of_parse longer
  rw [toList_joined] at short long
  rw [List.map_append, intercalate_append _ (by simpa using some_back), List.filter_append, short] at long
  have nothing := List.filter_eq_nil_iff.1 (List.append_left_eq_self.1 long)
  obtain ⟨name, others, rfl⟩ := List.exists_cons_of_ne_nil some_front
  exact nothing ':' (by simp) (by decide)

theorem Leads.of_append {front components : List Path.Component} {directories short : List String}
    {item shortItem : String} (whole : Leads (front ++ components) directories item)
    (leads : Leads components short shortItem) :
    ∃ before : List String, directories = before ++ short ∧ item = shortItem ∧
      Path.moves front = before.map fun name => .normal (Bytes.ofText name) := by
  obtain ⟨extension, absent, along⟩ := whole
  obtain ⟨shortExtension, shortAbsent, shortAlong⟩ := leads
  rw [Path.moves, List.filter_append] at along
  obtain ⟨before, behind, split, first, last⟩ := List.map_eq_append_iff.1 along.symm
  have names : behind = short ++ [pageName shortItem shortExtension] :=
    (List.map_inj_right fun _ _ same =>
      Bytes.ofText_inj.1 (Path.Component.normal.inj same)).1 (last.trans shortAlong)
  rw [names, ← List.append_assoc] at split
  obtain ⟨same, page⟩ := List.append_inj' split rfl
  have items := item?_pageName item absent
  rw [List.cons.inj page |>.1, item?_pageName shortItem shortAbsent] at items
  exact ⟨before, same, String.toList_injective (Option.some.inj items).symm, first.symm⟩

/-- A place behind further directories tells another interface, or none. -/
theorem ofComponents_append_ne {path relative : Path} {front components : List Path.Component}
    {interface : Interface} (located : ofComponents relative components = .ok interface)
    (passes : Path.moves front ≠ []) :
    ofComponents path (front ++ components) ≠ .ok interface := by
  intro longer
  obtain ⟨short, item, leads, _, read⟩ := ofComponents_eq_ok_iff.1 located
  obtain ⟨directories, _, whole, _, longRead⟩ := ofComponents_eq_ok_iff.1 longer
  obtain ⟨before, rfl, rfl, first⟩ := whole.of_append leads
  have some_before : before ≠ [] := by
    rintro rfl
    exact passes first
  rw [List.append_assoc] at longRead
  exact parse_joined_ne some_before (by simp) read longRead

end Interface
end TraitCatalog
