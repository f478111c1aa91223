import TraitCatalog.Proofs.Interface.Location

/-!
# How the place of a file mirrors its interface

Names are joined first and checked only then, so each name along a path is a segment of the interface if
all of them are segments, and only then: a directory `core::fmt` counts as two, and a blank at either end
is lost. How the path along the names is spelled does not matter.
-/

namespace TraitCatalog.Interface

/-! ### Segments -/

/-- An interface that a place tells is spelled by the names of the place, joined and trimmed. Its segments
are these names if each of them is a segment, and only then; among such places, no two with other
directories or another item tell the same interface. -/
theorem ofPath_mirrors_iff_segments {path : Path} {interface : Interface}
    (located : ofPath path = .ok interface) :
    ∃ directories item, Leads path.components directories item ∧
      Text.TrimsTo ("::".intercalate (directories ++ [item])).toList interface.text.toList ∧
      (splitSegments interface.text.toList = (directories ++ [item]).map String.toList ↔
        ∀ name ∈ directories ++ [item], IsSegment name.toList) ∧
      ∀ (other : Path) (otherDirectories : List String) (otherItem : String),
        Leads other.components otherDirectories otherItem →
        (∀ name ∈ directories ++ [item], IsSegment name.toList) →
        (∀ name ∈ otherDirectories ++ [otherItem], IsSegment name.toList) →
        (ofPath other = .ok interface ↔ otherDirectories = directories ∧ otherItem = item) := by
  obtain ⟨directories, item, leads, named, read⟩ := ofComponents_eq_ok_iff.1 located
  refine ⟨directories, item, leads, ?_, splitSegments_eq_names_iff (by simp) read, ?_⟩
  · obtain ⟨_, rfl⟩ := parse_eq_ok_iff.1 read
    exact Text.trimsTo_trim _
  · intro other otherDirectories otherItem otherLeads proper otherProper
    have otherNamed : otherItem ≠ "" := named_of_isSegment (otherProper otherItem (by simp))
    obtain rfl := Except.ok.inj (read.symm.trans (parse_joined (by simp) proper))
    rw [ofPath, ofComponents_of_leads otherLeads otherNamed, parse_joined (by simp) otherProper]
    constructor
    · intro same
      have texts := congrArg Interface.text (Except.ok.inj same)
      have names := joined_injective (by simp) (by simp) otherProper proper texts
      simpa using List.append_inj' names rfl
    · rintro ⟨rfl, rfl⟩
      rfl

theorem ofPath_mirrors_iff_segments_underscored :
    ofPath (.ofText "core/fmt/trait.Display_2.js") = .ok ⟨"core::fmt::Display_2"⟩ ∧
    ∃ directories item, Leads (Path.ofText "core/fmt/trait.Display_2.js").components directories item ∧
      (splitSegments "core::fmt::Display_2".toList = (directories ++ [item]).map String.toList ↔
        ∀ name ∈ directories ++ [item], IsSegment name.toList) := by
  have located : ofPath (.ofText "core/fmt/trait.Display_2.js") = .ok ⟨"core::fmt::Display_2"⟩ := by rfl
  obtain ⟨directories, item, leads, _, mirrors, _⟩ := ofPath_mirrors_iff_segments located
  exact ⟨located, directories, item, leads, mirrors⟩

/-- A directory with colons in its name shares its pages with the directories that it looks like, and a
blank before the first name is lost. -/
theorem ofPath_merges_directories :
    Leads (Path.ofText "core::fmt/trait.Display.js").components ["core::fmt"] "Display" ∧
    Leads (Path.ofText "core/fmt/trait.Display.js").components ["core", "fmt"] "Display" ∧
    Leads (Path.ofText " core/trait.Clone.js").components [" core"] "Clone" ∧
    ofPath (.ofText "core::fmt/trait.Display.js") = .ok ⟨"core::fmt::Display"⟩ ∧
    ofPath (.ofText "core/fmt/trait.Display.js") = .ok ⟨"core::fmt::Display"⟩ ∧
    ofPath (.ofText " core/trait.Clone.js") = .ok ⟨"core::Clone"⟩ ∧
    splitSegments "core::fmt::Display".toList ≠ ["core::fmt", "Display"].map String.toList ∧
    splitSegments "core::Clone".toList ≠ [" core", "Clone"].map String.toList := by
  exact ⟨⟨"js", by decide, by rfl⟩, ⟨"js", by decide, by rfl⟩, ⟨"js", by decide, by rfl⟩, by rfl, by rfl,
    by rfl, by decide, by decide⟩

/-! ### Spellings -/

theorem properName_ofText {text : String} (named : text ≠ "") (unslashed : '/' ∉ text.toList)
    (notDot : text ≠ ".") (notDots : text ≠ "..") : Path.ProperName (Bytes.ofText text) where
  nonempty empty := named (Bytes.ofText_inj.1 empty)
  unslashed member := unslashed ((Bytes.ofNat_mem_ofText_iff (by decide)).1 member)
  notDot same := notDot (Bytes.ofText_inj.1 same)
  notDots same := notDots (Bytes.ofText_inj.1 same)

theorem properName_of_isSegment {text : String} (proper : IsSegment text.toList) :
    Path.ProperName (Bytes.ofText text) := by
  have absent : ∀ c, isSegmentChar c = false → c ∉ text.toList := by
    intro c other member
    cases other.symm.trans (proper.chars c member)
  refine properName_ofText (named_of_isSegment proper) (absent '/' (by decide)) ?_ ?_
  · rintro rfl
    exact absent '.' (by decide) (by decide)
  · rintro rfl
    exact absent '.' (by decide) (by decide)

theorem properName_pageName {item extension : String} (proper : IsSegment item.toList)
    (unslashed : '/' ∉ extension.toList) : Path.ProperName (Bytes.ofText (pageName item extension)) := by
  have first : (pageName item extension).toList.head? = some 't' := by simp [pageName]
  have other : ∀ text : String, text.toList.head? ≠ some 't' → pageName item extension ≠ text := by
    rintro text differ rfl
    exact differ first
  have inItem : '/' ∉ item.toList := by
    intro member
    cases proper.chars '/' member
  have absent : '/' ∉ (pageName item extension).toList := by simp [pageName, inItem, unslashed]
  exact properName_ofText (other "" (by decide)) absent (other "." (by decide)) (other ".." (by decide))

theorem properName_names {directories : List String} {item extension : String}
    (proper : ∀ name ∈ directories ++ [item], IsSegment name.toList)
    (unslashed : '/' ∉ extension.toList) :
    ∀ name ∈ (directories ++ [pageName item extension]).map Bytes.ofText, Path.ProperName name := by
  refine List.forall_mem_map.2 fun name member => ?_
  rcases List.mem_append.1 member with inside | last
  · exact properName_of_isSegment (proper name (List.mem_append_left _ inside))
  · obtain rfl := List.mem_singleton.1 last
    exact properName_pageName (proper item (by simp)) unslashed

theorem ofText_intercalate (names : List String) :
    Bytes.ofText ("/".intercalate names) = [Path.slash].intercalate (names.map Bytes.ofText) := by
  unfold Bytes.ofText
  rw [String.toList_intercalate]
  induction names with
  | nil => rfl
  | cons name names ih =>
    cases names with
    | nil => simp
    | cons next names =>
      have slash : "/".toList.flatMap String.utf8EncodeChar = [Path.slash] := by decide
      simp_all

theorem names_refuses (path : Path) {components : List Path.Component}
    (present : .root ∈ components ∨ .parent ∈ components) :
    names path components = .error (.notRelative path) ∨
      names path components = .error (.notText path) := by
  induction components with
  | nil => simp at present
  | cons component rest ih =>
    cases component with
    | root => exact Or.inl rfl
    | parent => exact Or.inl rfl
    | current => exact ih (by simpa using present)
    | normal name =>
      rw [names]
      cases name.text? with
      | none => exact Or.inr rfl
      | some text =>
        rcases ih (by simpa using present) with refused | refused
        · exact Or.inl (by simp [refused, Except.map])
        · exact Or.inr (by simp [refused, Except.map])

theorem root_mem_of_isAbsolute {path : Path} (absolute : path.isAbsolute = true) :
    .root ∈ path.components := by
  obtain ⟨bytes⟩ := path
  cases bytes with
  | nil => cases absolute
  | cons byte rest =>
    obtain rfl : byte = Path.slash := by simpa [Path.isAbsolute] using absolute
    rw [Path.components_absolute]
    exact List.mem_cons_self

/-- Every way to write the place of an interface tells this interface, and a path that starts at the root
or goes up tells none. -/
theorem ofPath_reads_spellings :
    (∀ (directories : List String) (item extension : String),
      (∀ name ∈ directories ++ [item], IsSegment name.toList) →
      '.' ∉ extension.toList → '/' ∉ extension.toList →
      let names := directories ++ [pageName item extension]
      let interface : Interface := ⟨"::".intercalate (directories ++ [item])⟩
      ofPath (.ofText ("/".intercalate names)) = .ok interface ∧
      ∀ bytes, Path.Spelling (names.map Bytes.ofText) bytes → ofPath ⟨bytes⟩ = .ok interface) ∧
    (∀ path : Path, path.isAbsolute = true ∨ Path.GoesUp path.bytes →
      ofPath path = .error (.notRelative path) ∨ ofPath path = .error (.notText path)) := by
  constructor
  · intro directories item extension proper undotted unslashed names interface
    have spelled : ∀ bytes, Path.Spelling (names.map Bytes.ofText) bytes →
        ofPath ⟨bytes⟩ = .ok interface := by
      intro bytes spelling
      have along := Path.moves_of_spelling spelling (properName_names proper unslashed)
      rw [List.map_map] at along
      have leads : Leads (Path.components ⟨bytes⟩) directories item := ⟨extension, undotted, along⟩
      rw [ofPath, ofComponents_of_leads leads (named_of_isSegment (proper item (by simp))),
        parse_joined (by simp) proper]
      rfl
    refine ⟨spelled _ ?_, spelled⟩
    rw [ofText_intercalate]
    exact Path.spelling_intercalate (by simp [names])
  · intro path refused
    have present : .root ∈ path.components ∨ .parent ∈ path.components :=
      refused.imp root_mem_of_isAbsolute Path.GoesUp.parent_mem
    unfold ofPath ofComponents
    rcases names_refuses path present with failed | failed
    · exact Or.inl (by rw [failed])
    · exact Or.inr (by rw [failed])

-- A dot in front, one between slashes, slashes behind the file name, and an item called like the prefix.
theorem ofPath_reads_spellings_redundant :
    ofPath (.ofText "./core/.//f_1/trait.trait.json//") = .ok ⟨"core::f_1::trait"⟩ ∧
    (ofPath (.ofText "core/../trait.Display.js") =
        .error (.notRelative (.ofText "core/../trait.Display.js")) ∨
      ofPath (.ofText "core/../trait.Display.js") =
        .error (.notText (.ofText "core/../trait.Display.js"))) := by
  obtain ⟨reads, refuses⟩ := ofPath_reads_spellings
  have proper : ∀ name ∈ ["core", "f_1"] ++ ["trait"], IsSegment name.toList := by
    intro name member
    have checked : (["core", "f_1"] ++ ["trait"]).all (fun name => isSegment name.toList) = true := by
      decide
    exact isSegment_iff.1 (List.all_eq_true.1 checked name member)
  have along := Path.Along.next (Bytes.ofText "core") (.dotted (.more .one))
    (.next (Bytes.ofText "f_1") .one (.last (Bytes.ofText (pageName "trait" "json"))))
  have spelled := Path.Spelling.mk (.dotted .one) along (.slashes (.more .one))
  have accepted := (reads ["core", "f_1"] "trait" "json" proper (by decide) (by decide)).2 _ spelled
  have up : Path.GoesUp (Bytes.ofText "core/../trait.Display.js") :=
    ⟨Bytes.ofText "core/", Bytes.ofText "/trait.Display.js", by decide,
      Or.inr ⟨Bytes.ofText "core", by decide⟩, Or.inr ⟨Bytes.ofText "trait.Display.js", by decide⟩⟩
  exact ⟨accepted, refuses _ (Or.inr up)⟩

end TraitCatalog.Interface
