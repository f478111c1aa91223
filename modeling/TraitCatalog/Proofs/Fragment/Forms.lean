import TraitCatalog.Proofs.Catalog.Settled
import TraitCatalog.Proofs.Document.Text
import TraitCatalog.Proofs.Script.Layout

/-!
# The two forms of a fragment

The same contributions can be written as a script, which keeps their order, or as a document, which
keeps them by library. Each form is read back as it was written, and once the ready signal was given
the catalog is the same.
-/

namespace TraitCatalog

/-! ### Scripts -/

namespace Script

def opening : String := "(function() \x7bvar implementors = \x7b\x7d;\n"

/-- The last lines of a generated script: they hand the assignments to the page, or leave them for
it. -/
def handover : List String := [
  "\n",
  "            if (window.register_implementors) \x7b\n",
  "                window.register_implementors(implementors);\n",
  "            \x7d else \x7b\n",
  "                window.pending_implementors = implementors;\n",
  "            \x7d\n",
  "        \n",
  "\x7d)()\n"]

def line (contribution : Contribution) : List Char :=
  "implementors['".toList ++ contribution.library.toList ++ "'] = [".toList ++
    contribution.descriptors.flatMap (fun descriptor => Json.Quoted.write descriptor ++ [',']) ++
    "];\n".toList

def render (contributions : List Contribution) : String :=
  String.ofList (opening.toList ++ contributions.flatMap line ++ handover.flatMap String.toList)

/-- A library that can be written between single quotes. -/
structure Quotable (library : Library) : Prop where
  named : library ≠ ""
  unquoted : singleQuote ∉ library.toList

theorem isArray_written (descriptors : List Descriptor) :
    IsArray descriptors
      (descriptors.flatMap (fun descriptor => Json.Quoted.write descriptor ++ [',']) ++ [']']) := by
  induction descriptors with
  | nil => exact .empty Text.blank_nil
  | cons descriptor rest ih =>
    have literal : IsLiteral descriptor (Json.Quoted.write descriptor) :=
      ⟨_, Json.Quoted.spells_flatMap_escaped descriptor.toList, rfl⟩
    have array := IsArray.cons literal Text.blank_nil ih
    simpa using array

def written (contribution : Contribution) (quotable : Quotable contribution.library) : Assignment where
  header := _
  library := contribution.library.toList
  array := _
  descriptors := contribution.descriptors
  headed := .mk (Or.inl rfl) quotable.unquoted Text.blank_nil Text.blank_nil
    Text.blank_space Text.blank_space
  named := by simpa using quotable.named
  listed := isArray_written contribution.descriptors

theorem text_written (contribution : Contribution) (quotable : Quotable contribution.library) :
    line contribution = (written contribution quotable).text ++ ";\n".toList := by
  have front : "implementors['".toList = "implementors[".toList ++ [singleQuote] := by decide
  have middle : "'] = [".toList = [singleQuote, ']', ' ', '=', ' ', '['] := by decide
  have back : "];\n".toList = ']' :: ";\n".toList := by decide
  unfold line written Assignment.text
  rw [front, middle, back]
  simp only [List.append_assoc, List.cons_append, List.nil_append]

theorem contribution_written (contribution : Contribution)
    (quotable : Quotable contribution.library) :
    (written contribution quotable).contribution = contribution := by
  unfold written Assignment.contribution
  rw [String.ofList_toList]

/-! ### Texts in which no header starts -/

/-- Every ending of the text differs from the word of a header, whatever follows. -/
def inert : List Char → Bool
  | [] => true
  | c :: rest =>
    !(c :: rest).isPrefixOf "implementors[".toList && !"implementors[".toList.isPrefixOf (c :: rest) &&
      inert rest

theorem passive_of_inert {filler : List Char} (quiet : inert filler = true) (following : List Char) :
    Passive filler following := by
  induction filler with
  | nil => exact passive_nil following
  | cons c rest ih =>
    simp only [inert, Bool.and_eq_true, Bool.not_eq_true'] at quiet
    obtain ⟨⟨shorter, longer⟩, later⟩ := quiet
    refine passive_cons_iff.2 ⟨?_, ih later⟩
    cases found : header? (c :: (rest ++ following)) with
    | none => rfl
    | some header =>
      obtain ⟨_, ⟨⟩, same⟩ := header?_eq_some_iff.1 found
      rw [← List.cons_append, List.append_assoc] at same
      rcases List.append_eq_append_iff.1 same with ⟨between, split, _⟩ | ⟨between, split, _⟩
      · rw [split, List.isPrefixOf_iff_prefix.2 (List.prefix_append _ _)] at shorter
        cases shorter
      · rw [split, List.isPrefixOf_iff_prefix.2 (List.prefix_append _ _)] at longer
        cases longer

theorem Passive.append {first second following : List Char}
    (firstPassive : Passive first (second ++ following)) (secondPassive : Passive second following) :
    Passive (first ++ second) following := by
  induction first with
  | nil => exact secondPassive
  | cons c first ih =>
    obtain ⟨missing, later⟩ := passive_cons_iff.1 firstPassive
    refine passive_cons_iff.2 ⟨?_, ih later⟩
    show header? (c :: (first ++ second ++ following)) = none
    rwa [List.append_assoc]

theorem passive_flatMap {lines : List String} (quiet : ∀ line ∈ lines, inert line.toList = true)
    (following : List Char) : Passive (lines.flatMap String.toList) following := by
  induction lines with
  | nil => exact passive_nil following
  | cons first rest ih =>
    obtain ⟨here, later⟩ := List.forall_mem_cons.1 quiet
    exact (passive_of_inert here _).append (ih later)

/-! ### Reading a generated script -/

theorem exists_layout {contributions : List Contribution}
    (quotable : ∀ contribution ∈ contributions, Quotable contribution.library) {filler : List Char}
    (quiet : inert filler = true) :
    ∃ layout : Layout,
      layout.Cuts (filler ++ (contributions.flatMap line ++ handover.flatMap String.toList)) ∧
      layout.contributions = contributions := by
  induction contributions generalizing filler with
  | nil =>
    have ending : Passive (handover.flatMap String.toList) [] := passive_flatMap (by decide) []
    exact ⟨.ending (filler ++ handover.flatMap String.toList),
      ⟨rfl, (passive_of_inert quiet _).append ending⟩, rfl⟩
  | cons contribution rest ih =>
    obtain ⟨first, others⟩ := List.forall_mem_cons.1 quotable
    obtain ⟨layout, cuts, later⟩ := ih others (show inert ";\n".toList = true by decide)
    refine ⟨.assigned filler (written contribution first) layout,
      ⟨?_, passive_of_inert quiet _, cuts.clear⟩, ?_⟩
    · rw [Layout.text, cuts.text, List.flatMap_cons, text_written contribution first]
      simp only [List.append_assoc]
    · rw [Layout.contributions, Layout.assignments, List.map_cons, contribution_written]
      exact congrArg (contribution :: ·) later

/-- A generated script gives the contributions that it was made of. -/
theorem parse_render {contributions : List Contribution} (some_entry : contributions ≠ [])
    (quotable : ∀ contribution ∈ contributions, Quotable contribution.library) :
    parse (render contributions) = .ok contributions := by
  obtain ⟨layout, cuts, same⟩ := exists_layout quotable (show inert opening.toList = true by decide)
  refine parse_eq_ok_iff_layout.2 ⟨layout, ?_, ?_, same.symm⟩
  · rwa [render, String.toList_ofList, List.append_assoc]
  · intro nothing
    rw [Layout.contributions, nothing] at same
    exact some_entry same.symm

end Script

/-! ### Documents -/

namespace Document

def ofContributions (contributions : List Contribution) : Document :=
  ⟨currentVersion, none,
    .ofPairs (contributions.map fun contribution => (contribution.library, contribution.descriptors))⟩

theorem contributions_ofContributions_perm {contributions : List Contribution}
    (distinct : (contributions.map Contribution.library).Nodup) :
    (ofContributions contributions).contributions.Perm contributions := by
  let pairs := contributions.map fun contribution => (contribution.library, contribution.descriptors)
  let back : Library × List Descriptor → Contribution := fun entry => ⟨entry.1, entry.2⟩
  have keys : (pairs ++ []).map Prod.fst = contributions.map Contribution.library := by
    simp [pairs, Function.comp_def]
  have kept : (Entries.insertAll pairs []).Perm (pairs ++ []) :=
    Entries.insertAll_perm (keys ▸ distinct)
  have all : (pairs ++ []).map back = contributions := by
    simp [pairs, back, Function.comp_def]
  have mapped := kept.map back
  rwa [all] at mapped

theorem admitted_ofContributions {contributions : List Contribution}
    (distinct : (contributions.map Contribution.library).Nodup)
    (named : ∀ contribution ∈ contributions, contribution.library ≠ "") :
    (ofContributions contributions).Admitted := by
  refine ⟨rfl, fun _ declared => (by cases declared), fun library member => ?_⟩
  obtain ⟨entry, present, rfl⟩ := List.mem_map.1 member
  have listed : Contribution.mk entry.1 entry.2 ∈ (ofContributions contributions).contributions :=
    List.mem_map_of_mem present
  exact named _ ((contributions_ofContributions_perm distinct).mem_iff.1 listed)

end Document

namespace Fragment

open Document (ofContributions)

/-- The script and the document of the same contributions are read back, the one in their order, the
other in the order of the libraries. Neither names an interface, and either of them leads a catalog to
the same place. -/
theorem forms_carry_same_data {contributions : List Contribution} (some_entry : contributions ≠ [])
    (distinct : (contributions.map Contribution.library).Nodup)
    (named : ∀ contribution ∈ contributions, contribution.library ≠ "")
    (unquoted : ∀ contribution ∈ contributions, Script.singleQuote ∉ contribution.library.toList) :
    (∀ origin, Format.script.parse (Script.render contributions) origin =
      .ok ⟨none, contributions⟩) ∧
    ∃ sorted : List Contribution,
      (∀ origin, Format.json.parse (ofContributions contributions).render origin =
        .ok ⟨none, sorted⟩) ∧
      sorted.Perm contributions ∧ (sorted.map Contribution.library).Pairwise (· < ·) ∧
      ∀ (catalog : Catalog) (interface : Interface),
        (catalog.submitAll interface contributions).activateAll.2 =
          (catalog.submitAll interface sorted).activateAll.2 := by
  have same := Document.contributions_ofContributions_perm distinct
  have admitted := Document.admitted_ofContributions distinct named
  refine ⟨fun origin => ?_, _, Content.parse_of_admitted admitted (Document.parse_render _), same,
    Document.contributions_pairwise _, ?_⟩
  · have read := Script.parse_render some_entry fun contribution member =>
      ⟨named contribution member, unquoted contribution member⟩
    simp only [Format.parse, read]
  · intro catalog interface
    have some_sorted : (ofContributions contributions).contributions ≠ [] := by
      intro nothing
      rw [nothing] at same
      exact some_entry same.symm.eq_nil
    exact catalog.activateAll_submitAll_eq interface some_entry some_sorted
      (Contribution.gather_eq_of_perm same.symm distinct)

-- A descriptor that looks like a whole assignment, a library without descriptors, and libraries that a
-- document puts in the other order.
theorem forms_carry_same_data_nested :
    let contributions : List Contribution :=
      [⟨"serde", ["implementors['no'] = [\"a\"];\n", "<b>\u0000\\</b>"]⟩, ⟨"alloc", []⟩]
    Format.script.parse (Script.render contributions) "script" = .ok ⟨none, contributions⟩ ∧
    ∃ sorted : List Contribution,
      Format.json.parse (ofContributions contributions).render "document" = .ok ⟨none, sorted⟩ ∧
      sorted.Perm contributions ∧ (sorted.map Contribution.library).Pairwise (· < ·) ∧
      ∀ (catalog : Catalog) (interface : Interface),
        (catalog.submitAll interface contributions).activateAll.2 =
          (catalog.submitAll interface sorted).activateAll.2 := by
  intro contributions
  have some_entry : contributions ≠ [] := by decide
  obtain ⟨script, sorted, document, same, ordered, merged⟩ :=
    forms_carry_same_data some_entry (by decide) (by decide) (by decide)
  exact ⟨script "script", sorted, document "document", same, ordered, merged⟩

end Fragment
end TraitCatalog
