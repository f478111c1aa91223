import TraitCatalog.Proofs.Interface.Pattern
import TraitCatalog.Proofs.Table

/-!
# What the keywords of a schema ask for

A value is without violations if it has what each keyword asks for. There is one lemma for each keyword,
and the parts of the bundled schema are read off from them.
-/

namespace TraitCatalog.Schema

/-! ### Keywords -/

@[simp]
theorem violationsOf_nil (value : Json) : violationsOf [] value = [] :=
  rfl

@[simp]
theorem violationsOf_cons_eq_nil_iff {keyword : Keyword} {others : List Keyword} {value : Json} :
    violationsOf (keyword :: others) value = [] ↔
      violationsOfKeyword keyword value = [] ∧ violationsOf others value = [] :=
  List.append_eq_nil_iff

@[simp]
theorem type_eq_nil_iff {shape : Shape} {value : Json} :
    violationsOfKeyword (.type shape) value = [] ↔ shape.holds value = true := by
  show (if shape.holds value then [] else [Violation.notOfShape value shape]) = [] ↔ _
  simp

@[simp]
theorem const_eq_nil_iff {text : String} {value : Json} :
    violationsOfKeyword (.const text) value = [] ↔ value = .string text := by
  show (if value.text? = some text then [] else [Violation.notConst text]) = [] ↔ _
  cases value <;> simp [Json.text?]

@[simp]
theorem minLength_eq_nil_iff {least : Nat} {text : String} :
    violationsOfKeyword (.minLength least) (.string text) = [] ↔ least ≤ text.length := by
  show (if text.length < least then [Violation.tooShort text least] else []) = [] ↔ _
  simp

@[simp]
theorem pattern_eq_nil_iff {expression : Text.Expression} {text : String} :
    violationsOfKeyword (.pattern expression) (.string text) = [] ↔
      text.toList ∈ expression.language := by
  rw [← Text.Expression.matchesAll_iff]
  show (if expression.matchesAll text.toList then [] else [Violation.unmatched text expression]) =
    [] ↔ _
  simp

@[simp]
theorem items_eq_nil_iff {schema : List Keyword} {items : List Json} :
    violationsOfKeyword (.items schema) (.array items) = [] ↔
      ∀ item ∈ items, violationsOf schema item = [] :=
  List.flatMap_eq_nil_iff

theorem knownViolations_eq (known : List (String × List Keyword)) (name : String) (value : Json) :
    knownViolations known name value =
      (Entries.get? name known).map fun schema => violationsOf schema value := by
  induction known with
  | nil => rfl
  | cons entry others ih =>
    show (if entry.1 = name then some (violationsOf entry.2 value)
      else knownViolations others name value) = _
    rw [Entries.get?, ih]
    split <;> rfl

theorem unexpectedViolations_eq_nil_iff {known : List String} {members : List (String × Json)} :
    unexpectedViolations known members = [] ↔ ∀ member ∈ members, member.1 ∈ known := by
  have none_unknown : (members.map Prod.fst).filter (!known.contains ·) = [] ↔
      ∀ member ∈ members, member.1 ∈ known := by
    simp [List.filter_eq_nil_iff]
  rw [← none_unknown]
  unfold unexpectedViolations
  split <;> rename_i unknown
  · exact iff_of_true rfl unknown
  · exact iff_of_false (List.cons_ne_nil _ _) unknown

/-- An object with known members only: each is looked up among the schemas and has what is asked there. -/
@[simp]
theorem properties_none_eq_nil_iff {known : List (String × List Keyword)}
    {members : List (String × Json)} :
    violationsOfKeyword (.properties known none) (.object members) = [] ↔
      ∀ member ∈ members, ∃ schema, Entries.get? member.1 known = some schema ∧
        violationsOf schema member.2 = [] := by
  show (members.flatMap fun member => (knownViolations known member.1 member.2).getD []) ++
    unexpectedViolations (known.map Prod.fst) members = [] ↔ _
  rw [List.append_eq_nil_iff, List.flatMap_eq_nil_iff, unexpectedViolations_eq_nil_iff, ← forall₂_and]
  refine forall₂_congr fun member _ => ?_
  rw [knownViolations_eq, ← Entries.isSome_get?_iff]
  cases Entries.get? member.1 known <;> simp

@[simp]
theorem properties_some_eq_nil_iff {others : List Keyword} {members : List (String × Json)} :
    violationsOfKeyword (.properties [] (some others)) (.object members) = [] ↔
      ∀ member ∈ members, violationsOf others member.2 = [] :=
  List.flatMap_eq_nil_iff

@[simp]
theorem propertyNames_eq_nil_iff {schema : List Keyword} {members : List (String × Json)} :
    violationsOfKeyword (.propertyNames schema) (.object members) = [] ↔
      ∀ member ∈ members, violationsOf schema (.string member.1) = [] :=
  List.flatMap_eq_nil_iff

@[simp]
theorem required_eq_nil_iff {names : List String} {members : List (String × Json)} :
    violationsOfKeyword (.required names) (.object members) = [] ↔
      ∀ name ∈ names, ∃ value, Entries.get? name members = some value := by
  show (names.filter fun name => (Entries.get? name members).isNone).map Violation.missing = [] ↔ _
  simp [List.filter_eq_nil_iff, Option.ne_none_iff_exists']

/-! ### The parts of the bundled schema -/

theorem versionSchema_eq_nil_iff {value : Json} :
    violationsOf versionSchema value = [] ↔ value = .string Document.currentVersion := by
  simp [versionSchema]

theorem interfaceSchema_eq_nil_iff {value : Json} :
    violationsOf interfaceSchema value = [] ↔
      ∃ text, Interface.IsPath text.toList ∧ value = .string text := by
  cases value with
  | string text =>
    simp [interfaceSchema, Shape.holds, language_pathPattern, Interface.mem_pathLanguage_iff]
  | _ => simp [interfaceSchema, Shape.holds]

theorem holds_string_iff {value : Json} :
    Shape.string.holds value = true ↔ ∃ text, value = .string text := by
  cases value <;> simp [Shape.holds]

theorem exists_texts {items : List Json} (strings : ∀ item ∈ items, ∃ text, item = .string text) :
    ∃ texts : List String, items = texts.map .string := by
  induction items with
  | nil => exact ⟨[], rfl⟩
  | cons item rest ih =>
    obtain ⟨⟨text, rfl⟩, others⟩ := List.forall_mem_cons.1 strings
    obtain ⟨texts, rfl⟩ := ih others
    exact ⟨text :: texts, rfl⟩

theorem descriptorsSchema_eq_nil_iff {value : Json} :
    violationsOf descriptorsSchema value = [] ↔ ∃ texts, value = .ofTexts texts := by
  cases value with
  | array items =>
    have rule : violationsOf descriptorsSchema (.array items) = [] ↔
        ∀ item ∈ items, ∃ text, item = .string text := by
      have array : Shape.array.holds (.array items) = true := rfl
      simp [descriptorsSchema, array, holds_string_iff]
    rw [rule]
    constructor
    · intro strings
      obtain ⟨texts, rfl⟩ := exists_texts strings
      exact ⟨texts, rfl⟩
    · rintro ⟨texts, same⟩
      obtain rfl := Json.array.inj same
      exact List.forall_mem_map.2 fun text _ => ⟨text, rfl⟩
  | _ => simp [descriptorsSchema, Shape.holds, Json.ofTexts]

theorem exists_entries {members : List (String × Json)}
    (arrays : ∀ member ∈ members, ∃ texts, member.2 = .ofTexts texts) :
    ∃ entries : List (Library × List Descriptor),
      members = entries.map fun entry => (entry.1, Json.ofTexts entry.2) := by
  induction members with
  | nil => exact ⟨[], rfl⟩
  | cons member rest ih =>
    obtain ⟨name, value⟩ := member
    obtain ⟨⟨texts, rfl⟩, others⟩ := List.forall_mem_cons.1 arrays
    obtain ⟨entries, rfl⟩ := ih others
    exact ⟨(name, texts) :: entries, rfl⟩

theorem implementorsSchema_object_eq_nil_iff {members : List (String × Json)} :
    violationsOf implementorsSchema (.object members) = [] ↔
      (∀ member ∈ members, ∃ texts, member.2 = .ofTexts texts) ∧ ∀ member ∈ members, member.1 ≠ "" := by
  have named : ∀ text : String, 1 ≤ text.length ↔ text ≠ "" := by
    intro text
    rw [Nat.one_le_iff_ne_zero, ne_eq, String.length_eq_zero_iff]
  simp only [implementorsSchema, violationsOf_cons_eq_nil_iff, properties_some_eq_nil_iff,
    descriptorsSchema_eq_nil_iff, propertyNames_eq_nil_iff, minLength_eq_nil_iff, named,
    type_eq_nil_iff, Shape.holds, violationsOf_nil, and_true]

theorem implementorsSchema_eq_nil_iff {value : Json} :
    violationsOf implementorsSchema value = [] ↔
      ∃ entries : List (Library × List Descriptor), (∀ entry ∈ entries, entry.1 ≠ "") ∧
        value = .object (entries.map fun entry => (entry.1, .ofTexts entry.2)) := by
  cases value with
  | object members =>
    rw [implementorsSchema_object_eq_nil_iff]
    constructor
    · rintro ⟨arrays, named⟩
      obtain ⟨entries, rfl⟩ := exists_entries arrays
      exact ⟨entries, fun entry present => named _ (List.mem_map_of_mem present), rfl⟩
    · rintro ⟨entries, named, same⟩
      obtain rfl := Json.object.inj same
      exact ⟨List.forall_mem_map.2 fun entry _ => ⟨entry.2, rfl⟩, List.forall_mem_map.2 named⟩
  | _ => simp [implementorsSchema, Shape.holds]

end TraitCatalog.Schema
