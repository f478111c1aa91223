import TraitCatalog.Fragment
import TraitCatalog.Proofs.Json.Canonical
import TraitCatalog.Proofs.Schema
import TraitCatalog.Proofs.Text.ByteOrder

/-!
# The schema admits the documents that can be used

A value without violations is the encoding of an admitted document: one of the current version, with a
path for its interface if it declares one, and with no empty library name
(`Schema.violations_eq_nil_iff`). Such a document decodes to itself, so a text that passes the schema
is never refused afterwards.
-/

namespace TraitCatalog

/-! ### Documents as values -/

namespace Document

theorem member?_toJson (document : Document) (name : String) :
    document.toJson.member? name =
      if "implementors" = name then some document.implementorsJson
      else if "interface" = name then document.declared.map .string
      else if "schema_version" = name then some (.string document.version)
      else none := by
  unfold toJson
  cases document.declared with
  | none =>
    show (if "implementors" = name then _ else if "schema_version" = name then _ else none) = _
    by_cases undeclared : "interface" = name
    · subst undeclared
      rfl
    · rw [if_neg undeclared]
  | some text => rfl

theorem canonical_implementorsJson (document : Document) : document.implementorsJson.Canonical :=
  Json.canonical_ofLists document.implementors.sorted

theorem canonical_toJson (document : Document) : document.toJson.Canonical := by
  refine .object ?_ ?_
  · cases document.declared with
    | none =>
      have names : ["implementors", "schema_version"].Pairwise (· < ·) := by decide
      exact List.pairwise_map.1 names
    | some text =>
      have names : ["implementors", "interface", "schema_version"].Pairwise (· < ·) := by decide
      exact List.pairwise_map.1 names
  · intro member present
    simp only [List.mem_cons, List.mem_append, List.mem_map, List.not_mem_nil, or_false] at present
    rcases present with (rfl | ⟨text, _, rfl⟩) | rfl
    · exact document.canonical_implementorsJson
    · exact .string text
    · exact .string document.version

theorem texts?_ofTexts (texts : List String) : texts? (.ofTexts texts) = some texts := by
  unfold texts? Json.ofTexts
  induction texts with
  | nil => rfl
  | cons text rest ih => simp [Json.text?, ih]

theorem implementors?_ofTable (table : Table Library (List Descriptor)) :
    implementors? (.ofTable (table.mapValues .ofTexts)) = some table := by
  have folded : ∀ (entries : List (Library × List Descriptor)) (start : Table Library (List Descriptor)),
      (entries.map fun entry => (entry.1, Json.ofTexts entry.2)).foldlM
          (fun table entry => (texts? entry.2).map (table.insert entry.1)) start =
        some (entries.foldl (fun table entry => table.insert entry.1 entry.2) start) := by
    intro entries
    induction entries with
    | nil => exact fun _ => rfl
    | cons entry rest ih => simp [texts?_ofTexts, ih]
  calc implementors? (.ofTable (table.mapValues .ofTexts))
      = some (table.entries.foldl (fun table entry => table.insert entry.1 entry.2) .empty) :=
        folded table.entries .empty
    _ = some table := by rw [Table.foldl_insert, Table.ofPairs_entries]

/-- Decoding inverts encoding. -/
theorem ofJson?_toJson (document : Document) : ofJson? document.toJson = some document := by
  have declared : declared? (document.declared.map .string) = some document.declared := by
    cases document.declared <;> rfl
  have parts : ofJson? document.toJson = (do
      ofParts? (← document.toJson.member? "schema_version") (document.toJson.member? "interface")
        (← document.toJson.member? "implementors")) := rfl
  rw [parts]
  simp [ofParts?, member?_toJson, Json.text?, declared, implementorsJson, implementors?_ofTable]

/-- What the schema asks of a document beyond its shape. -/
structure Admitted (document : Document) : Prop where
  version : document.version = currentVersion
  path : ∀ text, document.declared = some text → Interface.IsPath text.toList
  named : ∀ library ∈ document.implementors.keys, library ≠ ""

theorem admitted_of_matchesPath {text : String} {implementors : Table Library (List Descriptor)}
    (matched : Schema.matchesPath text.toList = true)
    (named : ∀ library ∈ implementors.keys, library ≠ "") :
    (⟨currentVersion, some text, implementors⟩ : Document).Admitted := by
  refine ⟨rfl, fun declared same => ?_, named⟩
  obtain rfl := Option.some.inj same
  exact Schema.matchesPath_iff.1 matched

theorem Admitted.interface {document : Document} (admitted : document.Admitted) :
    document.interface = .ok (document.declared.map Interface.mk) := by
  unfold Document.interface
  cases declared : document.declared with
  | none => rfl
  | some text =>
    dsimp only
    rw [Interface.parse_of_isPath (admitted.path text declared)]
    rfl

theorem mem_contributions_iff {document : Document} {library : Library}
    {descriptors : List Descriptor} :
    ⟨library, descriptors⟩ ∈ document.contributions ↔
      document.implementors.get? library = some descriptors := by
  rw [← Table.mem_entries_iff]
  simp [contributions]

theorem contributions_pairwise (document : Document) :
    (document.contributions.map Contribution.library).Pairwise (· < ·) := by
  unfold contributions
  rw [List.map_map]
  exact List.pairwise_map.2 document.implementors.sorted

end Document

/-! ### The rules -/

namespace Schema

open Document

theorem implementorsSchema_eq_nil_iff_table {value : Json} (canonical : value.Canonical) :
    violationsOf implementorsSchema value = [] ↔
      ∃ table : Table Library (List Descriptor), (∀ library ∈ table.keys, library ≠ "") ∧
        value = .ofTable (table.mapValues .ofTexts) := by
  rw [implementorsSchema_eq_nil_iff]
  constructor
  · rintro ⟨entries, named, rfl⟩
    cases canonical with
    | object sorted _ =>
      have ordered : Entries.Sorted entries := by
        simpa [Entries.Sorted, List.pairwise_map] using sorted
      exact ⟨⟨entries, ordered⟩, List.forall_mem_map.2 named, rfl⟩
  · rintro ⟨table, named, rfl⟩
    exact ⟨table.entries, fun entry present => named _ (List.mem_map_of_mem present), rfl⟩

theorem violations_object_eq_nil_iff {members : List (String × Json)} :
    violations (.object members) = [] ↔
      (∀ member ∈ members, ∃ schema,
        Entries.get? member.1 [("implementors", implementorsSchema), ("interface", interfaceSchema),
          ("schema_version", versionSchema)] = some schema ∧ violationsOf schema member.2 = []) ∧
      (∃ value, Entries.get? "schema_version" members = some value) ∧
      ∃ value, Entries.get? "implementors" members = some value := by
  simp [violations, bundled, Shape.holds]

theorem violationsOf_eq_nil_of_get? {members : List (String × Json)} {name : String} {value : Json}
    (valid : violations (.object members) = []) (found : Entries.get? name members = some value) :
    ∃ schema, Entries.get? name [("implementors", implementorsSchema), ("interface", interfaceSchema),
      ("schema_version", versionSchema)] = some schema ∧ violationsOf schema value = [] :=
  (violations_object_eq_nil_iff.1 valid).1 (name, value) (Entries.mem_of_get?_eq_some found)

theorem exists_declared {found : Option Json}
    (rule : ∀ value, found = some value → violationsOf interfaceSchema value = []) :
    ∃ declared : Option String, (∀ text, declared = some text → Interface.IsPath text.toList) ∧
      found = declared.map .string := by
  cases found with
  | none => exact ⟨none, by simp, rfl⟩
  | some value =>
    obtain ⟨text, path, rfl⟩ := interfaceSchema_eq_nil_iff.1 (rule value rfl)
    exact ⟨some text, by simpa using path, rfl⟩

/-- The look-ups of an object without violations are those of an admitted document. -/
theorem exists_admitted {members : List (String × Json)}
    (each : ∀ member ∈ members, member.2.Canonical) (valid : violations (.object members) = []) :
    ∃ document : Document, document.Admitted ∧
      ∀ name, Entries.get? name members = document.toJson.member? name := by
  obtain ⟨_, ⟨version, foundVersion⟩, ⟨implementors, foundImplementors⟩⟩ :=
    violations_object_eq_nil_iff.1 valid
  obtain ⟨_, ⟨⟩, current⟩ := violationsOf_eq_nil_of_get? valid foundVersion
  obtain rfl := versionSchema_eq_nil_iff.1 current
  obtain ⟨_, ⟨⟩, libraries⟩ := violationsOf_eq_nil_of_get? valid foundImplementors
  have member := Entries.mem_of_get?_eq_some foundImplementors
  obtain ⟨table, named, rfl⟩ := (implementorsSchema_eq_nil_iff_table (each _ member)).1 libraries
  have interfaceRule : ∀ value, Entries.get? "interface" members = some value →
      violationsOf interfaceSchema value = [] := by
    intro value found
    obtain ⟨_, ⟨⟩, rule⟩ := violationsOf_eq_nil_of_get? valid found
    exact rule
  obtain ⟨declared, path, foundInterface⟩ := exists_declared interfaceRule
  refine ⟨⟨currentVersion, declared, table⟩, ⟨rfl, path, named⟩, fun name => ?_⟩
  rw [member?_toJson]
  split <;> rename_i first
  · subst first
    exact foundImplementors
  · split <;> rename_i second
    · subst second
      exact foundInterface
    · split <;> rename_i third
      · subst third
        exact foundVersion
      · -- A member of another name would have no schema.
        cases found : Entries.get? name members with
        | none => rfl
        | some value =>
          obtain ⟨_, known, _⟩ := violationsOf_eq_nil_of_get? valid found
          simp [Entries.get?, first, second, third] at known

theorem violations_toJson {document : Document} (admitted : document.Admitted) :
    violations document.toJson = [] := by
  have implementors := (implementorsSchema_eq_nil_iff_table document.canonical_implementorsJson).2
    ⟨document.implementors, admitted.named, rfl⟩
  have version := versionSchema_eq_nil_iff.2 (congrArg Json.string admitted.version)
  refine violations_object_eq_nil_iff.2 ⟨?_, ⟨_, document.member?_toJson _⟩, _, document.member?_toJson _⟩
  intro member present
  simp only [List.mem_cons, List.mem_append, List.mem_map, Option.mem_toList, List.not_mem_nil,
    or_false] at present
  rcases present with (rfl | ⟨text, declared, rfl⟩) | rfl
  · exact ⟨_, rfl, implementors⟩
  · exact ⟨_, rfl, interfaceSchema_eq_nil_iff.2 ⟨text, admitted.path text declared, rfl⟩⟩
  · exact ⟨_, rfl, version⟩

/-- A canonical value without violations encodes an admitted document. -/
theorem violations_eq_nil_iff {value : Json} (canonical : value.Canonical) :
    violations value = [] ↔ ∃ document : Document, document.Admitted ∧ value = document.toJson := by
  refine ⟨fun valid => ?_, fun ⟨document, admitted, same⟩ => same ▸ violations_toJson admitted⟩
  cases canonical with
  | @object members sorted each =>
    obtain ⟨document, admitted, found⟩ := exists_admitted each valid
    refine ⟨document, admitted, ?_⟩
    -- Both objects are sorted, so it is enough that they answer every name alike.
    cases document.canonical_toJson with
    | object sortedDocument _ =>
      exact congrArg Json.object (Entries.eq_of_get?_eq sorted sortedDocument found)
  | _ => simp [violations, bundled, Shape.holds] at valid

end Schema

/-! ### Reading texts -/

namespace Fragment

open Document Schema

theorem Content.parse_of_admitted {document : Document} (admitted : document.Admitted) {text : String}
    (read : Json.parse text = .ok document.toJson) (origin : String) :
    Format.json.parse text origin =
      .ok ⟨document.declared.map Interface.mk, document.contributions⟩ := by
  simp only [Format.parse, Content.ofJsonText, read, violations_toJson admitted, ofJson?_toJson, Content.ofDocument,
    admitted.interface]

/-- Whether a text is a document is settled by reading it and by the schema alone. -/
theorem Content.parse_cases (text origin : String) :
    (∃ fault, Json.parse text = .error fault ∧
      Format.json.parse text origin = .error (.badJson origin fault)) ∨
    (∃ value, Json.parse text = .ok value ∧ violations value ≠ [] ∧
      Format.json.parse text origin = .error (.invalid origin (violations value))) ∨
    (∃ document : Document, document.Admitted ∧ Json.parse text = .ok document.toJson ∧
      Format.json.parse text origin =
        .ok ⟨document.declared.map Interface.mk, document.contributions⟩) := by
  cases read : Json.parse text with
  | error fault =>
    refine Or.inl ⟨fault, rfl, ?_⟩
    simp only [Format.parse, Content.ofJsonText, read]
  | ok value =>
    right
    by_cases valid : violations value = []
    · obtain ⟨document, admitted, rfl⟩ := (violations_eq_nil_iff (Json.canonical_of_parse read)).1 valid
      exact Or.inr ⟨document, admitted, rfl, Content.parse_of_admitted admitted read origin⟩
    · refine Or.inl ⟨value, rfl, valid, ?_⟩
      simp only [Format.parse, Content.ofJsonText, read]

/-- The schema accepts the encodings of admitted documents and nothing else. An accepted value decodes
to the document that it encodes, whose interface and contributions are as written, so a text is refused
as no JSON or by the schema, and never for what comes after. -/
theorem admission_settles_use :
    (∀ value : Json, value.Canonical →
      (violations value = [] ↔
        ∃ document : Document, document.Admitted ∧ value = document.toJson)) ∧
    (∀ value : Json, value.Canonical → violations value = [] →
      ∃ document : Document, ofJson? value = some document ∧ document.toJson = value ∧
        document.interface = .ok (document.declared.map Interface.mk) ∧
        (∀ library descriptors, ⟨library, descriptors⟩ ∈ document.contributions ↔
          document.implementors.get? library = some descriptors) ∧
        (document.contributions.map fun contribution =>
          Bytes.ofText contribution.library).Pairwise (· < ·)) ∧
    (∀ text origin : String,
      (∀ content, Format.json.parse text origin = .ok content ↔
        ∃ document : Document, document.Admitted ∧ Json.parse text = .ok document.toJson ∧
          content = ⟨document.declared.map Interface.mk, document.contributions⟩) ∧
      (∀ error, Format.json.parse text origin = .error error →
        (∃ fault, Json.parse text = .error fault ∧ error = .badJson origin fault) ∨
        (∃ value, Json.parse text = .ok value ∧ violations value ≠ [] ∧
          error = .invalid origin (violations value)))) := by
  refine ⟨fun value canonical => violations_eq_nil_iff canonical, ?_, fun text origin => ⟨?_, ?_⟩⟩
  · intro value canonical valid
    obtain ⟨document, admitted, rfl⟩ := (violations_eq_nil_iff canonical).1 valid
    refine ⟨document, document.ofJson?_toJson, rfl, admitted.interface,
      fun _ _ => mem_contributions_iff, ?_⟩
    have ordered := List.pairwise_map.1 document.contributions_pairwise
    exact List.pairwise_map.2 (ordered.imp Bytes.ofText_lt_iff.2)
  · intro content
    constructor
    · intro parsed
      rcases Content.parse_cases text origin with
        ⟨_, _, failed⟩ | ⟨_, _, _, failed⟩ | ⟨document, admitted, read, found⟩
      · cases parsed.symm.trans failed
      · cases parsed.symm.trans failed
      · exact ⟨document, admitted, read, Except.ok.inj (parsed.symm.trans found)⟩
    · rintro ⟨document, admitted, read, rfl⟩
      exact Content.parse_of_admitted admitted read origin
  · intro error parsed
    rcases Content.parse_cases text origin with
      ⟨fault, read, failed⟩ | ⟨value, read, invalid, failed⟩ | ⟨_, _, _, found⟩
    · exact Or.inl ⟨fault, read, Except.error.inj (parsed.symm.trans failed)⟩
    · exact Or.inr ⟨value, read, invalid, Except.error.inj (parsed.symm.trans failed)⟩
    · cases parsed.symm.trans found

-- A document with two libraries passes. With null for its interface it would decode, but it is refused.
theorem admission_settles_use_null_interface :
    let document : Document := ⟨currentVersion, some "core::fmt::Debug",
      .ofPairs [("serde", []), ("alloc", ["impl Debug for Box", "\"quoted\""])]⟩
    let undeclared : Json := .object [("implementors", document.implementorsJson),
      ("interface", .null), ("schema_version", .string currentVersion)]
    (violations document.toJson = [] ∧ ∃ found : Document,
      ofJson? document.toJson = some found ∧
      (found.contributions.map fun contribution =>
        Bytes.ofText contribution.library).Pairwise (· < ·)) ∧
    (ofJson? undeclared).isSome ∧
    ¬∃ found : Document, found.Admitted ∧ undeclared = found.toJson := by
  intro document undeclared
  have valid : violations document.toJson = [] := by rfl
  have canonical : undeclared.Canonical := by
    have names : ["implementors", "interface", "schema_version"].Pairwise (· < ·) := by decide
    refine .object (List.pairwise_map.1 names) fun member present => ?_
    simp only [List.mem_cons, List.not_mem_nil, or_false] at present
    rcases present with rfl | rfl | rfl
    · exact document.canonical_implementorsJson
    · exact .null
    · exact .string _
  refine ⟨⟨valid, ?_⟩, by rfl, fun encoded => ?_⟩
  · obtain ⟨found, decoded, _, _, _, ordered⟩ :=
      admission_settles_use.2.1 _ document.canonical_toJson valid
    exact ⟨found, decoded, ordered⟩
  · have accepted := (admission_settles_use.1 undeclared canonical).2 encoded
    cases accepted

end Fragment
end TraitCatalog
