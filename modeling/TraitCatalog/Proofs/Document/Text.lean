import TraitCatalog.Document.Reader
import TraitCatalog.Proofs.Document.Admission
import TraitCatalog.Proofs.Json.Written

/-!
# Documents as text

A document is read from its text in one of two ways: as a value, which the schema admits, or directly,
member by member. The text of a document is read back in either way. Where no object of a text repeats
a name, the direct reader follows the reader of values, so it accepts what the schema admits and finds
the same document (`read_of_verbatim`).
-/

namespace TraitCatalog.Document

open Json (Reads Reader)

/-! ### What is written -/

def writtenMembers (document : Document) : List (String × Json) :=
  ("schema_version", .string document.version) ::
    (document.declared.toList.map fun text => ("interface", .string text)) ++
    [("implementors", document.implementorsJson)]

theorem mem_writtenMembers {document : Document} {member : String × Json}
    (present : member ∈ document.writtenMembers) :
    (∃ text, member.2 = .string text) ∨ member.2 = document.implementorsJson := by
  simp only [writtenMembers, List.mem_cons, List.mem_append, List.mem_map, List.not_mem_nil,
    or_false] at present
  rcases present with (rfl | ⟨text, _, rfl⟩) | rfl
  · exact Or.inl ⟨document.version, rfl⟩
  · exact Or.inl ⟨text, rfl⟩
  · exact Or.inr rfl

theorem writtenMembers_perm (document : Document) :
    ∃ members, document.toJson = .object members ∧ document.writtenMembers.Perm members := by
  have swap : ∀ (first last : String × Json) (middle : List (String × Json)),
      (first :: middle ++ [last]).Perm (last :: middle ++ [first]) := by
    intro first last middle
    exact (List.perm_append_singleton last (first :: middle)).trans
      ((List.perm_append_singleton first middle).symm.cons last)
  exact ⟨_, rfl, swap ..⟩

theorem distinct_writtenMembers (document : Document) :
    (Json.object document.writtenMembers).Distinct := by
  obtain ⟨members, same, perm⟩ := document.writtenMembers_perm
  exact Json.distinct_of_perm (same ▸ document.canonical_toJson) perm

theorem settled_writtenMembers (document : Document) :
    (Json.object document.writtenMembers).settled = document.toJson := by
  obtain ⟨members, same, perm⟩ := document.writtenMembers_perm
  rw [same]
  exact Json.settled_of_perm (same ▸ document.canonical_toJson) perm

theorem plain_writtenMembers (document : Document) :
    ∀ member ∈ document.writtenMembers, Json.Plain 126 member.2 := by
  intro member present
  rcases mem_writtenMembers present with ⟨text, same⟩ | same
  · exact same ▸ .string 126 text
  · exact same ▸ Json.plain_ofLists document.implementors.entries 124

theorem verbatim_render (document : Document) :
    (Json.verbatim Json.depthLimit).run document.render = .ok (.object document.writtenMembers) := by
  have read := (Json.takes_compact (.object document.plain_writtenMembers)).run Json.gap_nil
  rwa [List.append_nil] at read

/-- The text of a document holds its value, although the members stand in another order. -/
theorem parse_render (document : Document) : Json.parse document.render = .ok document.toJson :=
  Json.parse_eq_ok_iff.2 ⟨_, document.verbatim_render, document.settled_writtenMembers⟩

/-! ### Values of a certain shape -/

theorem reads_textOf {text rest : List Char} {s : String} (begins : Json.Begins text rest (.string s)) :
    Reads (Json.textOf text) s rest := by
  obtain ⟨more, first, readBody⟩ := begins
  rw [Json.textOf, Json.reads_afterGap, first]
  exact Json.reads_map_behind.2 ⟨s.toList, readBody, String.ofList_toList⟩

theorem reads_optionalTextOf {text rest : List Char} {s : String}
    (begins : Json.Begins text rest (.string s)) : Reads (Json.optionalTextOf text) (some s) rest := by
  obtain ⟨more, first, readBody⟩ := begins
  rw [Json.optionalTextOf, Json.reads_afterGap, first]
  exact Json.reads_map.2 ⟨s, reads_textOf ⟨more, Json.skipGap_cons rfl more, readBody⟩, rfl⟩

theorem reads_arrayOf {text rest : List Char} {texts : List String}
    (begins : Json.Begins text rest (.ofTexts texts)) :
    Reads (Json.arrayOf Json.textOf text) texts rest := by
  obtain ⟨room, more, first, readItems⟩ := begins
  rw [Json.arrayOf, Json.reads_afterGap, first]
  refine Json.reads_behind.2 ?_
  obtain ⟨found, same, read⟩ : ∃ found, (texts.map Json.string).map id = found.map Json.string ∧
      Reads (Reader.items Json.textOf more) found rest := by
    refine Reader.items_transfer id Json.string readItems ?_
    intro value member text left readValue
    obtain ⟨s, _, rfl⟩ := List.mem_map.1 member
    exact ⟨s, rfl, reads_textOf (Json.begins_of_reads readValue)⟩
  rw [List.map_id, List.map_inj_right fun _ _ => Json.string.inj] at same
  rwa [same]

def entryJson (entry : Library × List Descriptor) : String × Json :=
  (entry.1, .ofTexts entry.2)

theorem entryJson_inj {left right : Library × List Descriptor}
    (same : entryJson left = entryJson right) : left = right := by
  obtain ⟨names, values⟩ := Prod.mk.inj same
  have texts := (List.map_inj_right fun _ _ => Json.string.inj).1 (Json.array.inj values)
  exact Prod.ext names texts

theorem reads_tableOf {text rest : List Char} {entries : List (Library × List Descriptor)}
    (begins : Json.Begins text rest (.object (entries.map entryJson))) :
    Reads (implementorsReader text) (.ofPairs entries) rest := by
  obtain ⟨room, more, first, readMembers⟩ := begins
  rw [implementorsReader, Json.tableOf, Json.reads_afterGap, first]
  refine Json.reads_behind.2 ?_
  -- What was read so far are the members of some entries, and these are in the table.
  have follows := Reader.members_transfer
    (fun table name => .ok ((Json.arrayOf Json.textOf).map fun found => table.insert name found))
    (fun gathered table => ∃ done, gathered = done.map entryJson ∧ Table.ofPairs done = table)
    readMembers ?_ ⟨[], rfl, rfl⟩
  · obtain ⟨_, ⟨done, same, rfl⟩, read⟩ := follows
    rwa [(List.map_inj_right fun _ _ => entryJson_inj).1 same]
  · rintro _ _ _ name _ ⟨done, rfl, rfl⟩ accepted reaches text left readNext
    obtain rfl := Except.ok.inj accepted
    obtain ⟨value, readValue, rfl⟩ := Json.reads_map.1 readNext
    have member := (Json.prefix_of_reaches reaches).mem (List.mem_append_right _ List.mem_cons_self)
    obtain ⟨entry, _, found⟩ := List.mem_map.1 member
    obtain ⟨rfl, rfl⟩ := Prod.mk.inj found
    refine ⟨_, _, rfl, ⟨done ++ [entry], ?_, Table.ofPairs_append_singleton done entry⟩, ?_⟩
    · rw [List.map_append, List.map_singleton]
      rfl
    · exact Json.reads_map.2 ⟨entry.2, reads_arrayOf (Json.begins_of_reads readValue), rfl⟩

/-! ### What a value was before its names were settled -/

theorem eq_string_of_settled {value : Json} {text : String} (same : value.settled = .string text) :
    value = .string text := by
  cases value <;> simp_all [Json.settled]

theorem eq_ofTexts_of_settled {value : Json} {texts : List String}
    (same : value.settled = .ofTexts texts) : value = .ofTexts texts := by
  cases value with
  | array items =>
    rw [Json.settled_array, Json.ofTexts, Json.array.injEq] at same
    refine congrArg Json.array ?_
    induction items generalizing texts with
    | nil => exact same
    | cons item items ih =>
      cases texts with
      | nil => cases same
      | cons text texts =>
        obtain ⟨first, others⟩ := List.cons.inj same
        rw [eq_string_of_settled first, ih others]
        rfl
  | _ => simp [Json.settled, Json.ofTexts] at same

/-- The members of an object of libraries may stand in another order than in the table. -/
theorem exists_entries_of_settled {value : Json} {table : Table Library (List Descriptor)}
    (distinct : value.Distinct) (same : value.settled = .ofTable (table.mapValues .ofTexts)) :
    ∃ entries, value = .object (entries.map entryJson) ∧ Table.ofPairs entries = table := by
  cases distinct with
  | @object members names _ =>
    rw [Json.settled_object] at same
    have merged : Json.merged members = table.entries.map entryJson := Json.object.inj same
    have arrays : ∀ member ∈ members, ∃ texts, member.2 = .ofTexts texts := by
      intro member present
      have settled := (Json.merged_perm names).mem_iff.2 (List.mem_map_of_mem present)
      rw [merged] at settled
      obtain ⟨entry, _, found⟩ := List.mem_map.1 settled
      exact ⟨entry.2, eq_ofTexts_of_settled (Prod.mk.inj found).2.symm⟩
    obtain ⟨entries, rfl⟩ := Schema.exists_entries arrays
    refine ⟨entries, rfl, Table.eq_of_entries_eq ?_⟩
    have unchanged : Json.merged (entries.map entryJson) =
        (Entries.insertAll entries []).map entryJson := by
      have fixed : ((entries.map entryJson).map fun member => (member.1, member.2.settled)) =
          entries.map entryJson := by
        simp [entryJson, (Json.canonical_ofTexts _).settled_eq]
      rw [Json.merged, fixed]
      exact Entries.insertAll_map Json.ofTexts entries []
    exact (List.map_inj_right fun _ _ => entryJson_inj).1 (unchanged.symm.trans merged)
  | _ => simp [Json.settled, Json.ofTable] at same

/-! ### Reading member by member -/

/-- What is read of a document when members of these names were read. -/
def draftAfter (document : Document) (names : List String) : Draft where
  version := if "schema_version" ∈ names then some document.version else none
  declared := if "interface" ∈ names then some document.declared else none
  implementors := if "implementors" ∈ names then some document.implementors else none

/-- A member that belongs to the document and was not read before is read into the draft. -/
theorem exists_field {document : Document} {names : List String} {name : String} {value : Json}
    (new : name ∉ names) (member : document.toJson.member? name = some value.settled)
    (distinct : value.Distinct) :
    ∃ reader, field (document.draftAfter names) name = .ok reader ∧
      ∀ {text rest}, Json.Begins text rest value →
        Reads (reader text) (document.draftAfter (names ++ [name])) rest := by
  rw [member?_toJson] at member
  split at member
  · rename_i implementors
    subst implementors
    obtain ⟨entries, rfl, same⟩ := exists_entries_of_settled distinct (Option.some.inj member).symm
    refine ⟨implementorsReader.map fun table =>
        { document.draftAfter names with implementors := some table }, ?_,
      fun begins => Json.reads_map.2 ⟨_, reads_tableOf begins, ?_⟩⟩
    · simp [field, draftAfter, new]
    · simp [draftAfter, same]
  · split at member
    · rename_i interface
      subst interface
      obtain ⟨text, declared, settled⟩ := Option.map_eq_some_iff.1 member
      obtain rfl := eq_string_of_settled settled.symm
      refine ⟨Json.optionalTextOf.map fun text =>
          { document.draftAfter names with declared := some text }, ?_,
        fun begins => Json.reads_map.2 ⟨_, reads_optionalTextOf begins, ?_⟩⟩
      · simp [field, draftAfter, new]
      · simp [draftAfter, declared]
    · split at member
      · rename_i version
        subst version
        obtain rfl := eq_string_of_settled (Option.some.inj member).symm
        refine ⟨Json.textOf.map fun text =>
            { document.draftAfter names with version := some text }, ?_,
          fun begins => Json.reads_map.2 ⟨_, reads_textOf begins, ?_⟩⟩
        · simp [field, draftAfter, new]
        · simp [draftAfter]
      · cases member

theorem finish_draftAfter {document : Document} {names : List String}
    (complete : ∀ name value, document.toJson.member? name = some value → name ∈ names) :
    (document.draftAfter names).finish = .ok document := by
  have version := complete "schema_version" _ (member?_toJson document _)
  have implementors := complete "implementors" _ (member?_toJson document _)
  have declared : ((document.draftAfter names).declared).getD none = document.declared := by
    dsimp only [draftAfter]
    split
    · rfl
    · rename_i undeclared
      cases found : document.declared with
      | none => rfl
      | some text =>
        refine absurd (complete "interface" (.string text) ?_) undeclared
        rw [member?_toJson, found]
        rfl
  simp only [draftAfter] at declared
  simp only [draftAfter, version, implementors, if_true, Draft.finish, declared]

theorem reads_ofMembers {document : Document} {room : Nat} {text rest : List Char}
    {members : List (String × Json)} (names : (members.map Prod.fst).Nodup)
    (each : ∀ member ∈ members, member.2.Distinct)
    (same : (Json.object members).settled = document.toJson)
    (read : Reads (Reader.members Json.Quoted.literal (Json.keepMember (Json.verbatim room)) [] text)
      members rest) : Reads (ofMembers text) document rest := by
  have found : ∀ {name value}, document.toJson.member? name = some value ↔
      ∃ written, (name, written) ∈ members ∧ written.settled = value := by
    intro name value
    rw [← same]
    exact Json.member?_settled_eq_some_iff names
  have empty : document.draftAfter [] = {} := rfl
  have follows := Reader.members_transfer field
    (fun gathered draft => document.draftAfter (gathered.map Prod.fst) = draft) read ?_ empty
  · obtain ⟨_, rfl, ⟨draft, readDraft, filled, left⟩⟩ := follows
    have finished : draft.value.finish = .ok document := by
      rw [filled]
      refine finish_draftAfter fun name value member => ?_
      obtain ⟨written, present, _⟩ := found.1 member
      exact List.mem_map.2 ⟨_, present, rfl⟩
    simp only [ofMembers, readDraft, finished]
    exact Json.reads_ok.2 ⟨rfl, left⟩
  · rintro gathered _ _ name _ rfl accepted reaches text left readNext
    obtain rfl := Except.ok.inj accepted
    obtain ⟨value, readValue, rfl⟩ := Json.reads_map.1 readNext
    have front := Json.prefix_of_reaches reaches
    have present : (name, value) ∈ members := front.mem (List.mem_append_right _ List.mem_cons_self)
    have new : name ∉ gathered.map Prod.fst := by
      have distinct := names.sublist (front.map Prod.fst).sublist
      rw [List.map_append, List.nodup_append] at distinct
      exact fun old => distinct.2.2 name old name List.mem_cons_self rfl
    obtain ⟨reader, accepted', reads⟩ :=
      exists_field new (found.2 ⟨value, present, rfl⟩) (each _ present)
    refine ⟨reader, _, accepted', rfl, ?_⟩
    rw [List.map_append]
    exact reads (Json.begins_of_reads readValue)

/-- Where no name is repeated, a document is read directly from every text of its value. -/
theorem read_of_verbatim {document : Document} {text : String} {written : Json}
    (read : (Json.verbatim Json.depthLimit).run text = .ok written) (distinct : written.Distinct)
    (same : written.settled = document.toJson) : Document.read text = .ok document := by
  obtain ⟨rest, readValue, ended⟩ := Reader.run_eq_ok_iff.1 read
  refine Reader.run_eq_ok_iff.2 ⟨rest, ?_, ended⟩
  cases distinct with
  | object names each =>
    obtain ⟨room, more, first, readMembers⟩ := Json.begins_of_reads readValue
    rw [reader, Json.reads_afterGap, first]
    exact Json.reads_behind.2 (reads_ofMembers names each same readMembers)
  | _ => simp [Json.settled, toJson] at same

/-- A document is read directly from its own text. From a text that repeats no name, and that is read
as a value and admitted by the schema, the same interface and contributions are read directly. -/
theorem read_agrees_with_parse :
    (∀ document : Document, Document.read document.render = .ok document) ∧
    (∀ (text origin : String) (declared : Option Interface) (contributions : List Contribution),
      Json.RepeatsNoName text →
      Fragment.Format.json.parse text origin = .ok ⟨declared, contributions⟩ →
      ∃ document : Document, Document.read text = .ok document ∧
        document.interface = .ok declared ∧ document.contributions = contributions) := by
  refine ⟨fun document => ?_, fun text origin declared contributions distinct accepted => ?_⟩
  · exact read_of_verbatim document.verbatim_render document.distinct_writtenMembers
      document.settled_writtenMembers
  · rcases Fragment.Content.parse_cases text origin with
      ⟨_, _, failed⟩ | ⟨_, _, _, failed⟩ | ⟨document, admitted, read, found⟩
    · cases accepted.symm.trans failed
    · cases accepted.symm.trans failed
    · obtain ⟨rfl, rfl⟩ := Fragment.Content.mk.inj (Except.ok.inj (accepted.symm.trans found))
      obtain ⟨written, readWritten, same⟩ := Json.parse_eq_ok_iff.1 read
      exact ⟨document, read_of_verbatim readWritten (distinct written readWritten) same,
        admitted.interface, rfl⟩

-- The members stand on lines, those of either object in an order of their own.
theorem read_agrees_with_parse_rearranged :
    let document : Document := ⟨currentVersion, some "core::fmt::Debug",
      .ofPairs [("serde", ["<a href=\"x\">\\</a>", ""]), ("alloc", [])]⟩
    let written : Json := .object [("interface", .string "core::fmt::Debug"),
      ("implementors", .object [("serde", .ofTexts ["<a href=\"x\">\\</a>", ""]), ("alloc", .ofTexts [])]),
      ("schema_version", .string currentVersion)]
    let text := written.pretty ++ "\n"
    Json.RepeatsNoName text ∧
    Fragment.Format.json.parse text "lines" =
      .ok ⟨some ⟨"core::fmt::Debug"⟩, document.contributions⟩ ∧
    Document.read document.render = .ok document ∧
    ∃ found : Document, Document.read text = .ok found ∧
      found.interface = .ok (some ⟨"core::fmt::Debug"⟩) ∧
      found.contributions = document.contributions := by
  intro document written text
  have read : (Json.verbatim Json.depthLimit).run text = .ok written := by
    refine Json.verbatim_pretty (.object ?_) (List.forall_mem_singleton.2 rfl)
    exact List.forall_mem_cons.2 ⟨.string 126 _, List.forall_mem_cons.2
      ⟨Json.plain_ofLists [("serde", _), ("alloc", _)] 124, List.forall_mem_singleton.2 (.string 126 _)⟩⟩
  have distinct : Json.RepeatsNoName text := by
    intro found same
    obtain rfl := Except.ok.inj (read.symm.trans same)
    refine .object (by decide) (List.forall_mem_cons.2 ⟨.string _, List.forall_mem_cons.2
      ⟨.object (by decide) ?_, List.forall_mem_singleton.2 (.string _)⟩⟩)
    exact List.forall_mem_cons.2 ⟨(Json.canonical_ofTexts _).distinct,
      List.forall_mem_singleton.2 (Json.canonical_ofTexts _).distinct⟩
  have admitted : document.Admitted := admitted_of_matchesPath (by decide) (by decide)
  have accepted := Fragment.Content.parse_of_admitted admitted
    (Json.parse_eq_ok_iff.2 ⟨_, read, by rfl⟩) "lines"
  exact ⟨distinct, accepted, read_agrees_with_parse.1 document,
    read_agrees_with_parse.2 text "lines" _ _ distinct accepted⟩

end TraitCatalog.Document
