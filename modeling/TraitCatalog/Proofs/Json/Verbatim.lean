import TraitCatalog.Proofs.Json.Canonical

/-!
# Values as they are written

An object of a text may repeat a name, and the value that is read has only the last of such members.
`verbatim` reads the same texts and keeps every member where it stands. With `settled`, which lets a
later member replace an earlier one, it gives what the reader of values gives (`reads_value_iff`), so
what is said about the members of a text is said about its verbatim value.
-/

namespace TraitCatalog.Json

/-! ### Reading every member -/

def keepMember {α : Type} (value : Reader α) (members : List (String × α)) (name : String) :
    Except Fault (Reader (List (String × α))) :=
  .ok (value.map fun found => members ++ [(name, found)])

/-- Reads a value as it is written, with room for so many levels of nesting: an object has all its
members, in the order of the text. -/
def verbatim : (room : Nat) → Reader Json
  | 0 => .afterGap fun
    | '[' :: _ | '\x7b' :: _ => .error .malformed
    | text => scalar text
  | room + 1 => .afterGap fun
    | '[' :: rest =>
      (Reader.items (verbatim room) rest).map fun items => (items.map .array).behind
    | '\x7b' :: rest =>
      (Reader.members Quoted.literal (keepMember (verbatim room)) [] rest).map fun members =>
        (members.map .object).behind
    | text => scalar text

theorem prefix_of_reaches {α : Type} {item : Reader α} {gathered final : List (String × α)}
    (reaches : Reader.Reaches (keepMember item) gathered final) : gathered <+: final := by
  refine reaches.invariant (I := fun members => gathered <+: members) ?_ (List.prefix_refl gathered)
  intro members key reader kept accepted text next rest read
  obtain rfl := Except.ok.inj accepted
  obtain ⟨value, _, rfl⟩ := reads_map.1 read
  exact kept.trans (List.prefix_append _ _)

/-! ### Repeated names -/

mutual

/-- The value in which later members have replaced earlier ones of the same name. -/
def settled : Json → Json
  | .null => .null
  | .bool value => .bool value
  | .number value => .number value
  | .string text => .string text
  | .array items => .array (settledItems items)
  | .object members => .object (Entries.insertAll (settledMembers members) [])

def settledItems : List Json → List Json
  | [] => []
  | item :: rest => settled item :: settledItems rest

def settledMembers : List (String × Json) → List (String × Json)
  | [] => []
  | (name, value) :: rest => (name, settled value) :: settledMembers rest

end

theorem settledItems_eq_map (items : List Json) : settledItems items = items.map settled := by
  induction items with
  | nil => rfl
  | cons item rest ih => rw [settledItems, ih, List.map_cons]

theorem settledMembers_eq_map (members : List (String × Json)) :
    settledMembers members = members.map fun member => (member.1, member.2.settled) := by
  induction members with
  | nil => rfl
  | cons member rest ih => rw [settledMembers, ih, List.map_cons]

theorem settled_array (items : List Json) : (array items).settled = .array (items.map settled) := by
  rw [settled, settledItems_eq_map]

def merged (members : List (String × Json)) : List (String × Json) :=
  Entries.insertAll (members.map fun member => (member.1, member.2.settled)) []

theorem merged_append (members : List (String × Json)) (name : String) (value : Json) :
    merged (members ++ [(name, value)]) = Entries.insert name value.settled (merged members) := by
  simp [merged, Entries.insertAll]

theorem settled_object (members : List (String × Json)) :
    (object members).settled = .object (merged members) := by
  rw [settled, settledMembers_eq_map]
  rfl

theorem Canonical.settled_eq {value : Json} (canonical : value.Canonical) : value.settled = value := by
  induction canonical with
  | null => rfl
  | bool => rfl
  | number => rfl
  | string => rfl
  | array _ ih => rw [settled_array, List.map_congr_left ih, List.map_id']
  | @object members sorted _ ih =>
    have same : (members.map fun member => (member.1, member.2.settled)) = members :=
      (List.map_congr_left fun member present => by rw [ih member present]).trans (List.map_id' _)
    rw [settled_object, merged, same, Entries.insertAll_eq_self sorted]

/-- No object has two members of one name. -/
inductive Distinct : Json → Prop where
  | null : Distinct .null
  | bool (value : Bool) : Distinct (.bool value)
  | number (value : Number) : Distinct (.number value)
  | string (text : String) : Distinct (.string text)
  | array {items : List Json} (each : ∀ item ∈ items, Distinct item) : Distinct (.array items)
  | object {members : List (String × Json)} (names : (members.map Prod.fst).Nodup)
      (each : ∀ member ∈ members, Distinct member.2) : Distinct (.object members)

/-- Members with names of their own all stay, each with its settled value. -/
theorem merged_perm {members : List (String × Json)} (names : (members.map Prod.fst).Nodup) :
    (merged members).Perm (members.map fun member => (member.1, member.2.settled)) := by
  have distinct : ((members.map fun member : String × Json => (member.1, member.2.settled)) ++ []).map
      Prod.fst = members.map Prod.fst := by
    simp [Function.comp_def]
  have kept := Entries.insertAll_perm (distinct ▸ names)
  rwa [List.append_nil] at kept

theorem member?_settled_eq_some_iff {members : List (String × Json)}
    (names : (members.map Prod.fst).Nodup) {name : String} {value : Json} :
    (object members).settled.member? name = some value ↔
      ∃ written, (name, written) ∈ members ∧ written.settled = value := by
  have sorted : Entries.Sorted (merged members) := Entries.sorted_insertAll .nil
  rw [settled_object, member?, Entries.get?_eq_some_iff_mem (Entries.nodup_of_sorted sorted),
    (merged_perm names).mem_iff, List.mem_map]
  constructor
  · rintro ⟨member, present, same⟩
    obtain ⟨rfl, rfl⟩ := Prod.mk.inj same
    exact ⟨member.2, present, rfl⟩
  · rintro ⟨written, present, rfl⟩
    exact ⟨(name, written), present, rfl⟩

theorem Canonical.distinct {value : Json} (canonical : value.Canonical) : value.Distinct := by
  induction canonical with
  | null => exact .null
  | bool value => exact .bool value
  | number value => exact .number value
  | string text => exact .string text
  | array _ ih => exact .array ih
  | object sorted _ ih => exact .object (Entries.nodup_of_sorted sorted) ih

section Rearranged

variable {members target : List (String × Json)}

theorem distinct_of_perm (canonical : (object target).Canonical) (same : members.Perm target) :
    (object members).Distinct := by
  cases canonical with
  | object sorted each =>
    refine .object ((same.map Prod.fst).nodup_iff.2 (Entries.nodup_of_sorted sorted)) ?_
    exact fun member present => (each member (same.mem_iff.1 present)).distinct

/-- The order of the members is of no account. -/
theorem settled_of_perm (canonical : (object target).Canonical) (same : members.Perm target) :
    (object members).settled = .object target := by
  cases canonical with
  | object sorted each =>
    have names := (same.map Prod.fst).nodup_iff.2 (Entries.nodup_of_sorted sorted)
    have fixed : (members.map fun member => (member.1, member.2.settled)) = members := by
      refine (List.map_congr_left fun member present => ?_).trans (List.map_id' members)
      rw [(each member (same.mem_iff.1 present)).settled_eq]
    have kept := merged_perm names
    rw [fixed] at kept
    rw [settled_object]
    exact congrArg Json.object
      (Entries.eq_of_sorted_of_perm (Entries.sorted_insertAll .nil) sorted (kept.trans same))

end Rearranged

/-! ### The reader of values -/

section Alike

variable {item item' : Reader Json}
  (alike : ∀ {text found rest}, Reads (item text) found rest ↔
    ∃ written, Reads (item' text) written rest ∧ written.settled = found)

include alike

theorem reads_items_settled_iff {text rest : List Char} {found : List Json} :
    Reads (Reader.items item text) found rest ↔
      ∃ written, Reads (Reader.items item' text) written rest ∧ written.map settled = found := by
  constructor
  · intro read
    obtain ⟨written, same, read'⟩ := Reader.items_transfer id settled read fun _ _ _ _ readValue => by
      obtain ⟨writtenValue, readWritten, rfl⟩ := alike.1 readValue
      exact ⟨writtenValue, rfl, readWritten⟩
    rw [List.map_id] at same
    exact ⟨written, read', same.symm⟩
  · rintro ⟨written, read, rfl⟩
    obtain ⟨found, same, read'⟩ := Reader.items_transfer settled id read fun value _ _ _ readValue =>
      ⟨value.settled, rfl, alike.2 ⟨value, readValue, rfl⟩⟩
    rwa [same, List.map_id]

theorem reads_members_settled_iff {text rest : List Char} {found : List (String × Json)} :
    Reads (Reader.members Quoted.literal (addMember item) [] text) found rest ↔
      ∃ written, Reads (Reader.members Quoted.literal (keepMember item') [] text) written rest ∧
        merged written = found := by
  constructor
  · intro read
    refine (Reader.members_transfer (keepMember item') (fun found written => merged written = found)
      read ?_ rfl).imp fun _ => And.symm
    rintro _ _ written name _ rfl accepted _ text left readNext
    obtain rfl := Except.ok.inj accepted
    obtain ⟨_, readValue, rfl⟩ := reads_map.1 readNext
    obtain ⟨value, readWritten, rfl⟩ := alike.1 readValue
    exact ⟨_, _, rfl, merged_append written name value, reads_map.2 ⟨value, readWritten, rfl⟩⟩
  · rintro ⟨written, read, rfl⟩
    have follows := Reader.members_transfer (addMember item)
      (fun written found => merged written = found) read ?_ rfl
    · obtain ⟨_, rfl, read'⟩ := follows
      exact read'
    · rintro written _ _ name _ rfl accepted _ text left readNext
      obtain rfl := Except.ok.inj accepted
      obtain ⟨value, readValue, rfl⟩ := reads_map.1 readNext
      exact ⟨_, _, rfl, merged_append written name value,
        reads_map.2 ⟨value.settled, alike.2 ⟨value, readValue, rfl⟩, rfl⟩⟩

end Alike

theorem reads_scalar_settled_iff {text rest : List Char} {found : Json} :
    Reads (scalar text) found rest ↔
      ∃ written, Reads (scalar text) written rest ∧ written.settled = found := by
  constructor
  · exact fun read => ⟨found, read, (canonical_of_reads_scalar read).settled_eq⟩
  · rintro ⟨written, read, rfl⟩
    rwa [(canonical_of_reads_scalar read).settled_eq]

section Front

variable {text : List Char} (array : ∀ more, skipGap text ≠ '[' :: more)
  (object : ∀ more, skipGap text ≠ '\x7b' :: more)

include array object

theorem reads_value_iff_scalar {room : Nat} {rest : List Char} {found : Json} :
    Reads (value room text) found rest ↔ Reads (scalar (skipGap text)) found rest := by
  cases room <;>
  · rw [value, reads_afterGap]
    generalize skipGap text = front at array object ⊢
    split
    · exact absurd rfl (array _)
    · exact absurd rfl (object _)
    · rfl

theorem reads_verbatim_iff_scalar {room : Nat} {rest : List Char} {found : Json} :
    Reads (verbatim room text) found rest ↔ Reads (scalar (skipGap text)) found rest := by
  cases room <;>
  · rw [verbatim, reads_afterGap]
    generalize skipGap text = front at array object ⊢
    split
    · exact absurd rfl (array _)
    · exact absurd rfl (object _)
    · rfl

end Front

/-- A value is what its text says verbatim, after later members replaced earlier ones. -/
theorem reads_value_iff {room : Nat} {text rest : List Char} {found : Json} :
    Reads (value room text) found rest ↔
      ∃ written, Reads (verbatim room text) written rest ∧ written.settled = found := by
  induction room generalizing text rest found with
  | zero =>
    by_cases array : ∃ more, skipGap text = '[' :: more
    · obtain ⟨more, first⟩ := array
      simp only [value, verbatim, reads_afterGap]
      generalize skipGap text = front at first ⊢
      subst first
      simp
    · by_cases object : ∃ more, skipGap text = '\x7b' :: more
      · obtain ⟨more, first⟩ := object
        simp only [value, verbatim, reads_afterGap]
        generalize skipGap text = front at first ⊢
        subst first
        simp
      · rw [not_exists] at array object
        simp only [reads_value_iff_scalar array object, reads_verbatim_iff_scalar array object]
        exact reads_scalar_settled_iff
  | succ room ih =>
    by_cases array : ∃ more, skipGap text = '[' :: more
    · obtain ⟨more, first⟩ := array
      simp only [value, verbatim, reads_afterGap]
      generalize skipGap text = front at first ⊢
      subst first
      simp only [reads_map_behind, reads_items_settled_iff ih]
      constructor
      · rintro ⟨_, ⟨written, read, rfl⟩, rfl⟩
        exact ⟨_, ⟨written, read, rfl⟩, settled_array written⟩
      · rintro ⟨_, ⟨written, read, rfl⟩, rfl⟩
        exact ⟨_, ⟨written, read, rfl⟩, (settled_array written).symm⟩
    · by_cases object : ∃ more, skipGap text = '\x7b' :: more
      · obtain ⟨more, first⟩ := object
        simp only [value, verbatim, reads_afterGap]
        generalize skipGap text = front at first ⊢
        subst first
        simp only [reads_map_behind, reads_members_settled_iff ih]
        constructor
        · rintro ⟨_, ⟨written, read, rfl⟩, rfl⟩
          exact ⟨_, ⟨written, read, rfl⟩, settled_object written⟩
        · rintro ⟨_, ⟨written, read, rfl⟩, rfl⟩
          exact ⟨_, ⟨written, read, rfl⟩, (settled_object written).symm⟩
      · rw [not_exists] at array object
        simp only [reads_value_iff_scalar array object, reads_verbatim_iff_scalar array object]
        exact reads_scalar_settled_iff

theorem parse_eq_ok_iff {text : String} {found : Json} :
    parse text = .ok found ↔
      ∃ written, (verbatim depthLimit).run text = .ok written ∧ written.settled = found := by
  simp only [parse, Reader.run_eq_ok_iff, reads_value_iff]
  constructor
  · rintro ⟨rest, ⟨written, read, same⟩, ended⟩
    exact ⟨written, ⟨rest, read, ended⟩, same⟩
  · rintro ⟨written, ⟨rest, read, ended⟩, same⟩
    exact ⟨rest, ⟨written, read, same⟩, ended⟩

def RepeatsNoName (text : String) : Prop :=
  ∀ written, (verbatim depthLimit).run text = .ok written → written.Distinct

/-! ### How a value begins -/

/-- What stands at the front of a text from which a value was read: a quote before the spelling of a
string, a bracket before items, a brace before members. -/
def Begins (text rest : List Char) : Json → Prop
  | .string s =>
    ∃ more, skipGap text = '"' :: more ∧ Reads (Quoted.body more) s.toList rest
  | .array items =>
    ∃ room more, skipGap text = '[' :: more ∧ Reads (Reader.items (verbatim room) more) items rest
  | .object members =>
    ∃ room more, skipGap text = '\x7b' :: more ∧
      Reads (Reader.members Quoted.literal (keepMember (verbatim room)) [] more) members rest
  | _ => True

theorem begins_of_reads_scalar {text front rest : List Char} {found : Json}
    (first : skipGap text = front) (read : Reads (scalar front) found rest) :
    Begins text rest found := by
  unfold scalar at read
  split at read
  · exact absurd read not_reads_error
  · split at read
    · rw [Reader.value_of_reads_keyword (reads_behind.1 read)]
      trivial
    · split at read
      · rw [Reader.value_of_reads_keyword (reads_behind.1 read)]
        trivial
      · split at read
        · rw [Reader.value_of_reads_keyword (reads_behind.1 read)]
          trivial
        · split at read
          · rename_i quote
            obtain ⟨spelled, readBody, rfl⟩ := reads_map_behind.1 read
            exact ⟨_, quote ▸ first, by rwa [String.toList_ofList]⟩
          · split at read
            · obtain ⟨_, _, rfl⟩ := reads_map.1 read
              trivial
            · exact absurd read not_reads_error

theorem begins_of_reads {room : Nat} {text rest : List Char} {found : Json}
    (read : Reads (verbatim room text) found rest) : Begins text rest found := by
  cases room with
  | zero =>
    rw [verbatim, reads_afterGap] at read
    generalize first : skipGap text = front at read
    split at read
    · exact absurd read not_reads_error
    · exact absurd read not_reads_error
    · exact begins_of_reads_scalar first read
  | succ room =>
    rw [verbatim, reads_afterGap] at read
    generalize first : skipGap text = front at read
    split at read
    · obtain ⟨items, readItems, rfl⟩ := reads_map_behind.1 read
      exact ⟨room, _, first, readItems⟩
    · obtain ⟨members, readMembers, rfl⟩ := reads_map_behind.1 read
      exact ⟨room, _, first, readMembers⟩
    · exact begins_of_reads_scalar first read

end TraitCatalog.Json
