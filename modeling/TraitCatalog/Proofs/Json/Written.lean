import TraitCatalog.Json.Printer
import TraitCatalog.Proofs.Json.Verbatim

/-!
# Reading what was written

A reader takes a text for a value when it reads this value off the text behind any gap and leaves
whatever follows. Lists of texts that are taken, with commas between them, are taken as arrays and
objects (`takes_array`, `takes_object`), so a value made of strings, arrays and objects is read back
as it was written, without gaps (`takes_compact`) or on lines (`takes_pretty`).
-/

namespace TraitCatalog.Json

/-! ### Gaps -/

def Gap (text : List Char) : Prop :=
  ∀ c ∈ text, isGap c = true

theorem gap_nil : Gap [] :=
  fun _ member => absurd member List.not_mem_nil

theorem skipGap_append {gap : List Char} (blank : Gap gap) (text : List Char) :
    skipGap (gap ++ text) = skipGap text :=
  List.dropWhile_append_of_pos blank

theorem skipGap_cons {c : Char} (token : isGap c = false) (text : List Char) :
    skipGap (c :: text) = c :: text :=
  List.dropWhile_cons_of_neg (by simp [token])

theorem skipGap_gap_cons {gap : List Char} (blank : Gap gap) {c : Char} (token : isGap c = false)
    (text : List Char) : skipGap (gap ++ c :: text) = c :: text := by
  rw [skipGap_append blank, skipGap_cons token]

theorem joined_singleton_append (separator part rest : List Char) :
    joined separator [part] ++ rest = part ++ rest := by
  simp [joined, List.intercalate]

theorem joined_cons_append (separator part second : List Char) (parts : List (List Char))
    (rest : List Char) :
    joined separator (part :: second :: parts) ++ rest =
      part ++ (separator ++ (joined separator (second :: parts) ++ rest)) := by
  simp [joined, List.intercalate]

theorem exists_joined_append (separator part : List Char) (parts : List (List Char))
    (rest : List Char) : ∃ more, joined separator (part :: parts) ++ rest = part ++ more := by
  cases parts with
  | nil => exact ⟨_, joined_singleton_append ..⟩
  | cons second parts => exact ⟨_, joined_cons_append ..⟩

/-! ### Readers and the texts that they take -/

/-- The reader takes a text for a value, behind any gap and before any rest. No array closes at the
first character of the text. -/
structure Reader.Takes {α : Type} (reader : Reader α) (text : List Char) (value : α) : Prop where
  starts : ∃ c rest, text = c :: rest ∧ isGap c = false ∧ c ≠ ']'
  reads : ∀ {gap}, Gap gap → ∀ rest, Reads (reader (gap ++ (text ++ rest))) value rest

namespace Reader

variable {α : Type}

theorem takes_afterGap {reader : Reader α} {c : Char} {text : List Char} {value : α}
    (token : isGap c = false) (inside : c ≠ ']')
    (reads : ∀ rest, Reads (reader (c :: (text ++ rest))) value rest) :
    reader.afterGap.Takes (c :: text) value := by
  refine ⟨⟨c, text, rfl, token, inside⟩, fun blank rest => ?_⟩
  rw [reads_afterGap, List.cons_append, skipGap_gap_cons blank token]
  exact reads rest

theorem Takes.run {reader : Reader α} {text gap : List Char} {value : α}
    (taken : reader.Takes text value) (blank : Gap gap) :
    reader.run (String.ofList (text ++ gap)) = .ok value := by
  have ended := skipGap_append blank []
  rw [List.append_nil] at ended
  refine run_eq_ok_iff.2 ⟨gap, ?_, ended⟩
  rw [String.toList_ofList]
  exact taken.reads gap_nil gap

/-! ### Arrays -/

section Joined

variable {item : Reader α} {write : α → List Char} {gap close : List Char}

theorem readsItems_joined (blank : Gap gap) (closeBlank : Gap close) {value : α} {values : List α}
    (each : ∀ v ∈ value :: values, item.Takes (write v) v) (rest : List Char) :
    ReadsItems item
      (gap ++ (joined (',' :: gap) ((value :: values).map write) ++ (close ++ ']' :: rest)))
      (value :: values) rest := by
  induction values generalizing value with
  | nil =>
    have first := (each value List.mem_cons_self).reads blank (close ++ ']' :: rest)
    rw [List.map_singleton, joined_singleton_append]
    exact .last first (skipGap_gap_cons closeBlank rfl rest)
  | cons second values ih =>
    obtain ⟨taken, others⟩ := List.forall_mem_cons.1 each
    have first := taken.reads blank (',' ::
      (gap ++ (joined (',' :: gap) ((second :: values).map write) ++ (close ++ ']' :: rest))))
    rw [List.map_cons, List.map_cons, joined_cons_append]
    exact .next first (skipGap_cons rfl _) (ih others)

theorem reads_items_joined (blank : Gap gap) (closeBlank : Gap close) {values : List α}
    (each : ∀ v ∈ values, item.Takes (write v) v) (rest : List Char) :
    Reads (items item (gap ++ (joined (',' :: gap) (values.map write) ++ (close ++ ']' :: rest))))
      values rest := by
  refine reads_items_iff.2 ?_
  cases values with
  | nil =>
    refine Or.inl ⟨?_, rfl⟩
    show skipGap (gap ++ (close ++ ']' :: rest)) = ']' :: rest
    rw [skipGap_append blank, skipGap_gap_cons closeBlank rfl]
  | cons value values =>
    refine Or.inr ⟨fun more closing => ?_, readsItems_joined blank closeBlank each rest⟩
    obtain ⟨c, text, written, token, inside⟩ := (each value List.mem_cons_self).starts
    obtain ⟨after, split⟩ := exists_joined_append (',' :: gap) (write value) (values.map write)
      (close ++ ']' :: rest)
    rw [List.map_cons, split, written, List.cons_append, skipGap_gap_cons blank token] at closing
    exact inside (List.cons.inj closing).1

end Joined
end Reader

/-! ### Objects -/

namespace Quoted

theorem reads_body_written (text : String) (rest : List Char) :
    Reads (body (text.toList.flatMap escaped ++ ['"'] ++ rest)) text.toList rest := by
  rw [List.append_assoc]
  exact reads_body_of_spells (spells_flatMap_escaped text.toList) rest

theorem takes_literal (text : String) : literal.Takes (write text) text := by
  refine Reader.takes_afterGap rfl (by decide) fun rest => ?_
  refine reads_map.2 ⟨text.toList, ?_, String.ofList_toList⟩
  rw [quoted, if_pos rfl, reads_behind]
  exact reads_body_written text rest

end Quoted

/-- A member as it is written, with the gap `space` behind the colon. -/
def memberText {α : Type} (space : List Char) (write : α → List Char) (member : String × α) :
    List Char :=
  Quoted.write member.1 ++ ':' :: (space ++ write member.2)

namespace Reader

variable {α : Type} {item : Reader α} {write : α → List Char} {space gap close : List Char}

theorem readsMember_written (spaceBlank : Gap space) (blank : Gap gap) (gathered : List (String × α))
    {member : String × α} (taken : item.Takes (write member.2) member.2) (rest : List Char) :
    ReadsMember Quoted.literal (keepMember item) gathered
      (gap ++ (memberText space write member ++ rest)) (gathered ++ [member]) rest := by
  unfold memberText
  rw [List.append_assoc, List.cons_append, List.append_assoc]
  exact ⟨member.1, _, _, _, (Quoted.takes_literal member.1).reads blank _, rfl, skipGap_cons rfl _,
    reads_map.2 ⟨member.2, taken.reads spaceBlank rest, rfl⟩⟩

theorem readsMembers_joined (spaceBlank : Gap space) (blank : Gap gap) (closeBlank : Gap close)
    {member : String × α} {members : List (String × α)}
    (each : ∀ m ∈ member :: members, item.Takes (write m.2) m.2) (gathered : List (String × α))
    (rest : List Char) :
    ReadsMembers Quoted.literal (keepMember item) gathered
      (gap ++ (joined (',' :: gap) ((member :: members).map (memberText space write)) ++
        (close ++ '\x7d' :: rest)))
      (gathered ++ member :: members) rest := by
  induction members generalizing member gathered with
  | nil =>
    have first := readsMember_written spaceBlank blank gathered (each member List.mem_cons_self)
      (close ++ '\x7d' :: rest)
    rw [List.map_singleton, joined_singleton_append]
    exact .last first (skipGap_gap_cons closeBlank rfl rest)
  | cons second members ih =>
    obtain ⟨taken, others⟩ := List.forall_mem_cons.1 each
    have first := readsMember_written spaceBlank blank gathered taken (',' ::
      (gap ++ (joined (',' :: gap) ((second :: members).map (memberText space write)) ++
        (close ++ '\x7d' :: rest))))
    have later := ih others (gathered ++ [member])
    rw [List.append_assoc] at later
    rw [List.map_cons, List.map_cons, joined_cons_append]
    exact .next first (skipGap_cons rfl _) later

theorem reads_members_joined (spaceBlank : Gap space) (blank : Gap gap) (closeBlank : Gap close)
    {members : List (String × α)} (each : ∀ m ∈ members, item.Takes (write m.2) m.2)
    (rest : List Char) :
    Reads (Reader.members Quoted.literal (keepMember item) []
      (gap ++ (joined (',' :: gap) (members.map (memberText space write)) ++
        (close ++ '\x7d' :: rest)))) members rest := by
  refine reads_members_iff.2 ?_
  cases members with
  | nil =>
    refine Or.inl ⟨?_, rfl⟩
    show skipGap (gap ++ (close ++ '\x7d' :: rest)) = '\x7d' :: rest
    rw [skipGap_append blank, skipGap_gap_cons closeBlank rfl]
  | cons member members =>
    refine Or.inr ⟨fun more closing => ?_,
      readsMembers_joined spaceBlank blank closeBlank each [] rest⟩
    obtain ⟨after, split⟩ := exists_joined_append (',' :: gap) (memberText space write member)
      (members.map (memberText space write)) (close ++ '\x7d' :: rest)
    rw [List.map_cons, split, memberText, Quoted.write] at closing
    have quote := (skipGap_gap_cons blank (c := '"') rfl _).symm.trans closing
    exact absurd (List.cons.inj quote).1 (by decide)

end Reader

/-! ### Values -/

theorem takes_string (room : Nat) (text : String) :
    (verbatim room).Takes (Quoted.write text) (.string text) := by
  have reads : ∀ rest, Reads (scalar ('"' :: (text.toList.flatMap Quoted.escaped ++ ['"'] ++ rest)))
      (.string text) rest := by
    intro rest
    rw [scalar, if_neg (by decide), if_neg (by decide), if_neg (by decide), if_pos rfl,
      reads_map_behind]
    exact ⟨text.toList, Quoted.reads_body_written text rest, congrArg Json.string String.ofList_toList⟩
  cases room <;> exact Reader.takes_afterGap rfl (by decide) reads

theorem takes_array {room : Nat} {gap close : List Char} (blank : Gap gap) (closeBlank : Gap close)
    {write : Json → List Char} {items : List Json}
    (each : ∀ item ∈ items, (verbatim room).Takes (write item) item) :
    (verbatim (room + 1)).Takes
      ('[' :: (gap ++ (joined (',' :: gap) (items.map write) ++ (close ++ [']'])))) (.array items) := by
  refine Reader.takes_afterGap rfl (by decide) fun rest => ?_
  refine reads_map_behind.2 ⟨items, ?_, rfl⟩
  rw [List.append_assoc, List.append_assoc, List.append_assoc]
  exact Reader.reads_items_joined blank closeBlank each rest

theorem takes_object {room : Nat} {gap close space : List Char} (blank : Gap gap)
    (closeBlank : Gap close) (spaceBlank : Gap space) {write : Json → List Char}
    {members : List (String × Json)}
    (each : ∀ member ∈ members, (verbatim room).Takes (write member.2) member.2) :
    (verbatim (room + 1)).Takes
      ('\x7b' :: (gap ++ (joined (',' :: gap) (members.map (memberText space write)) ++
        (close ++ ['\x7d'])))) (.object members) := by
  refine Reader.takes_afterGap rfl (by decide) fun rest => ?_
  refine reads_map_behind.2 ⟨members, ?_, rfl⟩
  rw [List.append_assoc, List.append_assoc, List.append_assoc]
  exact Reader.reads_members_joined spaceBlank blank closeBlank each rest

/-- Strings, arrays and objects that nest at most so deep. -/
inductive Plain : Nat → Json → Prop where
  | string (room : Nat) (text : String) : Plain room (.string text)
  | array {room : Nat} {items : List Json} (each : ∀ item ∈ items, Plain room item) :
      Plain (room + 1) (.array items)
  | object {room : Nat} {members : List (String × Json)}
      (each : ∀ member ∈ members, Plain room member.2) : Plain (room + 1) (.object members)

theorem plain_ofTexts (texts : List String) (room : Nat) : Plain (room + 1) (ofTexts texts) := by
  refine .array fun item member => ?_
  obtain ⟨text, _, rfl⟩ := List.mem_map.1 member
  exact .string room text

theorem plain_ofLists (lists : List (String × List String)) (room : Nat) :
    Plain (room + 2) (object (lists.map fun entry => (entry.1, ofTexts entry.2))) := by
  refine .object fun member present => ?_
  obtain ⟨entry, _, rfl⟩ := List.mem_map.1 present
  exact plain_ofTexts entry.2 room

/-! ### Without gaps -/

theorem compactItems_eq_map (items : List Json) : compactItems items = items.map compactChars := by
  induction items with
  | nil => rfl
  | cons item rest ih => exact congrArg (compactChars item :: ·) ih

theorem compactMembers_eq_map (members : List (String × Json)) :
    compactMembers members = members.map (memberText [] compactChars) := by
  induction members with
  | nil => rfl
  | cons member rest ih => exact congrArg (memberText [] compactChars member :: ·) ih

/-- A value is read back as it was written. -/
theorem takes_compact {room : Nat} {written : Json} (plain : Plain room written) :
    (verbatim room).Takes written.compactChars written := by
  induction plain with
  | string room text => exact takes_string room text
  | @array _ items _ ih =>
    show (verbatim _).Takes ('[' :: joined [','] (compactItems items) ++ [']']) _
    rw [compactItems_eq_map]
    exact takes_array gap_nil gap_nil ih
  | @object _ members _ ih =>
    show (verbatim _).Takes ('\x7b' :: joined [','] (compactMembers members) ++ ['\x7d']) _
    rw [compactMembers_eq_map]
    exact takes_object gap_nil gap_nil gap_nil ih

/-! ### On lines -/

theorem gap_lineStart (level : Nat) : Gap (lineStart level) := by
  intro c member
  rcases List.mem_cons.1 member with rfl | space
  · rfl
  · rw [List.eq_of_mem_replicate space]
    rfl

/-- A block is a list of parts between gaps, which are empty where the brackets meet. -/
theorem exists_block_eq (level : Nat) (opening closing : Char) (parts : List (List Char)) :
    ∃ gap close, Gap gap ∧ Gap close ∧ block level opening closing parts =
      opening :: (gap ++ (joined (',' :: gap) parts ++ (close ++ [closing]))) := by
  cases parts with
  | nil => exact ⟨[], [], gap_nil, gap_nil, rfl⟩
  | cons part parts =>
    refine ⟨lineStart (level + 1), lineStart level, gap_lineStart _, gap_lineStart _, ?_⟩
    simp [block]

theorem prettyItems_eq_map (level : Nat) (items : List Json) :
    prettyItems level items = items.map (prettyChars level) := by
  induction items with
  | nil => rfl
  | cons item rest ih => exact congrArg (prettyChars level item :: ·) ih

theorem prettyMembers_eq_map (level : Nat) (members : List (String × Json)) :
    prettyMembers level members = members.map (memberText [' '] (prettyChars level)) := by
  induction members with
  | nil => rfl
  | cons member rest ih => exact congrArg (memberText [' '] (prettyChars level) member :: ·) ih

/-- A value that was spread over lines is read back as it was written. -/
theorem takes_pretty {room : Nat} {written : Json} (plain : Plain room written) (level : Nat) :
    (verbatim room).Takes (written.prettyChars level) written := by
  induction plain generalizing level with
  | string room text => exact takes_string room text
  | @array _ items _ ih =>
    show (verbatim _).Takes (block level '[' ']' (prettyItems (level + 1) items)) _
    obtain ⟨gap, close, blank, closeBlank, same⟩ := exists_block_eq level '[' ']' _
    rw [same, prettyItems_eq_map]
    exact takes_array blank closeBlank fun item member => ih item member (level + 1)
  | @object _ members _ ih =>
    show (verbatim _).Takes (block level '\x7b' '\x7d' (prettyMembers (level + 1) members)) _
    obtain ⟨gap, close, blank, closeBlank, same⟩ := exists_block_eq level '\x7b' '\x7d' _
    have space : Gap [' '] := List.forall_mem_singleton.2 rfl
    rw [same, prettyMembers_eq_map]
    exact takes_object blank closeBlank space fun member present => ih member present (level + 1)

/-- Lines with a value hold this value, whatever gap ends them. -/
theorem verbatim_pretty {room : Nat} {written : Json} (plain : Plain room written) {gap : List Char}
    (blank : Gap gap) : (verbatim room).run (written.pretty ++ String.ofList gap) = .ok written := by
  rw [pretty, ← String.ofList_append]
  exact (takes_pretty plain 0).run blank

end TraitCatalog.Json
