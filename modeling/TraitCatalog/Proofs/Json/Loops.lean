import TraitCatalog.Proofs.Json.Literal

/-!
# What the loops over items and members read

`Reader.items` and `Reader.members` go through a text piece by piece. `ReadsItems` and `ReadsMembers`
are their successful runs, one step for each item or member (`reads_items_iff`, `reads_members_iff`).
Whatever a step keeps, a run keeps, and two loops whose steps correspond read the same texts.
-/

namespace TraitCatalog.Json.Reader

variable {α β γ κ σ τ : Type}

/-! ### Arrays -/

inductive ReadsItems (item : Reader α) : List Char → List α → List Char → Prop where
  | last {text left rest : List Char} {value : α} (first : Reads (item text) value left)
      (closing : skipGap left = ']' :: rest) : ReadsItems item text [value] rest
  | next {text left more rest : List Char} {value : α} {values : List α}
      (first : Reads (item text) value left) (comma : skipGap left = ',' :: more)
      (others : ReadsItems item more values rest) : ReadsItems item text (value :: values) rest

theorem ReadsItems.reads {item : Reader α} {text rest : List Char} {values : List α}
    (read : ReadsItems item text values rest) : Reads (itemsFrom item text) values rest := by
  induction read with
  | last first closing =>
    obtain ⟨parsed, found, rfl, rfl⟩ := first
    rw [itemsFrom, found]
    dsimp only
    split <;> rename_i next
    · cases closing.symm.trans next
    · obtain ⟨rfl, rfl⟩ := List.cons.inj (closing.symm.trans next)
      rw [if_pos rfl]
      exact reads_ok.2 ⟨rfl, rfl⟩
  | next first comma _ later =>
    obtain ⟨parsed, found, rfl, rfl⟩ := first
    obtain ⟨others, foundOthers, rfl, rfl⟩ := later
    rw [itemsFrom, found]
    dsimp only
    split <;> rename_i next
    · cases comma.symm.trans next
    · obtain ⟨rfl, rfl⟩ := List.cons.inj (comma.symm.trans next)
      rw [if_neg (by decide), if_pos rfl, foundOthers]
      exact reads_ok.2 ⟨rfl, rfl⟩

theorem reads_itemsFrom_iff {item : Reader α} {text rest : List Char} {values : List α} :
    Reads (itemsFrom item text) values rest ↔ ReadsItems item text values rest := by
  refine ⟨fun read => ?_, ReadsItems.reads⟩
  fun_induction itemsFrom item text generalizing values with
  | case1 => exact absurd read not_reads_error
  | case2 => exact absurd read not_reads_error
  | case3 text first found more closing =>
    obtain ⟨rfl, rfl⟩ := reads_ok.1 read
    exact .last ⟨first, found, rfl, rfl⟩ closing
  | case4 => exact absurd read not_reads_error
  | case5 text first found more others foundOthers comma _ _ ih =>
    obtain ⟨rfl, left⟩ := reads_ok.1 read
    exact .next ⟨first, found, rfl, rfl⟩ comma (ih ⟨others, foundOthers, rfl, left⟩)
  | case6 => exact absurd read not_reads_error

theorem reads_items_iff {item : Reader α} {text rest : List Char} {values : List α} :
    Reads (items item text) values rest ↔
      (skipGap text = ']' :: rest ∧ values = []) ∨
      ((∀ more, skipGap text ≠ ']' :: more) ∧ ReadsItems item text values rest) := by
  unfold items
  split
  · rename_i closing
    rw [reads_ok]
    constructor
    · rintro ⟨rfl, rfl⟩
      exact Or.inl ⟨closing, rfl⟩
    · rintro (⟨same, rfl⟩ | ⟨other, _⟩)
      · exact ⟨rfl, (List.cons.inj (closing.symm.trans same)).2⟩
      · exact absurd closing (other _)
  · rename_i other
    rw [reads_itemsFrom_iff]
    constructor
    · exact fun read => Or.inr ⟨other, read⟩
    · rintro (⟨closing, _⟩ | ⟨_, read⟩)
      · exact absurd closing (other rest)
      · exact read

theorem ReadsItems.forall {P : α → Prop} {item : Reader α}
    (each : ∀ {text value rest}, Reads (item text) value rest → P value) {text rest : List Char}
    {values : List α} (read : ReadsItems item text values rest) : ∀ value ∈ values, P value := by
  induction read with
  | last first _ => exact List.forall_mem_singleton.2 (each first)
  | next first _ _ ih => exact List.forall_mem_cons.2 ⟨each first, ih⟩

theorem items_forall {P : α → Prop} {item : Reader α}
    (each : ∀ {text value rest}, Reads (item text) value rest → P value) {text rest : List Char}
    {values : List α} (read : Reads (items item text) values rest) : ∀ value ∈ values, P value := by
  rcases reads_items_iff.1 read with ⟨_, rfl⟩ | ⟨_, read⟩
  · exact fun _ member => absurd member List.not_mem_nil
  · exact read.forall each

theorem ReadsItems.transfer (look : α → γ) (look' : β → γ) {item : Reader α} {item' : Reader β}
    {text rest : List Char} {values : List α} (read : ReadsItems item text values rest)
    (each : ∀ value ∈ values, ∀ {text left}, Reads (item text) value left →
      ∃ value', look value = look' value' ∧ Reads (item' text) value' left) :
    ∃ values', values.map look = values'.map look' ∧ ReadsItems item' text values' rest := by
  induction read with
  | last first closing =>
    obtain ⟨value', same, first'⟩ := each _ List.mem_cons_self first
    exact ⟨[value'], congrArg (fun c => [c]) same, .last first' closing⟩
  | next first comma _ ih =>
    obtain ⟨here, later⟩ := List.forall_mem_cons.1 each
    obtain ⟨value', same, first'⟩ := here first
    obtain ⟨values', others, read'⟩ := ih later
    exact ⟨value' :: values', List.cons_eq_cons.2 ⟨same, others⟩, .next first' comma read'⟩

/-- Where one reader of items reads a value, the other one reads a value that looks the same. Then the
arrays look the same. -/
theorem items_transfer (look : α → γ) (look' : β → γ) {item : Reader α} {item' : Reader β}
    {text rest : List Char} {values : List α} (read : Reads (items item text) values rest)
    (each : ∀ value ∈ values, ∀ {text left}, Reads (item text) value left →
      ∃ value', look value = look' value' ∧ Reads (item' text) value' left) :
    ∃ values', values.map look = values'.map look' ∧ Reads (items item' text) values' rest := by
  rcases reads_items_iff.1 read with ⟨closing, rfl⟩ | ⟨other, read⟩
  · exact ⟨[], rfl, reads_items_iff.2 (Or.inl ⟨closing, rfl⟩)⟩
  · obtain ⟨values', same, read'⟩ := read.transfer look look' each
    exact ⟨values', same, reads_items_iff.2 (Or.inr ⟨other, read'⟩)⟩

/-! ### Objects -/

theorem reads_symbol {c : Char} {text rest : List Char} (first : skipGap text = c :: rest) :
    Reads (symbol c text) () rest := by
  unfold symbol
  split <;> rename_i next
  · cases first.symm.trans next
  · obtain ⟨rfl, rfl⟩ := List.cons.inj (first.symm.trans next)
    rw [if_pos rfl]
    exact reads_ok.2 ⟨rfl, rfl⟩

theorem skipGap_of_symbol {c : Char} {text : List Char} {parsed : Parsed Unit text}
    (read : symbol c text = .ok parsed) : skipGap text = c :: parsed.rest := by
  unfold symbol at read
  split at read
  · cases read
  · split at read
    · rename_i found same
      obtain rfl := Except.ok.inj read
      exact same ▸ found
    · cases read

/-- Reading one member gives `next` and leaves what stands behind its value. -/
def ReadsMember (name : Reader κ) (field : σ → κ → Except Fault (Reader σ)) (gathered : σ)
    (text : List Char) (next : σ) (left : List Char) : Prop :=
  ∃ key behindName reader behindColon, Reads (name text) key behindName ∧
    field gathered key = .ok reader ∧ skipGap behindName = ':' :: behindColon ∧
    Reads (reader behindColon) next left

/-- The members from the first one on, up to the closing brace, with what is gathered before and
after them. -/
inductive ReadsMembers (name : Reader κ) (field : σ → κ → Except Fault (Reader σ)) :
    σ → List Char → σ → List Char → Prop where
  | last {gathered next : σ} {text left rest : List Char}
      (member : ReadsMember name field gathered text next left)
      (closing : skipGap left = '\x7d' :: rest) : ReadsMembers name field gathered text next rest
  | next {gathered next final : σ} {text left more rest : List Char}
      (member : ReadsMember name field gathered text next left) (comma : skipGap left = ',' :: more)
      (others : ReadsMembers name field next more final rest) :
      ReadsMembers name field gathered text final rest

variable {name : Reader κ} {field : σ → κ → Except Fault (Reader σ)}

theorem ReadsMembers.reads {gathered final : σ} {text rest : List Char}
    (read : ReadsMembers name field gathered text final rest) :
    Reads (membersFrom name field gathered text) final rest := by
  induction read with
  | last member closing =>
    obtain ⟨_, _, reader, _, ⟨key, named, rfl, rfl⟩, accepted, behindName, ⟨value, found, rfl, rfl⟩⟩ :=
      member
    obtain ⟨colon, foundColon, _, rfl⟩ := reads_symbol behindName
    rw [membersFrom, named]
    simp only [accepted, foundColon, found]
    split <;> rename_i next
    · cases closing.symm.trans next
    · obtain ⟨rfl, rfl⟩ := List.cons.inj (closing.symm.trans next)
      rw [if_pos rfl]
      exact reads_ok.2 ⟨rfl, rfl⟩
  | next member comma _ later =>
    obtain ⟨_, _, reader, _, ⟨key, named, rfl, rfl⟩, accepted, behindName, ⟨value, found, rfl, rfl⟩⟩ :=
      member
    obtain ⟨colon, foundColon, _, rfl⟩ := reads_symbol behindName
    obtain ⟨others, foundOthers, rfl, rfl⟩ := later
    rw [membersFrom, named]
    simp only [accepted, foundColon, found]
    split <;> rename_i next
    · cases comma.symm.trans next
    · obtain ⟨rfl, rfl⟩ := List.cons.inj (comma.symm.trans next)
      rw [if_neg (by decide), if_pos rfl, foundOthers]
      exact reads_ok.2 ⟨rfl, rfl⟩

theorem reads_membersFrom_iff {gathered final : σ} {text rest : List Char} :
    Reads (membersFrom name field gathered text) final rest ↔
      ReadsMembers name field gathered text final rest := by
  refine ⟨fun read => ?_, ReadsMembers.reads⟩
  fun_induction membersFrom name field gathered text with
  | case1 => exact absurd read not_reads_error
  | case2 => exact absurd read not_reads_error
  | case3 => exact absurd read not_reads_error
  | case4 => exact absurd read not_reads_error
  | case5 => exact absurd read not_reads_error
  | case6 gathered text key named reader accepted colon foundColon next found more closing =>
    obtain ⟨rfl, rfl⟩ := reads_ok.1 read
    exact .last ⟨_, _, reader, _, ⟨key, named, rfl, rfl⟩, accepted, skipGap_of_symbol foundColon,
      ⟨next, found, rfl, rfl⟩⟩ closing
  | case7 => exact absurd read not_reads_error
  | case8 gathered text key named reader accepted colon foundColon next found more others foundOthers
      comma _ _ ih =>
    obtain ⟨rfl, left⟩ := reads_ok.1 read
    exact .next ⟨_, _, reader, _, ⟨key, named, rfl, rfl⟩, accepted, skipGap_of_symbol foundColon,
      ⟨next, found, rfl, rfl⟩⟩ comma (ih ⟨others, foundOthers, rfl, left⟩)
  | case9 => exact absurd read not_reads_error

theorem reads_members_iff {start final : σ} {text rest : List Char} :
    Reads (members name field start text) final rest ↔
      (skipGap text = '\x7d' :: rest ∧ final = start) ∨
      ((∀ more, skipGap text ≠ '\x7d' :: more) ∧ ReadsMembers name field start text final rest) := by
  unfold members
  split
  · rename_i closing
    rw [reads_ok]
    constructor
    · rintro ⟨rfl, rfl⟩
      exact Or.inl ⟨closing, rfl⟩
    · rintro (⟨same, rfl⟩ | ⟨other, _⟩)
      · exact ⟨rfl, (List.cons.inj (closing.symm.trans same)).2⟩
      · exact absurd closing (other _)
  · rename_i other
    rw [reads_membersFrom_iff]
    constructor
    · exact fun read => Or.inr ⟨other, read⟩
    · rintro (⟨closing, _⟩ | ⟨_, read⟩)
      · exact absurd closing (other rest)
      · exact read

inductive Reaches (field : σ → κ → Except Fault (Reader σ)) : σ → σ → Prop where
  | refl (gathered : σ) : Reaches field gathered gathered
  | step {gathered next final : σ} {key : κ} {reader : Reader σ} {text rest : List Char}
      (accepted : field gathered key = .ok reader) (read : Reads (reader text) next rest)
      (later : Reaches field next final) : Reaches field gathered final

theorem ReadsMembers.reaches {gathered final : σ} {text rest : List Char}
    (read : ReadsMembers name field gathered text final rest) : Reaches field gathered final := by
  induction read with
  | last member _ =>
    obtain ⟨_, _, _, _, _, accepted, _, value⟩ := member
    exact .step accepted value (.refl _)
  | next member _ _ ih =>
    obtain ⟨_, _, _, _, _, accepted, _, value⟩ := member
    exact .step accepted value ih

theorem Reaches.invariant {I : σ → Prop}
    (kept : ∀ {gathered key reader}, I gathered → field gathered key = .ok reader →
      ∀ {text next rest}, Reads (reader text) next rest → I next)
    {gathered final : σ} (reaches : Reaches field gathered final) (holds : I gathered) : I final := by
  induction reaches with
  | refl => exact holds
  | step accepted read _ ih => exact ih (kept holds accepted read)

theorem members_invariant {I : σ → Prop}
    (kept : ∀ {gathered key reader}, I gathered → field gathered key = .ok reader →
      ∀ {text next rest}, Reads (reader text) next rest → I next)
    {text rest : List Char} {start final : σ} (holds : I start)
    (read : Reads (members name field start text) final rest) : I final := by
  rcases reads_members_iff.1 read with ⟨_, rfl⟩ | ⟨_, read⟩
  · exact holds
  · exact read.reaches.invariant kept holds

theorem ReadsMembers.transfer (field' : τ → κ → Except Fault (Reader τ)) (S : σ → τ → Prop)
    {gathered final : σ} {text rest : List Char}
    (read : ReadsMembers name field gathered text final rest)
    (step : ∀ {gathered next gathered' key reader}, S gathered gathered' →
      field gathered key = .ok reader → Reaches field next final →
      ∀ {text left}, Reads (reader text) next left →
        ∃ reader' next', field' gathered' key = .ok reader' ∧ S next next' ∧
          Reads (reader' text) next' left)
    {gathered' : τ} (related : S gathered gathered') :
    ∃ final', S final final' ∧ ReadsMembers name field' gathered' text final' rest := by
  induction read generalizing gathered' with
  | last member closing =>
    obtain ⟨_, _, _, _, named, accepted, colon, value⟩ := member
    obtain ⟨reader', next', accepted', related', value'⟩ := step related accepted (.refl _) value
    exact ⟨next', related', .last ⟨_, _, reader', _, named, accepted', colon, value'⟩ closing⟩
  | next member comma others ih =>
    obtain ⟨_, _, _, _, named, accepted, colon, value⟩ := member
    obtain ⟨reader', next', accepted', related', value'⟩ := step related accepted others.reaches value
    obtain ⟨final', same, read'⟩ := ih step related'
    exact ⟨final', same, .next ⟨_, _, reader', _, named, accepted', colon, value'⟩ comma read'⟩

/-- One loop follows the other: each of its steps keeps the two states related. What a step leads to may
be used from the end, since the whole text was read. -/
theorem members_transfer (field' : τ → κ → Except Fault (Reader τ)) (S : σ → τ → Prop)
    {start final : σ} {text rest : List Char} (read : Reads (members name field start text) final rest)
    (step : ∀ {gathered next gathered' key reader}, S gathered gathered' →
      field gathered key = .ok reader → Reaches field next final →
      ∀ {text left}, Reads (reader text) next left →
        ∃ reader' next', field' gathered' key = .ok reader' ∧ S next next' ∧
          Reads (reader' text) next' left)
    {start' : τ} (related : S start start') :
    ∃ final', S final final' ∧ Reads (members name field' start' text) final' rest := by
  rcases reads_members_iff.1 read with ⟨closing, rfl⟩ | ⟨other, read⟩
  · exact ⟨start', related, reads_members_iff.2 (Or.inl ⟨closing, rfl⟩)⟩
  · obtain ⟨final', same, read'⟩ := read.transfer field' S step related
    exact ⟨final', same, reads_members_iff.2 (Or.inr ⟨other, read'⟩)⟩

/-! ### Whole texts -/

theorem run_eq_ok_iff {reader : Reader α} {text : String} {value : α} :
    reader.run text = .ok value ↔
      ∃ rest, Reads (reader text.toList) value rest ∧ skipGap rest = [] := by
  unfold run
  cases reader text.toList with
  | error fault => simp
  | ok parsed =>
    dsimp only
    constructor
    · intro read
      split at read
      · rename_i ended
        obtain rfl := Except.ok.inj read
        exact ⟨parsed.rest, reads_ok.2 ⟨rfl, rfl⟩, ended⟩
      · cases read
    · rintro ⟨rest, read, ended⟩
      obtain ⟨rfl, rfl⟩ := reads_ok.1 read
      rw [if_pos ended]

end TraitCatalog.Json.Reader
