import TraitCatalog.Proofs.Script.Layout
import TraitCatalog.Proofs.Text.Position

/-!
# Scripts by byte offsets

The readers of this library walk along the endings of a text. Here they are loops over byte offsets:
each round cuts the text at an offset, which has to lie between two characters, and goes on at another
one. `scanScript` does what `parse` does, none of its slices is out of range, and every round moves
ahead (`scan_advances_in_range`).
-/

namespace TraitCatalog.Script

open Json (Parsed)
open Text (Boundary byteLength position skipBlanks skipBlanks_suffix from? from?_eq_some_iff
  isSome_from?_iff boundary_iff byteLength_le_of_suffix byteLength_lt_of_suffix position_add position_cons
  position_eq_zero_iff position_lt)

/-! ### Scans -/

/-- The slices that a scan takes, each a text and an offset, and its result. There is none if a slice is
out of range or the rounds of a loop run out. -/
structure Scan (α : Type) where
  slices : List (List Char × Nat)
  result : Option α

namespace Scan

variable {α β : Type}

instance : Monad Scan where
  pure value := ⟨[], some value⟩
  bind scan next :=
    match scan.result with
    | none => ⟨scan.slices, none⟩
    | some value => ⟨scan.slices ++ (next value).slices, (next value).result⟩

def slice (text : List Char) (offset : Nat) : Scan (List Char) :=
  ⟨[(text, offset)], from? text offset⟩

structure Gives (scan : Scan α) (value : α) : Prop where
  result : scan.result = some value
  inRange : ∀ slice ∈ scan.slices, Boundary slice.1 slice.2

theorem gives_pure (value : α) : (pure value : Scan α).Gives value :=
  ⟨rfl, fun _ member => absurd member List.not_mem_nil⟩

theorem Gives.bind {scan : Scan α} {next : α → Scan β} {value : α} {final : β}
    (first : scan.Gives value) (second : (next value).Gives final) : (scan >>= next).Gives final := by
  obtain ⟨slices, result⟩ := scan
  obtain rfl : result = some value := first.result
  exact ⟨second.result, List.forall_mem_append.2 ⟨first.inRange, second.inRange⟩⟩

theorem exists_of_result_bind {scan : Scan α} {next : α → Scan β} {final : β}
    (found : (scan >>= next).result = some final) :
    ∃ value, scan.result = some value ∧ (next value).result = some final := by
  obtain ⟨slices, _ | value⟩ := scan
  · cases found
  · exact ⟨value, rfl, found⟩

theorem gives_slice {text rest : List Char} (suffix : rest <:+ text) :
    (slice text (position text rest)).Gives rest := by
  refine ⟨from?_eq_some_iff.2 ⟨suffix, rfl⟩, List.forall_mem_singleton.2 ?_⟩
  exact boundary_iff.2 ⟨rest, suffix, rfl⟩

end Scan

open Scan (slice gives_pure gives_slice)

/-! ### Loops -/

/-- What a round of a loop does: the loop is finished, or it fails, or it goes on from an offset. -/
inductive Round (ε α β : Type) where
  | finished (value : β)
  | failed (error : ε)
  | next (item : α) (offset : Nat)

section Loops

variable {ε α β : Type}

def prepend (item : α) (result : Except ε (List α × β)) : Except ε (List α × β) :=
  result.map fun found => (item :: found.1, found.2)

def loop (round : Nat → Scan (Round ε α β)) : (rounds offset : Nat) → Scan (Except ε (List α × β))
  | 0, _ => ⟨[], none⟩
  | rounds + 1, offset => do
    match ← round offset with
    | .finished value => return .ok ([], value)
    | .failed error => return .error error
    | .next item next => return prepend item (← loop round rounds next)

/-- Every round that goes on does so further ahead, and where the text may be cut. -/
def Advances (text : List Char) (round : Nat → Scan (Round ε α β)) : Prop :=
  ∀ offset item next, (round offset).result = some (.next item next) →
    offset < next ∧ Boundary text next

def Round.Follows (text : List Char) (read : List Char → Except ε (List α × β)) (rest : List Char) :
    Round ε α β → Prop
  | .finished value => read rest = .ok ([], value)
  | .failed error => read rest = .error error
  | .next item offset =>
    ∃ later, later <:+ rest ∧ later.length < rest.length ∧ offset = position text later ∧
      read rest = prepend item (read later)

def Steps (text : List Char) (read : List Char → Except ε (List α × β))
    (round : Nat → Scan (Round ε α β)) : Prop :=
  ∀ rest, rest <:+ text → ∃ done, (round (position text rest)).Gives done ∧ done.Follows text read rest

variable {text : List Char} {read : List Char → Except ε (List α × β)}
  {round : Nat → Scan (Round ε α β)}

theorem Steps.gives_loop (steps : Steps text read round) {rounds : Nat} {rest : List Char}
    (suffix : rest <:+ text) (enough : byteLength rest < rounds) :
    (loop round rounds (position text rest)).Gives (read rest) := by
  induction rounds generalizing rest with
  | zero => omega
  | succ rounds ih =>
    obtain ⟨done, gives, follows⟩ := steps rest suffix
    refine gives.bind ?_
    cases done with
    | finished value =>
      rw [show read rest = .ok ([], value) from follows]
      exact gives_pure _
    | failed error =>
      rw [show read rest = .error error from follows]
      exact gives_pure _
    | next item offset =>
      -- Fewer bytes are left behind the round, so the rounds that are left are enough for them.
      obtain ⟨later, ending, shorter, rfl, same⟩ := follows
      have := byteLength_lt_of_suffix ending shorter
      rw [same]
      exact (ih (ending.trans suffix) (by omega)).bind (gives_pure _)

theorem Steps.advances (steps : Steps text read round)
    (cuts : ∀ offset, ∃ more, round offset = slice text offset >>= more) : Advances text round := by
  intro offset item next found
  obtain ⟨more, same⟩ := cuts offset
  obtain ⟨rest, cut, -⟩ := Scan.exists_of_result_bind (same ▸ found)
  obtain ⟨suffix, rfl⟩ := from?_eq_some_iff.1 cut
  obtain ⟨done, gives, follows⟩ := steps rest suffix
  obtain rfl := Option.some.inj (gives.result.symm.trans found)
  obtain ⟨later, ending, shorter, rfl, -⟩ := follows
  exact ⟨position_lt suffix ending shorter, boundary_iff.2 ⟨later, ending.trans suffix, rfl⟩⟩

end Loops

/-! ### Arrays -/

def skipFrom (text : List Char) (offset : Nat) : Scan Nat := do
  let rest ← slice text offset
  return offset + position rest (skipBlanks rest)

def behindLiteral (text : List Char) (item : Descriptor) (offset : Nat) :
    Scan (Round BodyError Descriptor Nat) := do
  let behind ← skipFrom text offset
  match ← slice text behind with
  | [] => return .failed .unterminated
  | c :: _ =>
    if c = ',' then return .next item (← skipFrom text (behind + 1))
    else if c = ']' then return .next item behind
    else return .failed (.unexpectedAfter c behind)

def arrayRound (text : List Char) (offset : Nat) : Scan (Round BodyError Descriptor Nat) := do
  match ← slice text offset with
  | [] => return .failed .unterminated
  | c :: _ =>
    if c = ']' then return .finished (offset + 1)
    else if c = '"' then
      let rest ← slice text offset
      match Json.Quoted.quoted Json.Quoted.body rest with
      | .error fault => return .failed (.badLiteral offset fault)
      | .ok literal =>
        behindLiteral text (String.ofList literal.value) (offset + position rest literal.rest)
    else return .failed (.unexpectedItem c offset)

def scanArray (text : List Char) : Scan (Except BodyError (List Descriptor × Nat)) := do
  loop (arrayRound text) (byteLength text + 1) (← skipFrom text 0)

def placed {α : Type} {rest : List Char} (text : List Char) (read : Except BodyError (Parsed α rest)) :
    Except BodyError (α × Nat) :=
  read.map fun parsed => (parsed.value, position text parsed.rest)

theorem gives_skipFrom {text rest : List Char} (suffix : rest <:+ text) :
    (skipFrom text (position text rest)).Gives (position text (skipBlanks rest)) := by
  rw [← position_add suffix (skipBlanks_suffix rest)]
  exact (gives_slice suffix).bind (gives_pure _)

theorem literal_rest_suffix {rest : List Char} {literal : Parsed (List Char) rest}
    (read : Json.Quoted.body rest = .ok literal) : literal.rest <:+ '"' :: rest := by
  obtain ⟨front, -, same⟩ := exists_literal read
  exact ⟨front, same.symm⟩

theorem behindLiteral_follows {text rest : List Char} {literal : Parsed (List Char) rest}
    (suffix : '"' :: rest <:+ text) (read : Json.Quoted.body rest = .ok literal) :
    ∃ done,
      (behindLiteral text (String.ofList literal.value) (position text literal.rest)).Gives done ∧
      done.Follows text (fun ending => placed text (descriptors text ending)) ('"' :: rest) := by
  have behind := literal_rest_suffix read
  have skipped := gives_skipFrom (behind.trans suffix)
  have ending := (skipBlanks_suffix literal.rest).trans behind
  have next := gives_slice (ending.trans suffix)
  have shorter := Nat.lt_of_le_of_lt (skipBlanks_suffix literal.rest).length_le literal.shorter
  unfold behindLiteral Round.Follows
  cases stopped : skipBlanks literal.rest with
  | nil =>
    rw [stopped] at next skipped
    refine ⟨.failed .unterminated, skipped.bind (next.bind (gives_pure _)), ?_⟩
    simp only [descriptors_quote_end read stopped]
    rfl
  | cons c more =>
    rw [stopped] at next skipped ending shorter
    have tail : more <:+ '"' :: rest := (List.suffix_cons c more).trans ending
    simp only [descriptors_quote read stopped]
    by_cases comma : c = ','
    · subst comma
      have later : skipBlanks more <:+ '"' :: rest := (skipBlanks_suffix more).trans tail
      have onward := gives_skipFrom (tail.trans suffix)
      rw [← position_cons (ending.trans suffix)] at onward
      refine ⟨.next _ _, skipped.bind (next.bind (onward.bind (gives_pure _))),
        skipBlanks more, later, ?_, rfl, ?_⟩
      · have := (skipBlanks_suffix more).length_le
        simp only [List.length_cons] at *
        omega
      · rw [if_neg (by decide), if_pos rfl]
        cases descriptors text (skipBlanks more) <;> rfl
    · by_cases bracket : c = ']'
      · subst bracket
        refine ⟨.next _ _, skipped.bind (next.bind (gives_pure _)),
          ']' :: more, ending, Nat.lt_succ_of_lt shorter, rfl, ?_⟩
        rw [if_pos rfl, descriptors, if_pos rfl]
        rfl
      · refine ⟨.failed (.unexpectedAfter c (position text (c :: more))),
          skipped.bind (next.bind ?_), ?_⟩
        · dsimp only
          rw [if_neg comma, if_neg bracket]
          exact gives_pure _
        · rw [if_neg bracket, if_neg comma]
          rfl

theorem arrayRound_steps (text : List Char) :
    Steps text (fun rest => placed text (descriptors text rest)) (arrayRound text) := by
  intro rest suffix
  have start := gives_slice suffix
  unfold arrayRound
  cases rest with
  | nil =>
    refine ⟨.failed .unterminated, start.bind (gives_pure _), ?_⟩
    change placed text (descriptors text []) = .error _
    rw [descriptors]
    rfl
  | cons c rest =>
    by_cases bracket : c = ']'
    · subst bracket
      refine ⟨.finished _, start.bind (gives_pure _), ?_⟩
      change placed text (descriptors text (']' :: rest)) = .ok _
      rw [descriptors, if_pos rfl]
      exact congrArg (fun place => Except.ok ([], place)) (position_cons suffix).symm
    · by_cases quote : c = '"'
      · subst quote
        have literals : Json.Quoted.quoted Json.Quoted.body ('"' :: rest) =
            (Json.Quoted.body rest).map .behind := rfl
        cases read : Json.Quoted.body rest with
        | error fault =>
          refine ⟨.failed (.badLiteral (position text ('"' :: rest)) fault),
            start.bind (start.bind ?_), ?_⟩
          · rw [literals, read]
            exact gives_pure _
          · change placed text (descriptors text ('"' :: rest)) = .error _
            rw [descriptors, if_neg (by decide), if_pos rfl, read]
            rfl
        | ok literal =>
          obtain ⟨done, gives, follows⟩ := behindLiteral_follows suffix read
          refine ⟨done, start.bind (start.bind ?_), follows⟩
          rw [literals, read]
          rwa [← position_add suffix (literal_rest_suffix read)] at gives
      · refine ⟨.failed (.unexpectedItem c (position text (c :: rest))), start.bind ?_, ?_⟩
        · dsimp only
          rw [if_neg bracket, if_neg quote]
          exact gives_pure _
        · change placed text (descriptors text (c :: rest)) = .error _
          rw [descriptors, if_neg bracket, if_neg quote]
          rfl

theorem gives_scanArray (text : List Char) : (scanArray text).Gives (placed text (body text)) := by
  have skipped := gives_skipFrom (List.suffix_refl text)
  rw [(position_eq_zero_iff (List.suffix_refl text)).2 rfl] at skipped
  have same : placed text (body text) = placed text (descriptors text (skipBlanks text)) := by
    unfold body
    cases descriptors text (skipBlanks text) <;> rfl
  have suffix := skipBlanks_suffix text
  have enough := Nat.lt_succ_of_le (byteLength_le_of_suffix suffix)
  rw [same]
  exact skipped.bind ((arrayRound_steps text).gives_loop suffix enough)

/-! ### Scripts -/

def behindHeader (source library : List Char) (offset : Nat) :
    Scan (Round Error Contribution Unit) := do
  let rest ← slice source offset
  match ← scanArray rest with
  | .error error => return .failed (.badBody (String.ofList library) error)
  | .ok (descriptors, consumed) =>
    return .next ⟨String.ofList library, descriptors⟩ (offset + consumed)

def scriptRound (source : List Char) (cursor : Nat) : Scan (Round Error Contribution Unit) := do
  let tail ← slice source cursor
  match find? tail with
  | none => return .finished ()
  | some header =>
    if header.library.isEmpty then
      return .failed (.emptyLibrary (cursor + position tail header.start))
    else behindHeader source header.library (cursor + position tail header.body)

/-- The contributions of a script, found by moving a cursor from zero on. -/
def scanScript (source : String) : Scan (Except Error (List Contribution)) := do
  match ← loop (scriptRound source.toList) (byteLength source.toList + 1) 0 with
  | .ok ([], ()) => return .error .noAssignment
  | .ok (contributions, ()) => return .ok contributions
  | .error error => return .error error

theorem Header.start_suffix {text : List Char} {header : Header text}
    (found : find? text = some header) : header.start <:+ text := by
  obtain ⟨filler, same, -⟩ := exists_filler_of_find? found
  exact ⟨filler, same.symm⟩

theorem Header.body_suffix {text : List Char} {header : Header text}
    (found : find? text = some header) : header.body <:+ text := by
  obtain ⟨-, -, -, here⟩ := exists_filler_of_find? found
  obtain ⟨front, -, same⟩ := header?_eq_some_iff.1 here
  have behind : header.body <:+ header.start := ⟨front, same.symm⟩
  exact behind.trans (start_suffix found)

theorem behindHeader_follows {source tail : List Char} {header : Header tail} (suffix : tail <:+ source)
    (found : find? tail = some header) (named : ¬header.library.isEmpty) :
    ∃ done, (behindHeader source header.library (position source header.body)).Gives done ∧
      done.Follows source (fun ending => (assignments source ending).map (·, ())) tail := by
  have behind := (Header.body_suffix found).trans suffix
  have start := gives_slice behind
  have array := gives_scanArray header.body
  unfold behindHeader Round.Follows
  cases read : body header.body with
  | error error =>
    rw [read] at array
    refine ⟨.failed (.badBody (String.ofList header.library) error),
      start.bind (array.bind (gives_pure _)), ?_⟩
    change (assignments source tail).map (·, ()) = .error _
    rw [assignments, found]
    simp only [if_neg named, read]
    rfl
  | ok parsed =>
    rw [read] at array
    obtain ⟨listing, -, same⟩ := reads_body_iff.1 ⟨parsed, read, rfl, rfl⟩
    have later : parsed.rest <:+ header.body := ⟨listing, same.symm⟩
    refine ⟨.next _ _, start.bind (array.bind (gives_pure _)), parsed.rest,
      later.trans (Header.body_suffix found), Nat.lt_trans parsed.shorter header.shorter,
      position_add behind later, ?_⟩
    change (assignments source tail).map (·, ()) = _
    rw [assignments, found]
    simp only [if_neg named, read]
    cases assignments source parsed.rest <;> rfl

theorem scriptRound_steps (source : List Char) :
    Steps source (fun tail => (assignments source tail).map (·, ())) (scriptRound source) := by
  intro tail suffix
  have start := gives_slice suffix
  unfold scriptRound
  cases found : find? tail with
  | none =>
    refine ⟨.finished (), start.bind ?_, ?_⟩
    · rw [found]
      exact gives_pure _
    · change (assignments source tail).map (·, ()) = .ok _
      rw [assignments, found]
      rfl
  | some header =>
    by_cases unnamed : header.library.isEmpty
    · refine ⟨.failed (.emptyLibrary (position source header.start)), start.bind ?_, ?_⟩
      · rw [found, ← position_add suffix (Header.start_suffix found)]
        dsimp only
        rw [if_pos unnamed]
        exact gives_pure _
      · change (assignments source tail).map (·, ()) = .error _
        rw [assignments, found]
        simp only [if_pos unnamed]
        rfl
    · obtain ⟨done, gives, follows⟩ := behindHeader_follows suffix found unnamed
      refine ⟨done, start.bind ?_, follows⟩
      rw [found]
      dsimp only
      rwa [if_neg unnamed, position_add suffix (Header.body_suffix found)]

theorem gives_scanScript (source : String) : (scanScript source).Gives (parse source) := by
  have start := (position_eq_zero_iff (List.suffix_refl source.toList)).2 rfl
  have gives := (scriptRound_steps source.toList).gives_loop (List.suffix_refl _) (Nat.lt_succ_self _)
  rw [start] at gives
  refine gives.bind ?_
  unfold parse
  cases assignments source.toList source.toList with
  | error error => exact gives_pure _
  | ok contributions => cases contributions <;> exact gives_pure _

/-- Scripts and arrays can be read by offsets alone, whether or not they are accepted. A slice fails
exactly where a text may not be cut, and no scan takes such a slice. Every round that goes on moves
ahead, so no loop runs out of its rounds. -/
theorem scan_advances_in_range (source : String) :
    (scanScript source).Gives (parse source) ∧
    Advances source.toList (scriptRound source.toList) ∧
    ∀ text,
      (scanArray text).Gives (placed text (body text)) ∧ Advances text (arrayRound text) ∧
      ∀ offset, (slice text offset).result.isSome ↔ Boundary text offset := by
  refine ⟨gives_scanScript source, ?_, fun text => ⟨gives_scanArray text, ?_, ?_⟩⟩
  · exact (scriptRound_steps source.toList).advances fun offset => ⟨_, rfl⟩
  · exact (arrayRound_steps text).advances fun offset => ⟨_, rfl⟩
  · intro offset
    exact isSome_from?_iff

end TraitCatalog.Script
