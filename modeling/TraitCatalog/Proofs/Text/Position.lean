import TraitCatalog.Text.Blank

/-!
# Places counted in bytes

The place of an ending of a text is the number of bytes before it. These places, and no other offsets,
are where a text may be cut (`from?_eq_some_iff`): they lie within it, between two characters.
-/

namespace TraitCatalog.Text

theorem byteLength_append (left right : List Char) :
    byteLength (left ++ right) = byteLength left + byteLength right := by
  induction left with
  | nil => simp [byteLength]
  | cons c left ih =>
    rw [List.cons_append, byteLength, byteLength, ih]
    omega

theorem byteLength_pos {text : List Char} (some_left : text ≠ []) : 0 < byteLength text := by
  cases text with
  | nil => exact absurd rfl some_left
  | cons c rest => exact Nat.add_pos_left c.utf8Size_pos _

theorem byteLength_eq_utf8ByteSize (text : List Char) :
    byteLength text = (String.ofList text).utf8ByteSize := by
  induction text with
  | nil => rfl
  | cons c rest ih =>
    have cut : String.ofList (c :: rest) = String.ofList [c] ++ String.ofList rest := by
      rw [← String.ofList_append]
      rfl
    rw [byteLength, ih, cut, String.utf8ByteSize_append, ← String.singleton_eq_ofList,
      String.utf8ByteSize_singleton]

theorem position_append (front rest : List Char) : position (front ++ rest) rest = byteLength front := by
  rw [position, byteLength_append]
  omega

/-! ### Endings -/

theorem byteLength_le_of_suffix {whole rest : List Char} (suffix : rest <:+ whole) :
    byteLength rest ≤ byteLength whole := by
  obtain ⟨front, rfl⟩ := suffix
  rw [byteLength_append]
  omega

theorem byteLength_lt_of_suffix {whole rest : List Char} (suffix : rest <:+ whole)
    (shorter : rest.length < whole.length) : byteLength rest < byteLength whole := by
  obtain ⟨front, rfl⟩ := suffix
  have some_front : front ≠ [] := by
    intro nothing
    simp [nothing] at shorter
  have := byteLength_pos some_front
  rw [byteLength_append]
  omega

theorem position_add {whole rest later : List Char} (suffix : rest <:+ whole) (ending : later <:+ rest) :
    position whole rest + position rest later = position whole later := by
  have := byteLength_le_of_suffix suffix
  have := byteLength_le_of_suffix ending
  unfold position
  omega

theorem position_cons {whole rest : List Char} {c : Char} (suffix : c :: rest <:+ whole) :
    position whole (c :: rest) + c.utf8Size = position whole rest := by
  have := byteLength_le_of_suffix suffix
  unfold position
  rw [byteLength] at *
  omega

theorem position_cons_left {text rest : List Char} (c : Char) (suffix : rest <:+ text) :
    position (c :: text) rest = c.utf8Size + position text rest := by
  have := byteLength_le_of_suffix suffix
  unfold position
  rw [byteLength]
  omega

theorem position_lt {whole rest later : List Char} (suffix : rest <:+ whole) (ending : later <:+ rest)
    (shorter : later.length < rest.length) : position whole rest < position whole later := by
  have := byteLength_le_of_suffix suffix
  have := byteLength_lt_of_suffix ending shorter
  unfold position
  omega

theorem position_le (whole rest : List Char) : position whole rest ≤ byteLength whole :=
  Nat.sub_le _ _

/-! ### Cutting -/

/-- The offset lies within the text and between two of its characters. -/
structure Boundary (text : List Char) (offset : Nat) : Prop where
  within : offset ≤ byteLength text
  valid : (⟨offset⟩ : String.Pos.Raw).IsValid (String.ofList text)

/-- The text from a byte on. There is none past the end or inside a character. -/
def from? : List Char → Nat → Option (List Char)
  | text, 0 => some text
  | [], _ + 1 => none
  | c :: rest, offset + 1 =>
    if c.utf8Size ≤ offset + 1 then from? rest (offset + 1 - c.utf8Size) else none

theorem boundary_iff {text : List Char} {offset : Nat} :
    Boundary text offset ↔ ∃ rest, rest <:+ text ∧ offset = position text rest := by
  constructor
  · intro boundary
    obtain ⟨front, rest, cut, place⟩ := String.Pos.Raw.isValid_iff_exists_append.1 boundary.valid
    have parts : text = front.toList ++ rest.toList := by
      rw [← String.toList_append, ← cut, String.toList_ofList]
    refine ⟨rest.toList, ⟨front.toList, parts.symm⟩, ?_⟩
    rw [parts, position_append, byteLength_eq_utf8ByteSize, String.ofList_toList]
    exact congrArg String.Pos.Raw.byteIdx place
  · intro ending
    obtain ⟨rest, ⟨front, rfl⟩, rfl⟩ := ending
    refine ⟨position_le _ _, ?_⟩
    rw [String.Pos.Raw.isValid_iff_exists_append]
    refine ⟨String.ofList front, String.ofList rest, String.ofList_append, ?_⟩
    rw [position_append, byteLength_eq_utf8ByteSize]
    rfl

theorem position_eq_zero_iff {text rest : List Char} (suffix : rest <:+ text) :
    position text rest = 0 ↔ rest = text := by
  constructor
  · intro start
    rcases Nat.lt_or_eq_of_le suffix.length_le with shorter | same
    · have := byteLength_lt_of_suffix suffix shorter
      unfold position at start
      omega
    · exact suffix.eq_of_length same
  · intro same
    rw [same]
    exact Nat.sub_self _

theorem from?_eq_some_iff {text rest : List Char} {offset : Nat} :
    from? text offset = some rest ↔ rest <:+ text ∧ offset = position text rest := by
  fun_induction from? text offset with
  | case1 text =>
    rw [Option.some.injEq]
    constructor
    · intro same
      rw [← same]
      exact ⟨List.suffix_rfl, (Nat.sub_self _).symm⟩
    · intro ending
      exact ((position_eq_zero_iff ending.1).1 ending.2.symm).symm
  | case2 offset => simp [position, byteLength]
  | case3 c text offset fits ih =>
    rw [ih, List.suffix_cons_iff]
    constructor
    · intro ending
      have := position_cons_left c ending.1
      exact ⟨.inr ending.1, by omega⟩
    · intro ending
      obtain ⟨rfl | suffix, place⟩ := ending
      · rw [(position_eq_zero_iff List.suffix_rfl).2 rfl] at place
        omega
      · have := position_cons_left c suffix
        exact ⟨suffix, by omega⟩
  | case4 c text offset inside =>
    constructor
    · intro found
      cases found
    · intro ending
      obtain ⟨suffix, place⟩ := ending
      rcases List.suffix_cons_iff.1 suffix with rfl | suffix
      · rw [(position_eq_zero_iff List.suffix_rfl).2 rfl] at place
        omega
      · have := position_cons_left c suffix
        omega

theorem isSome_from?_iff {text : List Char} {offset : Nat} :
    (from? text offset).isSome ↔ Boundary text offset := by
  simp only [Option.isSome_iff_exists, from?_eq_some_iff, boundary_iff]

end TraitCatalog.Text
