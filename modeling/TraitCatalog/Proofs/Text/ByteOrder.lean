import TraitCatalog.Text.Bytes

/-!
# Texts and their bytes are ordered alike

Names are compared character by character, files and outputs byte by byte. UTF-8 makes the two orders
one (`Bytes.ofText_lt_iff`): the encodings of two characters differ within both of them, and the
greater character has the greater byte there. The bytes of a text hold this text and no other
(`Bytes.text?_eq_some_iff`), and those below 0x80 are its ASCII characters (`Bytes.ofNat_mem_ofText_iff`).
So names that increase as texts increase as bytes (`increasing_of_pairwise`).
-/

namespace TraitCatalog.Bytes

theorem byteArray_ofText (text : String) :
    (⟨(ofText text).toArray⟩ : ByteArray) = text.toByteArray := by
  rw [← String.utf8Encode_toList]
  apply ByteArray.ext
  simp [List.utf8Encode, ofText]

theorem text?_ofText (text : String) : text? (ofText text) = some text := by
  have valid : text.toByteArray.IsValidUTF8 := text.isValidUTF8
  unfold text?
  rw [byteArray_ofText]
  simp [String.fromUTF8?, valid, String.fromUTF8]

theorem text?_eq_some_iff {bytes : Bytes} {text : String} :
    text? bytes = some text ↔ bytes = ofText text := by
  refine ⟨fun found => ?_, fun same => same ▸ text?_ofText text⟩
  have encoded := byteArray_ofText text
  unfold text? String.fromUTF8? at found
  split at found
  · obtain rfl := Option.some.inj found
    have same : (⟨(ofText _).toArray⟩ : ByteArray) = ⟨bytes.toArray⟩ := encoded
    have lists := congrArg (fun array : ByteArray => array.data.toList) same
    simpa using lists.symm
  · cases found

theorem ofText_inj {left right : String} : ofText left = ofText right ↔ left = right := by
  refine ⟨fun same => ?_, congrArg ofText⟩
  have read := text?_ofText left
  rw [same, text?_ofText] at read
  exact (Option.some.inj read).symm

/-! ### ASCII -/

theorem le_of_mem_encodeChar {c : Char} (large : 0x7f < c.toNat) :
    ∀ byte ∈ String.utf8EncodeChar c, 0x80 ≤ byte.toNat := by
  unfold String.utf8EncodeChar
  dsimp only
  rw [show c.val.toNat = c.toNat from rfl, if_neg (Nat.not_le.2 large)]
  split
  · simp only [List.forall_mem_cons, UInt8.toNat_ofNat']
    exact ⟨by omega, by omega, fun _ member => absurd member List.not_mem_nil⟩
  · split
    · simp only [List.forall_mem_cons, UInt8.toNat_ofNat']
      exact ⟨by omega, by omega, by omega, fun _ member => absurd member List.not_mem_nil⟩
    · simp only [List.forall_mem_cons, UInt8.toNat_ofNat']
      exact ⟨by omega, by omega, by omega, by omega, fun _ member => absurd member List.not_mem_nil⟩

theorem encodeChar_of_ascii {c : Char} (ascii : c.toNat ≤ 0x7f) :
    String.utf8EncodeChar c = [UInt8.ofNat c.toNat] :=
  if_pos ascii

/-- An ASCII character is one byte, and this byte stands for nothing else. -/
theorem ofNat_mem_ofText_iff {c : Char} (ascii : c.toNat ≤ 0x7f) {text : String} :
    UInt8.ofNat c.toNat ∈ ofText text ↔ c ∈ text.toList := by
  have value : (UInt8.ofNat c.toNat).toNat = c.toNat := by
    rw [UInt8.toNat_ofNat']
    omega
  rw [ofText, List.mem_flatMap]
  constructor
  · rintro ⟨d, member, inside⟩
    by_cases small : d.toNat ≤ 0x7f
    · rw [encodeChar_of_ascii small, List.mem_singleton] at inside
      have same := congrArg UInt8.toNat inside
      rw [value, UInt8.toNat_ofNat'] at same
      exact Char.toNat_inj.1 (show c.toNat = d.toNat by omega) ▸ member
    · have large := le_of_mem_encodeChar (Nat.not_le.1 small) _ inside
      omega
  · intro member
    refine ⟨c, member, ?_⟩
    rw [encodeChar_of_ascii ascii]
    exact List.mem_cons_self

/-! ### Order -/

theorem ofNat_cons_lt {m n : Nat} {left right : Bytes} (bound : n < 256) (le : m ≤ n)
    (later : m = n → left < right) : UInt8.ofNat m :: left < UInt8.ofNat n :: right := by
  rw [List.cons_lt_cons_iff, UInt8.ofNat_lt_iff_lt (Nat.lt_of_le_of_lt le bound) bound]
  rcases Nat.lt_or_eq_of_le le with less | same
  · exact Or.inl less
  · exact Or.inr ⟨congrArg UInt8.ofNat same, later same⟩

theorem ofNat_cons_lt_of_lt {m n : Nat} (left right : Bytes) (bound : n < 256) (less : m < n) :
    UInt8.ofNat m :: left < UInt8.ofNat n :: right :=
  ofNat_cons_lt bound (Nat.le_of_lt less) fun same => absurd same (Nat.ne_of_lt less)

/-- The encodings of two characters are ordered before either of them ends. -/
theorem encodeChar_append_lt {c d : Char} (less : c < d) (left right : Bytes) :
    String.utf8EncodeChar c ++ left < String.utf8EncodeChar d ++ right := by
  have order : c.val.toNat < d.val.toNat := less
  have bound : d.val.toNat < 0x110000 := d.valid.elim (fun low => by omega) fun high => by omega
  unfold String.utf8EncodeChar
  dsimp only
  generalize c.val.toNat = m at *
  generalize d.val.toNat = n at *
  -- A longer encoding has the greater first byte; of two equally long ones, the bytes are digits.
  split
  · split
    · exact ofNat_cons_lt_of_lt _ _ (by omega) (by omega)
    · split
      · exact ofNat_cons_lt_of_lt _ _ (by omega) (by omega)
      · split <;> exact ofNat_cons_lt_of_lt _ _ (by omega) (by omega)
  · rw [if_neg (show ¬n ≤ 0x7f by omega)]
    split
    · split
      · refine ofNat_cons_lt (by omega) (by omega) fun first => ?_
        exact ofNat_cons_lt_of_lt _ _ (by omega) (by omega)
      · split <;> exact ofNat_cons_lt_of_lt _ _ (by omega) (by omega)
    · rw [if_neg (show ¬n ≤ 0x7ff by omega)]
      split
      · split
        · refine ofNat_cons_lt (by omega) (by omega) fun first => ?_
          refine ofNat_cons_lt (by omega) (by omega) fun second => ?_
          exact ofNat_cons_lt_of_lt _ _ (by omega) (by omega)
        · exact ofNat_cons_lt_of_lt _ _ (by omega) (by omega)
      · rw [if_neg (show ¬n ≤ 0xffff by omega)]
        refine ofNat_cons_lt (by omega) (by omega) fun first => ?_
        refine ofNat_cons_lt (by omega) (by omega) fun second => ?_
        refine ofNat_cons_lt (by omega) (by omega) fun third => ?_
        exact ofNat_cons_lt_of_lt _ _ (by omega) (by omega)

theorem flatMap_encodeChar_lt {left right : List Char} (less : left < right) :
    left.flatMap String.utf8EncodeChar < right.flatMap String.utf8EncodeChar := by
  induction left generalizing right with
  | nil =>
    cases right with
    | nil => exact absurd less (List.lt_irrefl _)
    | cons d right =>
      cases encoded : (d :: right).flatMap String.utf8EncodeChar with
      | nil => simp [String.utf8EncodeChar_ne_nil] at encoded
      | cons byte bytes => exact List.nil_lt_cons byte bytes
  | cons c left ih =>
    cases right with
    | nil => exact absurd less (List.not_lt_nil _)
    | cons d right =>
      rw [List.flatMap_cons, List.flatMap_cons]
      rcases List.cons_lt_cons_iff.1 less with first | ⟨rfl, later⟩
      · exact encodeChar_append_lt first _ _
      · exact List.append_left_lt (ih later)

/-- Comparing texts is comparing their bytes. -/
theorem ofText_lt_iff {left right : String} : ofText left < ofText right ↔ left < right := by
  constructor
  · intro less
    rcases Std.lt_trichotomy left right with below | same | above
    · exact below
    · exact absurd (same ▸ less) (List.lt_irrefl _)
    · exact absurd less (List.lt_asymm (flatMap_encodeChar_lt above))
  · exact fun less => flatMap_encodeChar_lt less

end TraitCatalog.Bytes

namespace TraitCatalog

/-- Names in strictly increasing order of their bytes, so that none of them stands twice. -/
structure Increasing (names : List String) : Prop where
  ordered : (names.map Bytes.ofText).Pairwise (· < ·)
  distinct : names.Nodup

theorem increasing_of_pairwise {names : List String} (less : names.Pairwise (· < ·)) :
    Increasing names := by
  constructor
  · exact List.pairwise_map.2 (less.imp Bytes.ofText_lt_iff.2)
  · refine less.imp ?_
    rintro a _ below rfl
    exact Std.lt_irrefl below

end TraitCatalog
