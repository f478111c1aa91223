import TraitCatalog.Text.Bytes

/-!
# Showing bytes

`Bytes.display` shows whatever bytes hold. Bytes that are a text show this text and nothing is replaced
(`display_ofText`): what a character owes is read to its end, and no lead byte of a character is refused
with the bytes that its encoding has behind it.
-/

namespace TraitCatalog.Bytes

theorem toNat_ofNat_of_lt {n : Nat} (small : n < 256) : (UInt8.ofNat n).toNat = n := by
  rw [UInt8.toNat_ofNat']
  omega

theorem complete_follow {owed low high bits k : Nat} {rest : Bytes}
    (inRange : low ≤ k % 64 + 128 ∧ k % 64 + 128 ≤ high) :
    complete (owed + 1) low high bits (UInt8.ofNat (k % 64 + 128) :: rest) =
      complete owed 0x80 0xBF (bits * 64 + k % 64) rest := by
  rw [complete, toNat_ofNat_of_lt (by omega), if_pos inRange, Nat.add_sub_cancel]

theorem displayChars_cons {byte : UInt8} {bytes rest : Bytes} {c : Char} {lead : Lead}
    (leads : lead? byte.toNat = some lead)
    (read : complete lead.owed lead.low lead.high lead.bits bytes = (c, rest)) :
    displayChars (byte :: bytes) = c :: displayChars rest := by
  rw [displayChars, leads]
  simp only [read]

theorem lead?_of_three {bits second : Nat} (small : bits < 16) (follows : second ≤ 0xBF)
    (least : 0x80 ≤ second) (long : bits = 0 → 0xA0 ≤ second) (character : bits = 13 → second ≤ 0x9F) :
    ∃ low high, lead? (bits + 0xE0) = some ⟨2, low, high, bits⟩ ∧ low ≤ second ∧ second ≤ high := by
  unfold lead?
  rw [if_neg (by omega), if_neg (by omega)]
  split
  · obtain rfl : bits = 0 := by omega
    exact ⟨_, _, rfl, long rfl, follows⟩
  · split
    · obtain rfl : bits = 13 := by omega
      exact ⟨_, _, rfl, least, character rfl⟩
    · rw [if_pos (by omega), Nat.add_sub_cancel]
      exact ⟨_, _, rfl, least, follows⟩

theorem lead?_of_four {bits second : Nat} (small : bits < 5) (follows : second ≤ 0xBF)
    (least : 0x80 ≤ second) (long : bits = 0 → 0x90 ≤ second) (character : bits = 4 → second ≤ 0x8F) :
    ∃ low high, lead? (bits + 0xF0) = some ⟨3, low, high, bits⟩ ∧ low ≤ second ∧ second ≤ high := by
  unfold lead?
  rw [if_neg (by omega), if_neg (by omega), if_neg (by omega), if_neg (by omega), if_neg (by omega)]
  split
  · obtain rfl : bits = 0 := by omega
    exact ⟨_, _, rfl, long rfl, follows⟩
  · split
    · rw [Nat.add_sub_cancel]
      exact ⟨_, _, rfl, least, follows⟩
    · obtain rfl : bits = 4 := by omega
      exact ⟨_, _, rfl, least, character rfl⟩

theorem displayChars_encodeChar_append (c : Char) (rest : Bytes) :
    displayChars (String.utf8EncodeChar c ++ rest) = c :: displayChars rest := by
  have valid : c.val.toNat < 0xD800 ∨ 0xDFFF < c.val.toNat ∧ c.val.toNat < 0x110000 := c.valid
  have same : Char.ofNat c.val.toNat = c := Char.ofNat_toNat c
  unfold String.utf8EncodeChar
  dsimp only
  generalize c.val.toNat = n at *
  split
  · have leads : lead? (UInt8.ofNat n).toNat = some ⟨0, 0x80, 0xBF, n⟩ := by
      rw [toNat_ofNat_of_lt (by omega), lead?, if_pos (by omega)]
    exact displayChars_cons leads (by rw [complete, same]; rfl)
  · split
    · have leads : lead? (UInt8.ofNat (n / 64 % 32 + 192)).toNat = some ⟨1, 0x80, 0xBF, n / 64 % 32⟩ := by
        rw [toNat_ofNat_of_lt (by omega), lead?, if_neg (by omega), if_pos (by omega),
          Nat.add_sub_cancel]
      have read : complete 1 0x80 0xBF (n / 64 % 32) (UInt8.ofNat (n % 64 + 128) :: rest) = (c, rest) := by
        rw [complete_follow (by omega), show n / 64 % 32 * 64 + n % 64 = n by omega, complete, same]
      exact displayChars_cons leads read
    · split
      · obtain ⟨low, high, leads, inRange⟩ := @lead?_of_three (n / 4096 % 16) (n / 64 % 64 + 128)
          (by omega) (by omega) (by omega) (by omega) (by omega)
        rw [← toNat_ofNat_of_lt (show n / 4096 % 16 + 224 < 256 by omega)] at leads
        refine displayChars_cons leads
          ((complete_follow inRange).trans ((complete_follow (by omega)).trans ?_))
        rw [show (n / 4096 % 16 * 64 + n / 64 % 64) * 64 + n % 64 = n by omega, complete, same]
        rfl
      · obtain ⟨low, high, leads, inRange⟩ := @lead?_of_four (n / 262144 % 8) (n / 4096 % 64 + 128)
          (by omega) (by omega) (by omega) (by omega) (by omega)
        rw [← toNat_ofNat_of_lt (show n / 262144 % 8 + 240 < 256 by omega)] at leads
        refine displayChars_cons leads ((complete_follow inRange).trans
          ((complete_follow (by omega)).trans ((complete_follow (by omega)).trans ?_)))
        rw [show ((n / 262144 % 8 * 64 + n / 4096 % 64) * 64 + n / 64 % 64) * 64 + n % 64 = n by omega,
          complete, same]
        rfl

theorem displayChars_flatMap (text : List Char) :
    displayChars (text.flatMap String.utf8EncodeChar) = text := by
  induction text with
  | nil => rw [List.flatMap_nil, displayChars]
  | cons c rest ih => rw [List.flatMap_cons, displayChars_encodeChar_append, ih]

theorem display_ofText (text : String) : display (ofText text) = text := by
  rw [display, ofText, displayChars_flatMap, String.ofList_toList]

end TraitCatalog.Bytes
