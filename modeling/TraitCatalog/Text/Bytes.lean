/-!
# Bytes and the text they hold

File names, file contents and command line arguments are bytes. `Bytes.text?` is the text that
they encode, if they are UTF-8; `Bytes.display` shows any bytes, with one replacement character for
each longest ill-formed run.
-/

namespace TraitCatalog

abbrev Bytes := List UInt8

namespace Bytes

def ofText (text : String) : Bytes :=
  text.toList.flatMap String.utf8EncodeChar

/-- The text that the bytes encode, if they are valid UTF-8. -/
def text? (bytes : Bytes) : Option String :=
  String.fromUTF8? ⟨bytes.toArray⟩

/-- Stands for an ill-formed run of bytes. -/
def replacement : Char := '�'

/-- What a lead byte announces: how many bytes follow, the range of the first of them, and the bits
of the character that the lead byte itself holds. -/
structure Lead where
  owed : Nat
  low : Nat
  high : Nat
  bits : Nat

/-- The lead bytes of UTF-8. The range of the second byte excludes overlong forms, surrogates and
values above the last character. -/
def lead? (byte : Nat) : Option Lead :=
  if byte < 0x80 then some ⟨0, 0x80, 0xBF, byte⟩
  else if 0xC2 ≤ byte ∧ byte ≤ 0xDF then some ⟨1, 0x80, 0xBF, byte - 0xC0⟩
  else if byte = 0xE0 then some ⟨2, 0xA0, 0xBF, 0⟩
  else if byte = 0xED then some ⟨2, 0x80, 0x9F, 0xD⟩
  else if 0xE1 ≤ byte ∧ byte ≤ 0xEF then some ⟨2, 0x80, 0xBF, byte - 0xE0⟩
  else if byte = 0xF0 then some ⟨3, 0x90, 0xBF, 0⟩
  else if 0xF1 ≤ byte ∧ byte ≤ 0xF3 then some ⟨3, 0x80, 0xBF, byte - 0xF0⟩
  else if byte = 0xF4 then some ⟨3, 0x80, 0x8F, 4⟩
  else none

/-- Reads the bytes that a character still owes. A byte out of range is left for the next
character, and what was read so far becomes one replacement. -/
def complete (owed low high bits : Nat) (bytes : Bytes) : Char × Bytes :=
  match owed, bytes with
  | 0, rest => (Char.ofNat bits, rest)
  | _ + 1, [] => (replacement, [])
  | owed + 1, byte :: rest =>
    if low ≤ byte.toNat ∧ byte.toNat ≤ high then
      complete owed 0x80 0xBF (bits * 64 + (byte.toNat - 0x80)) rest
    else (replacement, byte :: rest)

theorem length_complete_le (owed low high bits : Nat) (bytes : Bytes) :
    (complete owed low high bits bytes).2.length ≤ bytes.length := by
  fun_induction complete owed low high bits bytes with
  | case1 => simp
  | case2 => simp
  | case3 low high bits owed byte rest inRange ih => simp only [List.length_cons]; omega
  | case4 => simp

def displayChars : Bytes → List Char
  | [] => []
  | byte :: rest =>
    match lead? byte.toNat with
    | none => replacement :: displayChars rest
    | some lead =>
      let read := complete lead.owed lead.low lead.high lead.bits rest
      read.1 :: displayChars read.2
termination_by bytes => bytes.length
decreasing_by
  · simp
  · exact Nat.lt_succ_of_le (length_complete_le ..)

def display (bytes : Bytes) : String :=
  String.ofList (displayChars bytes)

end Bytes
end TraitCatalog
