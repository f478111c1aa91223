import TraitCatalog.Json.Quoted

/-!
# What a string literal spells

`Spells` is the grammar of JSON string literals between their quotes, with the text that they stand
for. `Quoted.body` accepts this grammar and nothing else (`reads_body_iff`), and `Quoted.write` writes
within it (`spells_flatMap_escaped`).
-/

namespace TraitCatalog.Json

/-! ### What a reading leaves -/

def Reads {ε α : Type} {text : List Char} (result : Except ε (Parsed α text)) (value : α)
    (rest : List Char) : Prop :=
  ∃ parsed, result = .ok parsed ∧ parsed.value = value ∧ parsed.rest = rest

section Reads

variable {ε α β : Type} {text text' : List Char} {value : α} {rest : List Char}

@[simp]
theorem reads_ok {parsed : Parsed α text} :
    Reads (.ok parsed : Except ε (Parsed α text)) value rest ↔
      parsed.value = value ∧ parsed.rest = rest := by
  constructor
  · rintro ⟨_, same, read⟩
    cases same
    exact read
  · intro read
    exact ⟨parsed, rfl, read⟩

@[simp]
theorem not_reads_error {error : ε} :
    ¬Reads (.error error : Except ε (Parsed α text)) value rest := by
  rintro ⟨_, same, _⟩
  cases same

theorem Reads.unique {result : Except ε (Parsed α text)} {value' : α} {rest' : List Char}
    (first : Reads result value rest) (second : Reads result value' rest') :
    value = value' ∧ rest = rest' := by
  obtain ⟨parsed, same, rfl, rfl⟩ := first
  rw [same] at second
  exact reads_ok.1 second

@[simp]
theorem reads_behind {c : Char} {result : Except ε (Parsed α text)} :
    Reads (result.map (Parsed.behind (c := c))) value rest ↔ Reads result value rest := by
  cases result <;> simp [Except.map, Parsed.behind]

@[simp]
theorem reads_within {bound : text.length ≤ text'.length} {result : Except ε (Parsed α text)} :
    Reads (result.map (Parsed.within · bound)) value rest ↔ Reads result value rest := by
  cases result <;> simp [Except.map, Parsed.within]

theorem reads_map {f : α → β} {result : Except ε (Parsed α text)} {value : β} :
    Reads (result.map (Parsed.map f)) value rest ↔ ∃ old, Reads result old rest ∧ f old = value := by
  cases result with
  | error error => simp [Except.map]
  | ok parsed =>
    simp only [Except.map, reads_ok, Parsed.map]
    constructor
    · rintro ⟨same, left⟩
      exact ⟨parsed.value, ⟨rfl, left⟩, same⟩
    · rintro ⟨old, ⟨rfl, left⟩, same⟩
      exact ⟨same, left⟩

theorem reads_map_behind {c : Char} {f : α → β} {result : Except ε (Parsed α text)} {value : β} :
    Reads (result.map fun parsed => (parsed.map f).behind (c := c)) value rest ↔
      ∃ old, Reads result old rest ∧ f old = value := by
  have two : (result.map fun parsed => (parsed.map f).behind (c := c)) =
      (result.map (Parsed.map f)).map Parsed.behind := by
    cases result <;> rfl
  rw [two, reads_behind, reads_map]

@[simp]
theorem reads_afterGap {reader : Reader α} {text : List Char} :
    Reads (reader.afterGap text) value rest ↔ Reads (reader (skipGap text)) value rest :=
  reads_within

end Reads

namespace Quoted

/-! ### The grammar -/

def HexDigit (c : Char) (n : Nat) : Prop :=
  "0123456789abcdef".toList[n]? = some c ∨ "0123456789ABCDEF".toList[n]? = some c

inductive HexQuad : List Char → Nat → Prop where
  | digits {a b c d : Char} {i j k l : Nat} (first : HexDigit a i) (second : HexDigit b j)
      (third : HexDigit c k) (fourth : HexDigit d l) :
      HexQuad [a, b, c, d] (((i * 16 + j) * 16 + k) * 16 + l)

def shortEscapes : List (Char × Char) :=
  [('"', '"'), ('\\', '\\'), ('/', '/'), ('b', '\x08'), ('f', '\x0c'), ('n', '\n'), ('r', '\r'),
    ('t', '\t')]

/-- The spellings of one character. Half of a surrogate pair is no character, so it is not spelled
by an escape of its own. -/
inductive SpellsChar : List Char → Char → Prop where
  | plain {c : Char} (quote : c ≠ '"') (backslash : c ≠ '\\') (printable : 0x20 ≤ c.toNat) :
      SpellsChar [c] c
  | short {letter c : Char} (listed : (letter, c) ∈ shortEscapes) : SpellsChar ['\\', letter] c
  | unit {digits : List Char} {c : Char} (number : HexQuad digits c.toNat) :
      SpellsChar ('\\' :: 'u' :: digits) c
  | pair {first second : List Char} {leading trailing : Nat} {c : Char}
      (high : HexQuad first leading) (low : HexQuad second trailing)
      (highRange : 0xD800 ≤ leading ∧ leading ≤ 0xDBFF)
      (lowRange : 0xDC00 ≤ trailing ∧ trailing ≤ 0xDFFF)
      (number : c.toNat = 0x10000 + (leading - 0xD800) * 0x400 + (trailing - 0xDC00)) :
      SpellsChar ('\\' :: 'u' :: first ++ '\\' :: 'u' :: second) c

inductive Spells : List Char → List Char → Prop where
  | nil : Spells [] []
  | cons {spelling rest text : List Char} {c : Char} (first : SpellsChar spelling c)
      (others : Spells rest text) : Spells (spelling ++ rest) (c :: text)

/-! ### Leaves -/

theorem hexValue?_of_hexDigit {c : Char} {n : Nat} (digit : HexDigit c n) :
    hexValue? c = some n := by
  have table : ∀ k < 16, ("0123456789abcdef".toList[k]?).bind hexValue? = some k ∧
      ("0123456789ABCDEF".toList[k]?).bind hexValue? = some k := by decide
  rcases digit with found | found
  · have values := (table n (List.getElem?_eq_some_iff.1 found).1).1
    rw [found] at values
    exact values
  · have values := (table n (List.getElem?_eq_some_iff.1 found).1).2
    rw [found] at values
    exact values

theorem hexDigit_of_hexValue? {c : Char} {n : Nat} (found : hexValue? c = some n) :
    HexDigit c n := by
  have decimal : ∀ k < 10, "0123456789abcdef".toList[k]? = some (Char.ofNat (k + 48)) := by decide
  have lower : ∀ k < 16, 10 ≤ k → "0123456789abcdef".toList[k]? = some (Char.ofNat (k + 87)) := by
    decide
  have upper : ∀ k < 16, 10 ≤ k → "0123456789ABCDEF".toList[k]? = some (Char.ofNat (k + 55)) := by
    decide
  have place : ∀ base, base ≤ c.toNat → c = Char.ofNat (c.toNat - base + base) := by
    intro base above
    rw [Nat.sub_add_cancel above, Char.ofNat_toNat]
  unfold hexValue? at found
  simp only [Char.le_def, UInt32.le_iff_toNat_le] at found
  -- Each range of digits is a stretch of one of the two tables.
  split at found
  · rename_i range
    obtain rfl := Option.some.inj found
    have bounds : 48 ≤ c.toNat ∧ c.toNat ≤ 57 := range
    exact Or.inl ((decimal _ (by omega)).trans (congrArg some (place 48 bounds.1).symm))
  · split at found
    · rename_i range
      obtain rfl := Option.some.inj found
      have bounds : 97 ≤ c.toNat ∧ c.toNat ≤ 102 := range
      exact Or.inl ((lower _ (by omega) (by omega)).trans
        (congrArg some (place 87 (by omega)).symm))
    · split at found
      · rename_i range
        obtain rfl := Option.some.inj found
        have bounds : 65 ≤ c.toNat ∧ c.toNat ≤ 70 := range
        exact Or.inr ((upper _ (by omega) (by omega)).trans
          (congrArg some (place 55 (by omega)).symm))
      · cases found

theorem hexValue?_eq_some_iff {c : Char} {n : Nat} : hexValue? c = some n ↔ HexDigit c n :=
  ⟨hexDigit_of_hexValue?, hexValue?_of_hexDigit⟩

theorem HexDigit.lt {c : Char} {n : Nat} (digit : HexDigit c n) : n < 16 :=
  digit.elim (fun found => (List.getElem?_eq_some_iff.1 found).1)
    fun found => (List.getElem?_eq_some_iff.1 found).1

theorem HexQuad.lt {digits : List Char} {n : Nat} (quad : HexQuad digits n) : n < 0x10000 := by
  obtain ⟨first, second, third, fourth⟩ := quad
  have := first.lt
  have := second.lt
  have := third.lt
  have := fourth.lt
  omega

theorem quad?_eq_some_iff {a b c d : Char} {n : Nat} :
    quad? a b c d = some n ↔ HexQuad [a, b, c, d] n := by
  simp only [quad?, Option.bind_eq_bind, Option.bind_eq_some_iff, Option.pure_def,
    Option.some.injEq, hexValue?_eq_some_iff]
  constructor
  · rintro ⟨i, first, j, second, k, third, l, fourth, rfl⟩
    exact .digits first second third fourth
  · rintro ⟨first, second, third, fourth⟩
    exact ⟨_, first, _, second, _, third, _, fourth, rfl⟩

theorem reads_hexQuad_iff {text rest : List Char} {n : Nat} :
    Reads (hexQuad text) n rest ↔ ∃ digits, HexQuad digits n ∧ text = digits ++ rest := by
  constructor
  · intro read
    unfold hexQuad at read
    split at read
    · rename_i a b c d more
      split at read
      · rename_i number
        obtain ⟨rfl, rfl⟩ := reads_ok.1 read
        exact ⟨[a, b, c, d], quad?_eq_some_iff.1 number, rfl⟩
      · exact absurd read not_reads_error
    · exact absurd read not_reads_error
  · rintro ⟨_, quad, rfl⟩
    have number := quad
    obtain ⟨first, second, third, fourth⟩ := quad
    simp only [List.cons_append, List.nil_append, hexQuad, quad?_eq_some_iff.2 number]
    exact reads_ok.2 ⟨rfl, rfl⟩

theorem shortEscape?_eq_some_iff {letter c : Char} :
    shortEscape? letter = some c ↔ (letter, c) ∈ shortEscapes := by
  unfold shortEscape? shortEscapes
  split <;> simp_all [eq_comm]

/-! ### Escapes -/

theorem toNat_not_surrogate (c : Char) : c.toNat < 0xD800 ∨ 0xDFFF < c.toNat :=
  c.valid.imp id fun above => above.1

theorem toNat_ofNat {n : Nat} (bound : n < 0x110000) (plain : n < 0xD800 ∨ 0xDFFF < n) :
    (Char.ofNat n).toNat = n := by
  have valid : n.isValidChar := plain.imp id fun above => ⟨above, bound⟩
  have same : Char.ofNat n = Char.ofNatAux n valid := dif_pos valid
  rw [same]
  rfl

theorem reads_trailingHalf {leading : Nat} {text rest : List Char} {c : Char}
    (read : Reads (trailingHalf leading text) c rest) :
    ∃ digits trailing, HexQuad digits trailing ∧ 0xDC00 ≤ trailing ∧ trailing ≤ 0xDFFF ∧
      c = pairChar leading trailing ∧ text = '\\' :: 'u' :: digits ++ rest := by
  unfold trailingHalf at read
  split at read
  · exact absurd read not_reads_error
  · exact absurd read not_reads_error
  · rename_i more
    split at read
    · exact absurd read not_reads_error
    · rename_i unit found
      split at read
      · rename_i range
        simp only [reads_ok, Parsed.behind, Parsed.map] at read
        obtain ⟨rfl, rfl⟩ := read
        obtain ⟨digits, quad, same⟩ := reads_hexQuad_iff.1 ⟨unit, found, rfl, rfl⟩
        simp only [isTrailing, Bool.and_eq_true, decide_eq_true_eq] at range
        exact ⟨digits, unit.value, quad, range.1, range.2, rfl, congrArg ('\\' :: 'u' :: ·) same⟩
      · exact absurd read not_reads_error
  · exact absurd read not_reads_error

theorem spells_of_reads_unicode {text rest : List Char} {c : Char}
    (read : Reads (unicode text) c rest) :
    ∃ spelling, SpellsChar ('\\' :: 'u' :: spelling) c ∧ text = spelling ++ rest := by
  unfold unicode at read
  split at read
  · exact absurd read not_reads_error
  · rename_i unit found
    obtain ⟨digits, quad, same⟩ := reads_hexQuad_iff.1 ⟨unit, found, rfl, rfl⟩
    have bound := quad.lt
    split at read
    · exact absurd read not_reads_error
    · rename_i notTrailing
      simp only [isTrailing, Bool.and_eq_true, decide_eq_true_eq, not_and, Nat.not_le] at notTrailing
      split at read
      · rename_i isLead
        simp only [isLeading, Bool.and_eq_true, decide_eq_true_eq] at isLead
        rw [reads_within] at read
        obtain ⟨second, trailing, low, above, below, spelled, left⟩ := reads_trailingHalf read
        refine ⟨digits ++ '\\' :: 'u' :: second, ?_, ?_⟩
        · have number : c.toNat =
              0x10000 + (unit.value - 0xD800) * 0x400 + (trailing - 0xDC00) := by
            rw [spelled, pairChar, toNat_ofNat (by omega) (by omega)]
          exact .pair quad low isLead ⟨above, below⟩ number
        · rw [same, left]
          simp
      · rename_i notLeading
        simp only [isLeading, Bool.and_eq_true, decide_eq_true_eq, not_and, Nat.not_le] at notLeading
        obtain ⟨rfl, rfl⟩ := reads_ok.1 read
        have number : (Char.ofNat unit.value).toNat = unit.value :=
          toNat_ofNat (by omega) (by omega)
        exact ⟨digits, .unit (number.symm ▸ quad), same⟩

theorem reads_unicode_unit {digits rest : List Char} {c : Char} (quad : HexQuad digits c.toNat) :
    Reads (unicode (digits ++ rest)) c rest := by
  obtain ⟨unit, found, value, left⟩ := reads_hexQuad_iff.2 ⟨digits, quad, Eq.refl (digits ++ rest)⟩
  have plain := toNat_not_surrogate c
  have notTrailing : isTrailing unit.value = false := by
    simp only [isTrailing, value, Bool.and_eq_false_iff, decide_eq_false_iff_not]
    omega
  have notLeading : isLeading unit.value = false := by
    simp only [isLeading, value, Bool.and_eq_false_iff, decide_eq_false_iff_not]
    omega
  simp only [unicode, found, notTrailing, notLeading, Bool.false_eq_true, if_false]
  exact reads_ok.2 ⟨by rw [value, Char.ofNat_toNat], left⟩

theorem reads_unicode_pair {first second rest : List Char} {leading trailing : Nat} {c : Char}
    (high : HexQuad first leading) (low : HexQuad second trailing)
    (highRange : 0xD800 ≤ leading ∧ leading ≤ 0xDBFF)
    (lowRange : 0xDC00 ≤ trailing ∧ trailing ≤ 0xDFFF)
    (number : c.toNat = 0x10000 + (leading - 0xD800) * 0x400 + (trailing - 0xDC00)) :
    Reads (unicode (first ++ '\\' :: 'u' :: second ++ rest)) c rest := by
  obtain ⟨unit, found, rfl, left⟩ :=
    reads_hexQuad_iff.2 ⟨first, high, List.append_assoc first ('\\' :: 'u' :: second) rest⟩
  obtain ⟨unit', found', rfl, left'⟩ := reads_hexQuad_iff.2 ⟨second, low, Eq.refl (second ++ rest)⟩
  have notTrailing : isTrailing unit.value = false := by
    simp only [isTrailing, Bool.and_eq_false_iff, decide_eq_false_iff_not]
    omega
  have isLead : isLeading unit.value = true := by
    simp only [isLeading, Bool.and_eq_true, decide_eq_true_eq]
    omega
  have isTrail : isTrailing unit'.value = true := by
    simp only [isTrailing, Bool.and_eq_true, decide_eq_true_eq]
    omega
  simp only [unicode, found, notTrailing, isLead, Bool.false_eq_true, if_false, if_true]
  rw [reads_within, left]
  simp only [List.cons_append, trailingHalf, found', isTrail, if_true]
  simp only [reads_ok, Parsed.behind, Parsed.map, pairChar, ← number, Char.ofNat_toNat]
  exact ⟨trivial, left'⟩

theorem spells_of_reads_escape {text rest : List Char} {c : Char}
    (read : Reads (escape text) c rest) :
    ∃ spelling, SpellsChar ('\\' :: spelling) c ∧ text = spelling ++ rest := by
  unfold escape at read
  split at read
  · exact absurd read not_reads_error
  · rename_i letter more
    split at read
    · rename_i found
      obtain ⟨rfl, rfl⟩ := reads_ok.1 read
      exact ⟨[letter], .short (shortEscape?_eq_some_iff.1 found), rfl⟩
    · split at read
      · rename_i letterU
        subst letterU
        rw [reads_behind] at read
        obtain ⟨spelling, spelled, rfl⟩ := spells_of_reads_unicode read
        exact ⟨'u' :: spelling, spelled, rfl⟩
      · exact absurd read not_reads_error

theorem reads_escape_of_spells {spelling rest : List Char} {c : Char}
    (spelled : SpellsChar ('\\' :: spelling) c) : Reads (escape (spelling ++ rest)) c rest := by
  have behindU : ∀ {text : List Char}, Reads (unicode text) c rest →
      Reads (escape ('u' :: text)) c rest := by
    intro text read
    simp only [escape, show shortEscape? 'u' = none from rfl, if_true]
    rwa [reads_behind]
  cases spelled with
  | plain _ backslash _ => exact absurd rfl backslash
  | short listed =>
    simp only [List.cons_append, List.nil_append, escape, shortEscape?_eq_some_iff.2 listed]
    exact reads_ok.2 ⟨rfl, rfl⟩
  | unit quad => exact behindU (reads_unicode_unit quad)
  | pair high low highRange lowRange number =>
    exact behindU (reads_unicode_pair high low highRange lowRange number)

/-! ### Literals -/

theorem spells_of_reads_body {text value rest : List Char} (read : Reads (body text) value rest) :
    ∃ spelling, Spells spelling value ∧ text = spelling ++ '"' :: rest := by
  fun_induction body text generalizing value with
  | case1 => exact absurd read not_reads_error
  | case2 more =>
    obtain ⟨rfl, rfl⟩ := reads_ok.1 read
    exact ⟨[], .nil, rfl⟩
  | case3 => exact absurd read not_reads_error
  | case4 => exact absurd read not_reads_error
  | case5 more escaped found others foundOthers _ _ ih =>
    obtain ⟨rfl, left⟩ := reads_ok.1 read
    obtain ⟨first, spelledFirst, front⟩ := spells_of_reads_escape ⟨escaped, found, rfl, rfl⟩
    obtain ⟨later, spelledLater, behind⟩ := ih ⟨others, foundOthers, rfl, left⟩
    exact ⟨_, .cons spelledFirst spelledLater, by simp [front, behind]⟩
  | case6 => exact absurd read not_reads_error
  | case7 => exact absurd read not_reads_error
  | case8 c more notQuote notBackslash notControl others foundOthers ih =>
    obtain ⟨rfl, rfl⟩ := reads_ok.1 read
    obtain ⟨later, spelledLater, same⟩ := ih ⟨others, foundOthers, rfl, rfl⟩
    refine ⟨[c] ++ later, .cons (.plain notQuote notBackslash ?_) spelledLater, ?_⟩
    · simpa [isControl] using notControl
    · exact congrArg (c :: ·) same

theorem reads_body_plain {c : Char} {text value rest : List Char} (quote : c ≠ '"')
    (backslash : c ≠ '\\') (printable : 0x20 ≤ c.toNat) (others : Reads (body text) value rest) :
    Reads (body (c :: text)) (c :: value) rest := by
  obtain ⟨parsed, found, rfl, rfl⟩ := others
  have notControl : isControl c = false := by
    simpa [isControl] using printable
  rw [body, if_neg quote, if_neg backslash, notControl, found]
  exact reads_ok.2 ⟨rfl, rfl⟩

theorem reads_body_escape {c : Char} {text more value rest : List Char}
    (first : Reads (escape text) c more) (others : Reads (body more) value rest) :
    Reads (body ('\\' :: text)) (c :: value) rest := by
  obtain ⟨escaped, found, rfl, rfl⟩ := first
  obtain ⟨parsed, foundOthers, rfl, rfl⟩ := others
  rw [body, if_neg (by decide), if_pos rfl, found]
  simp only [foundOthers]
  exact reads_ok.2 ⟨rfl, rfl⟩

theorem reads_body_of_spells {spelling value : List Char} (spelled : Spells spelling value)
    (rest : List Char) : Reads (body (spelling ++ '"' :: rest)) value rest := by
  induction spelled with
  | nil =>
    rw [List.nil_append, body, if_pos rfl]
    exact reads_ok.2 ⟨rfl, rfl⟩
  | cons first _ ih =>
    rw [List.append_assoc]
    cases first with
    | plain quote backslash printable => exact reads_body_plain quote backslash printable ih
    | short listed => exact reads_body_escape (reads_escape_of_spells (.short listed)) ih
    | unit number => exact reads_body_escape (reads_escape_of_spells (.unit number)) ih
    | pair high low highRange lowRange number =>
      exact reads_body_escape
        (reads_escape_of_spells (.pair high low highRange lowRange number)) ih

/-- A literal is read up to the first quote behind a spelling, and gives what is spelled. -/
theorem reads_body_iff {text value rest : List Char} :
    Reads (body text) value rest ↔
      ∃ spelling, Spells spelling value ∧ text = spelling ++ '"' :: rest := by
  constructor
  · exact spells_of_reads_body
  · rintro ⟨spelling, spelled, rfl⟩
    exact reads_body_of_spells spelled rest

/-! ### Writing -/

theorem hexDigit_hexDigit {n : Nat} (bound : n < 16) : HexDigit (hexDigit n) n := by
  have table : ∀ k < 16, "0123456789abcdef".toList[k]? = some (hexDigit k) := by decide
  exact Or.inl (table n bound)

theorem hexQuad_of_control {c : Char} (control : c.toNat < 0x20) :
    HexQuad ['0', '0', hexDigit (c.toNat / 16), hexDigit (c.toNat % 16)] c.toNat := by
  have zero : HexDigit '0' 0 := Or.inl rfl
  have quad := HexQuad.digits zero zero (hexDigit_hexDigit (n := c.toNat / 16) (by omega))
    (hexDigit_hexDigit (n := c.toNat % 16) (by omega))
  have number : ((0 * 16 + 0) * 16 + c.toNat / 16) * 16 + c.toNat % 16 = c.toNat := by omega
  rwa [number] at quad

theorem spellsChar_escaped (c : Char) : SpellsChar (escaped c) c := by
  unfold escaped
  split
  · exact .short (by decide)
  · exact .short (by decide)
  · exact .short (by decide)
  · exact .short (by decide)
  · exact .short (by decide)
  · exact .short (by decide)
  · exact .short (by decide)
  · rename_i quote backslash _ _ _ _ _
    split
    · rename_i control
      exact .unit (hexQuad_of_control (by simpa [isControl] using control))
    · rename_i notControl
      exact .plain quote backslash (by simpa [isControl] using notControl)

theorem spells_flatMap_escaped (text : List Char) : Spells (text.flatMap escaped) text := by
  induction text with
  | nil => exact .nil
  | cons c rest ih => exact .cons (spellsChar_escaped c) ih

end Quoted
end TraitCatalog.Json
