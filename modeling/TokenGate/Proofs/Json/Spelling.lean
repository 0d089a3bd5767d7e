/-
Texts and integers as JSON spells them.

What is written of a text is read back up to the quote behind it (`readSpelling_escape`), and it means that text
(`unescape_escape`); what is written of an integer is read back up to where a value ends (`readNumber_decimalInt`), and
it means that integer (`readInt_decimalInt`).
-/
import Mathlib.Tactic.SplitIfs
import TokenGate.Json.Record
import TokenGate.Proofs.Text.Digits

namespace TokenGate.Json

/-! ## Texts -/

/-- A character is written as a letter behind a backslash, in hexadecimal, or as it is. -/
theorem escapeChar_cases (c : Char) :
    (∃ e, escapeChar c = ['\\', e] ∧ escapeMeaning e = .some c) ∨
      c.toNat < 32 ∧
        escapeChar c = ['\\', 'u', '0', '0', Text.hexDigit (c.toNat / 16), Text.hexDigit (c.toNat % 16)] ∨
      32 ≤ c.toNat ∧ c ≠ '"' ∧ c ≠ '\\' ∧ escapeChar c = [c] := by
  unfold escapeChar
  split_ifs with hquote hslash hline hreturn htab hback hfeed hcontrol
  · exact .inl ⟨'"', rfl, by rw [hquote]; rfl⟩
  · exact .inl ⟨'\\', rfl, by rw [hslash]; rfl⟩
  · exact .inl ⟨'n', rfl, hline ▸ rfl⟩
  · exact .inl ⟨'r', rfl, hreturn ▸ rfl⟩
  · exact .inl ⟨'t', rfl, htab ▸ rfl⟩
  · exact .inl ⟨'b', rfl, hback ▸ rfl⟩
  · exact .inl ⟨'f', rfl, hfeed ▸ rfl⟩
  · exact .inr (.inl ⟨hcontrol, rfl⟩)
  · exact .inr (.inr ⟨Nat.le_of_not_lt hcontrol, hquote, hslash, rfl⟩)

theorem mem_of_escapeMeaning {e c : Char} (h : escapeMeaning e = .some c) :
    e ∈ ['"', '\\', '/', 'b', 'f', 'n', 'r', 't'] := by
  unfold escapeMeaning at h
  split at h <;> first | decide | cases h

theorem digitValue_hexDigit : ∀ n < 16, Text.digitValue 16 (Text.hexDigit n) = .some n := by
  decide

/-- A character that stands for itself is read as it is. -/
theorem readSpelling_cons {c : Char} (hlarge : 32 ≤ c.toNat) (hquote : c ≠ '"') (hslash : c ≠ '\\') (s : List Char) :
    readSpelling (c :: s) = (readSpelling s).map fun (r, rest) => (c :: r, rest) := by
  rw [readSpelling, if_neg (by simp [hslash]; omega)]
  · exact fun h => hquote h
  · intro e s' h
    exact absurd h hslash

theorem readSpelling_escapeChar (c : Char) (s : List Char) :
    readSpelling (escapeChar c ++ s) = (readSpelling s).map fun (r, rest) => (escapeChar c ++ r, rest) := by
  rcases escapeChar_cases c with ⟨e, h, hmeaning⟩ | ⟨hsmall, h⟩ | ⟨hlarge, hquote, hslash, h⟩
  · rw [h, List.cons_append, List.cons_append, List.nil_append, readSpelling,
      if_pos (.inl (mem_of_escapeMeaning hmeaning))]
    rfl
  · have hhigh := digitValue_hexDigit (c.toNat / 16) (by omega)
    have hlow := digitValue_hexDigit (c.toNat % 16) (by omega)
    have hdigit : ∀ n < 16, 32 ≤ (Text.hexDigit n).toNat ∧ Text.hexDigit n ≠ '"' ∧ Text.hexDigit n ≠ '\\' := by decide
    have hunit : startsWithUnit
        ('0' :: '0' :: Text.hexDigit (c.toNat / 16) :: Text.hexDigit (c.toNat % 16) :: s) = true := by
      simp [startsWithUnit, hhigh, hlow]
      decide
    rw [h]
    simp only [List.cons_append, List.nil_append]
    rw [readSpelling, if_pos (.inr ⟨rfl, hunit⟩)]
    obtain ⟨hlarge, hquote, hslash⟩ := hdigit (c.toNat / 16) (by omega)
    obtain ⟨hlarge', hquote', hslash'⟩ := hdigit (c.toNat % 16) (by omega)
    rw [readSpelling_cons (by decide) (by decide) (by decide), readSpelling_cons (by decide) (by decide) (by decide),
      readSpelling_cons hlarge hquote hslash, readSpelling_cons hlarge' hquote' hslash']
    simp only [Option.map_map, Function.comp_def]
  · rw [h, List.singleton_append, readSpelling_cons hlarge hquote hslash]
    rfl

/-- What is written of a text is read back up to the quote behind it. -/
theorem readSpelling_escape (s rest : List Char) :
    readSpelling (escape s ++ '"' :: rest) = .some (escape s, rest) := by
  induction s with
  | nil => rfl
  | cons c s ih =>
    rw [escape, List.flatMap_cons, List.append_assoc, readSpelling_escapeChar, ← escape, ih]
    rfl

/-- What is written of a character is one part: the character, or a unit that is a control character. -/
theorem parts_escapeChar (c : Char) :
    ∃ p, (p = .char c ∨ p = .unit c.toNat ∧ c.toNat < 32) ∧
      ∀ s, parts (escapeChar c ++ s) = (parts s).map (p :: ·) := by
  rcases escapeChar_cases c with ⟨e, h, hmeaning⟩ | ⟨hsmall, h⟩ | ⟨-, -, hslash, h⟩
  · refine ⟨.char c, .inl rfl, fun s => ?_⟩
    rw [h, List.cons_append, List.cons_append, List.nil_append, parts, hmeaning]
    · rfl
    · rintro a b c' d s' rfl -
      cases hmeaning
  · refine ⟨.unit c.toNat, .inr ⟨rfl, hsmall⟩, fun s => ?_⟩
    have hzero : Text.digitValue 16 '0' = .some 0 := by decide
    have hhigh := digitValue_hexDigit (c.toNat / 16) (by omega)
    have hlow := digitValue_hexDigit (c.toNat % 16) (by omega)
    have hunit : Text.readDigits 16 ['0', '0', Text.hexDigit (c.toNat / 16), Text.hexDigit (c.toNat % 16)] =
        .some c.toNat := by
      simp only [Text.readDigits, Text.readDigitsFrom, hzero, hhigh, hlow, Option.some.injEq]
      omega
    rw [h]
    simp only [List.cons_append, List.nil_append]
    rw [parts, hunit]
    rfl
  · refine ⟨.char c, .inl rfl, fun s => ?_⟩
    rw [h, List.singleton_append, parts, if_neg hslash]
    · intro a b c' d s' h'
      exact absurd h' hslash
    · intro e s' h'
      exact absurd h' hslash

/-- A unit in front of the surrogates is a character by itself. -/
theorem joinParts_unit {n : Nat} (hn : n < 0xD800) (ps : List Part) :
    joinParts (.unit n :: ps) = (joinParts ps).map (Char.ofNat n :: ·) := by
  have hlone : ¬ (0xD800 ≤ n ∧ n ≤ 0xDFFF) := by omega
  have hhigh : ¬ (0xD800 ≤ n ∧ n ≤ 0xDBFF) := by omega
  have hlow : ¬ (0xDC00 ≤ n ∧ n ≤ 0xDFFF) := by omega
  cases ps with
  | nil => simp only [joinParts, if_neg hlone]
  | cons p ps =>
    cases p with
    | char c => simp only [joinParts, if_neg hlone]
    | unit l => rw [joinParts, if_neg hhigh, if_neg hlow]

theorem unescape_escapeChar (c : Char) (s : List Char) : unescape (escapeChar c ++ s) = (unescape s).map (c :: ·) := by
  obtain ⟨p, hp, hparts⟩ := parts_escapeChar c
  have hjoin (ps : List Part) : joinParts (p :: ps) = (joinParts ps).map (c :: ·) := by
    rcases hp with rfl | ⟨rfl, hsmall⟩
    · rfl
    · rw [joinParts_unit (by omega), Char.ofNat_toNat]
  rw [unescape, hparts, unescape]
  cases parts s with
  | none => rfl
  | some ps => exact hjoin ps

theorem unescape_escape (s : List Char) : unescape (escape s) = .some s := by
  induction s with
  | nil => rfl
  | cons c s ih =>
    rw [escape, List.flatMap_cons, unescape_escapeChar, ← escape, ih]
    rfl

/-! ## Integers -/

/-- Behind a value there stands nothing, or a sign that ends or separates values. -/
def EndsValue (rest : List Char) : Prop :=
  ∀ c, rest.head? = .some c → c ∈ [',', ']', Char.ofNat 0x7D]

section

variable {rest : List Char} (h : EndsValue rest)

include h

theorem isDigit_of_endsValue (c : Char) (hc : rest.head? = .some c) : c.isDigit = false := by
  have hends : ∀ c ∈ [',', ']', Char.ofNat 0x7D], c.isDigit = false := by simp
  exact hends c (h c hc)

theorem readFraction_of_endsValue : readFraction rest = .some ([], rest) := by
  unfold readFraction
  split
  next s => exact absurd (h '.' rfl) (by decide)
  next => rfl

theorem readExponent_of_endsValue : readExponent rest = .some ([], rest) := by
  have hends : ∀ c ∈ [',', ']', Char.ofNat 0x7D], ¬ (c = 'e' ∨ c = 'E') := by simp
  unfold readExponent
  split
  next e _ _ => rw [if_neg (hends e (h e rfl))]
  next e => rw [if_neg (hends e (h e rfl))]
  next => rfl

theorem readRun_decimal (n : Nat) : readRun (Text.decimal n ++ rest) = .some (Text.decimal n, rest) := by
  have hdigits : ∀ c ∈ Text.decimal n, c.isDigit = true := fun c => Text.isDigit_of_mem_decimal
  have hstop := isDigit_of_endsValue h
  unfold readRun
  rw [Text.takeWhile_append_of_head hdigits hstop, Text.dropWhile_append_of_head hdigits hstop]
  split
  next hnil => exact absurd hnil (Text.decimal_ne_nil n)
  next => rfl

theorem readMagnitude_decimal (n : Nat) : readMagnitude (Text.decimal n ++ rest) = .some (Text.decimal n, rest) := by
  have hwhole : readWhole (Text.decimal n ++ rest) = .some (Text.decimal n, rest) := by
    unfold readWhole
    rw [readRun_decimal h]
    split
    next c s rest' hzero =>
      -- A zero is written as one digit.
      obtain ⟨hdigits, -⟩ := Prod.mk.inj (Option.some.inj hzero)
      obtain rfl := Text.eq_zero_of_decimal hdigits
      cases hdigits
    next => rfl
  simp [readMagnitude, hwhole, readFraction_of_endsValue h, readExponent_of_endsValue h]

theorem readNumber_decimalInt (i : Int) :
    readNumber (Text.decimalInt i ++ rest) = .some (Text.decimalInt i, rest) := by
  cases i with
  | ofNat n =>
    unfold readNumber
    split
    next s hs => exact absurd hs (Text.decimal_append_ne n rest s)
    next => exact readMagnitude_decimal h n
  | negSucc n =>
    rw [Text.decimalInt, List.cons_append, readNumber, readMagnitude_decimal h]
    rfl

end

theorem readInt_decimalInt (i : Int) : readInt (Text.decimalInt i) = .some i := by
  cases i with
  | ofNat n =>
    unfold readInt
    split
    next s hs => exact absurd ((List.append_nil _).trans hs) (Text.decimal_append_ne n [] s)
    next => rw [Text.decimalInt, Text.readDigits_decimal]; rfl
  | negSucc n => rw [Text.decimalInt, readInt, Text.readDigits_decimal]

theorem int64?_ofInt (i : Int64) : (ofInt i.toInt).int64? = .some i := by
  rw [ofInt, int64?, readInt_decimalInt, Option.bind_some, if_pos ⟨i.minValue_le_toInt, i.toInt_le⟩, Int64.ofInt_toInt]

end TokenGate.Json
