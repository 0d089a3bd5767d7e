/-
Reading back the bytes of a text.

What a character is encoded as is read back as that character, whatever stands behind it (`first_encodeChar`), so the
bytes of a text are those of this text and of no other (`decode?_encode`, `encode_injective`).
-/
import TokenGate.Text.Utf8

namespace TokenGate.Text.Utf8

/-! ## The bytes of a character -/

/-- A character of ASCII is one byte. -/
theorem encodeChar_of_lt {c : Char} (h : c.toNat < 128) : String.utf8EncodeChar c = [UInt8.ofNat c.toNat] :=
  if_pos (Nat.le_of_lt_succ h)

/-- The bytes of a character outside ASCII are outside ASCII. -/
theorem le_of_mem_encodeChar {c : Char} (h : 128 ≤ c.toNat) : ∀ b ∈ String.utf8EncodeChar c, 128 ≤ b.toNat := by
  have hchar : c.val.toNat = c.toNat := rfl
  have hascii : ¬ c.toNat ≤ 127 := by omega
  simp only [String.utf8EncodeChar, hchar, if_neg hascii]
  split
  next => simp only [List.forall_mem_cons, UInt8.toNat_ofNat']; exact ⟨by omega, by omega, nofun⟩
  next =>
    split
    next => simp only [List.forall_mem_cons, UInt8.toNat_ofNat']; exact ⟨by omega, by omega, by omega, nofun⟩
    next => simp only [List.forall_mem_cons, UInt8.toNat_ofNat']; exact ⟨by omega, by omega, by omega, by omega, nofun⟩

/-! ## Reading a character -/

section

variable {c : Char}

/-- What a first byte announces, by its number. -/
theorem Lead.of?_ofNat {n : Nat} (h : n < 256) :
    Lead.of? (UInt8.ofNat n) =
      if 0xC2 ≤ n ∧ n ≤ 0xDF then .some ⟨1, 0x80, 0xBF, n - 0xC0⟩
      else if n = 0xE0 then .some ⟨2, 0xA0, 0xBF, 0⟩
      else if n = 0xED then .some ⟨2, 0x80, 0x9F, 0xD⟩
      else if 0xE1 ≤ n ∧ n ≤ 0xEF then .some ⟨2, 0x80, 0xBF, n - 0xE0⟩
      else if n = 0xF0 then .some ⟨3, 0x90, 0xBF, 0⟩
      else if 0xF1 ≤ n ∧ n ≤ 0xF3 then .some ⟨3, 0x80, 0xBF, n - 0xF0⟩
      else if n = 0xF4 then .some ⟨3, 0x80, 0x8F, 4⟩
      else .none := by
  have hn : (UInt8.ofNat n).toNat = n := UInt8.toNat_ofNat_of_lt' h
  simp only [Lead.of?, Bool.and_eq_true, decide_eq_true_eq, UInt8.le_iff_toNat_le, beq_iff_eq, ← UInt8.toNat_inj, hn]
  rfl

/-- A first byte outside ASCII is read with the bytes that it announces. -/
theorem first_ofNat {n : Nat} {l : Lead} (hn : 128 ≤ n) (h : n < 256) (hl : Lead.of? (UInt8.ofNat n) = .some l)
    (bs : List UInt8) : first (UInt8.ofNat n) bs = follow l.more l.low l.high l.payload bs := by
  have hlarge : ¬ UInt8.ofNat n < 0x80 := by
    rw [UInt8.lt_iff_toNat_lt, UInt8.toNat_ofNat_of_lt' h]
    exact Nat.not_lt.2 hn
  rw [first, if_neg hlarge, hl]

/-- A byte that may follow adds six bits. -/
theorem follow_cons {low high : UInt8} {n : Nat} (hlow : low.toNat ≤ n % 64 + 128) (hhigh : n % 64 + 128 ≤ high.toNat)
    (more payload : Nat) (bs : List UInt8) :
    follow (more + 1) low high payload (UInt8.ofNat (n % 64 + 128) :: bs) =
      (follow more 0x80 0xBF (payload * 64 + n % 64) bs).map id (· + 1) := by
  have hsmall : n % 64 + 128 < 256 := by omega
  have hn : (UInt8.ofNat (n % 64 + 128)).toNat = n % 64 + 128 := UInt8.toNat_ofNat_of_lt' hsmall
  have hbounds : (low ≤ UInt8.ofNat (n % 64 + 128) && UInt8.ofNat (n % 64 + 128) ≤ high) = true := by
    simp only [UInt8.le_iff_toNat_le, hn, hlow, hhigh, decide_true, Bool.and_self]
  rw [follow, if_pos hbounds, hn, Nat.add_sub_cancel]
  rfl

theorem first_of_lt_0x800 (hlarge : 0x80 ≤ c.toNat) (hsmall : c.toNat < 0x800) (bs : List UInt8) :
    first (UInt8.ofNat (c.toNat / 64 % 32 + 192)) (UInt8.ofNat (c.toNat % 64 + 128) :: bs) = (.some c, 1) := by
  have hlead : Lead.of? (UInt8.ofNat (c.toNat / 64 % 32 + 192)) = .some ⟨1, 0x80, 0xBF, c.toNat / 64⟩ := by
    have hpayload : c.toNat / 64 % 32 + 192 - 0xC0 = c.toNat / 64 := by omega
    rw [Lead.of?_ofNat (by omega), if_pos (by omega), hpayload]
  have hvalue : c.toNat / 64 * 64 + c.toNat % 64 = c.toNat := by omega
  rw [first_ofNat (by omega) (by omega) hlead, follow_cons (by simp) (by simp; omega), follow, hvalue, Char.ofNat_toNat]
  rfl

theorem first_of_lt_0x10000 (hlarge : 0x800 ≤ c.toNat) (hsmall : c.toNat < 0x10000) (bs : List UInt8) :
    first (UInt8.ofNat (c.toNat / 4096 % 16 + 224))
      (UInt8.ofNat (c.toNat / 64 % 64 + 128) :: UInt8.ofNat (c.toNat % 64 + 128) :: bs) = (.some c, 2) := by
  have hvalid : c.toNat < 0xD800 ∨ 0xDFFF < c.toNat ∧ c.toNat < 0x110000 := c.valid
  -- The bounds of the second byte leave out overlong forms and surrogates, and `c` is written as neither.
  obtain ⟨low, high, hlead, hlow, hhigh⟩ : ∃ low high : UInt8,
      Lead.of? (UInt8.ofNat (c.toNat / 4096 % 16 + 224)) = .some ⟨2, low, high, c.toNat / 4096⟩ ∧
        low.toNat ≤ c.toNat / 64 % 64 + 128 ∧ c.toNat / 64 % 64 + 128 ≤ high.toNat := by
    rw [Lead.of?_ofNat (by omega), if_neg (by omega)]
    by_cases hzero : c.toNat / 4096 = 0
    · exact ⟨0xA0, 0xBF, by rw [if_pos (by omega), hzero], by simp; omega, by simp; omega⟩
    rw [if_neg (by omega)]
    by_cases hthirteen : c.toNat / 4096 = 13
    · exact ⟨0x80, 0x9F, by rw [if_pos (by omega), hthirteen], by simp, by simp; omega⟩
    · have hpayload : c.toNat / 4096 % 16 + 224 - 0xE0 = c.toNat / 4096 := by omega
      exact ⟨0x80, 0xBF, by rw [if_neg (by omega), if_pos (by omega), hpayload], by simp, by simp; omega⟩
  have hvalue : (c.toNat / 4096 * 64 + c.toNat / 64 % 64) * 64 + c.toNat % 64 = c.toNat := by omega
  rw [first_ofNat (by omega) (by omega) hlead, follow_cons hlow hhigh, follow_cons (by simp) (by simp; omega), follow,
    hvalue, Char.ofNat_toNat]
  rfl

theorem first_of_lt_0x110000 (hlarge : 0x10000 ≤ c.toNat) (bs : List UInt8) :
    first (UInt8.ofNat (c.toNat / 262144 % 8 + 240))
      (UInt8.ofNat (c.toNat / 4096 % 64 + 128) :: UInt8.ofNat (c.toNat / 64 % 64 + 128) ::
        UInt8.ofNat (c.toNat % 64 + 128) :: bs) = (.some c, 3) := by
  have hvalid : c.toNat < 0xD800 ∨ 0xDFFF < c.toNat ∧ c.toNat < 0x110000 := c.valid
  obtain ⟨low, high, hlead, hlow, hhigh⟩ : ∃ low high : UInt8,
      Lead.of? (UInt8.ofNat (c.toNat / 262144 % 8 + 240)) = .some ⟨3, low, high, c.toNat / 262144⟩ ∧
        low.toNat ≤ c.toNat / 4096 % 64 + 128 ∧ c.toNat / 4096 % 64 + 128 ≤ high.toNat := by
    rw [Lead.of?_ofNat (by omega), if_neg (by omega), if_neg (by omega), if_neg (by omega), if_neg (by omega)]
    by_cases hzero : c.toNat / 262144 = 0
    · exact ⟨0x90, 0xBF, by rw [if_pos (by omega), hzero], by simp; omega, by simp; omega⟩
    rw [if_neg (by omega)]
    by_cases hfour : c.toNat / 262144 = 4
    · exact ⟨0x80, 0x8F, by rw [if_neg (by omega), if_pos (by omega), hfour], by simp, by simp; omega⟩
    · have hpayload : c.toNat / 262144 % 8 + 240 - 0xF0 = c.toNat / 262144 := by omega
      exact ⟨0x80, 0xBF, by rw [if_pos (by omega), hpayload], by simp, by simp; omega⟩
  have hvalue : ((c.toNat / 262144 * 64 + c.toNat / 4096 % 64) * 64 + c.toNat / 64 % 64) * 64 + c.toNat % 64 =
      c.toNat := by omega
  rw [first_ofNat (by omega) (by omega) hlead, follow_cons hlow hhigh, follow_cons (by simp) (by simp; omega),
    follow_cons (by simp) (by simp; omega), follow, hvalue, Char.ofNat_toNat]
  rfl

end

/-- What a character is encoded as is read as that character, to the last byte of it. -/
theorem first_encodeChar (c : Char) (bs : List UInt8) :
    ∃ b w, String.utf8EncodeChar c = b :: w ∧ first b (w ++ bs) = (.some c, w.length) := by
  have hchar : c.val.toNat = c.toNat := rfl
  rcases Nat.lt_or_ge c.toNat 0x80 with hone | hone
  · have hb : (UInt8.ofNat c.toNat).toNat = c.toNat := UInt8.toNat_ofNat_of_lt' (Nat.lt_trans hone (by decide))
    have hsmall : UInt8.ofNat c.toNat < 0x80 := by rw [UInt8.lt_iff_toNat_lt, hb]; exact hone
    refine ⟨_, [], encodeChar_of_lt hone, ?_⟩
    rw [first, if_pos hsmall, hb, Char.ofNat_toNat]
    rfl
  simp only [String.utf8EncodeChar, hchar]
  rw [if_neg (by omega)]
  rcases Nat.lt_or_ge c.toNat 0x800 with htwo | htwo
  · rw [if_pos (by omega)]
    exact ⟨_, _, rfl, first_of_lt_0x800 hone htwo bs⟩
  rw [if_neg (by omega)]
  rcases Nat.lt_or_ge c.toNat 0x10000 with hthree | hthree
  · rw [if_pos (by omega)]
    exact ⟨_, _, rfl, first_of_lt_0x10000 htwo hthree bs⟩
  · rw [if_neg (by omega)]
    exact ⟨_, _, rfl, first_of_lt_0x110000 hthree bs⟩

/-! ## Reading a text -/

/-- **Texts are read back.** The bytes of a text are those of this text. -/
theorem decode?_encode (s : List Char) : decode? (encode s) = .some s := by
  induction s with
  | nil => rw [encode, List.flatMap_nil, decode?]
  | cons c s ih =>
    obtain ⟨b, w, hform, hfirst⟩ := first_encodeChar c (encode s)
    have hbytes : encode (c :: s) = b :: (w ++ encode s) := by
      rw [encode, List.flatMap_cons, ← encode, hform, List.cons_append]
    rw [hbytes, decode?, hfirst]
    simp only [List.drop_left, ih, Option.map_some]

/-- No two texts have the same bytes. -/
theorem encode_injective : Function.Injective encode := by
  intro s t h
  exact Option.some.inj (by rw [← decode?_encode, h, decode?_encode])

end TokenGate.Text.Utf8
