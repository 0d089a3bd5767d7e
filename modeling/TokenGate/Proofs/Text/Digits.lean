/-
Numbers in decimal digits.

A run of digits is read as the number that its digits tell (`readDigitsFrom_ten_eq_some_iff`), so the digits that a
number is written in are read back as it (`readDigits_decimal`).
-/
import Mathlib.Data.Nat.Digits.Defs
import Mathlib.Tactic.Ring
import TokenGate.Text.Decimal

namespace TokenGate.Text

theorem isDigit_iff {c : Char} : c.isDigit = true ↔ '0' ≤ c ∧ c ≤ '9' := by
  simp [Char.isDigit, Char.le_def]

/-- As much of a text as satisfies `p` ends where a character does not. -/
theorem takeWhile_append_of_head {p : Char → Bool} {a rest : List Char} (ha : ∀ c ∈ a, p c = true)
    (hrest : ∀ c, rest.head? = .some c → p c = false) : (a ++ rest).takeWhile p = a := by
  have hstop : rest.takeWhile p = [] := by
    cases rest with
    | nil => rfl
    | cons c rest => exact List.takeWhile_cons_of_neg (by simp [hrest c rfl])
  rw [List.takeWhile_append_of_pos ha, hstop, List.append_nil]

theorem dropWhile_append_of_head {p : Char → Bool} {a rest : List Char} (ha : ∀ c ∈ a, p c = true)
    (hrest : ∀ c, rest.head? = .some c → p c = false) : (a ++ rest).dropWhile p = rest := by
  rw [List.dropWhile_append_of_pos ha]
  cases rest with
  | nil => rfl
  | cons c rest => exact List.dropWhile_cons_of_neg (by simp [hrest c rfl])

/-! ## Reading -/

theorem digitValue_ten_eq_some_iff {c : Char} {d : Nat} :
    digitValue 10 c = .some d ↔ ('0' ≤ c ∧ c ≤ '9') ∧ c.toNat - '0'.toNat = d := by
  unfold digitValue
  by_cases hdigit : '0' ≤ c ∧ c ≤ '9'
  · have hsmall : c.toNat - '0'.toNat < 10 := Nat.lt_succ_of_le (Nat.sub_le_sub_right (m := '9'.toNat) hdigit.2 _)
    rw [if_pos hdigit, if_pos hsmall, Option.some.injEq, and_iff_right hdigit]
  · -- Letters are worth ten or more.
    rw [if_neg hdigit, if_neg (by split_ifs <;> omega)]
    exact iff_of_false nofun fun h => hdigit h.1

/-- Each digit is worth ten of the next one. -/
theorem readDigitsFrom_ten_eq_some_iff {s : List Char} {acc n : Nat} :
    readDigitsFrom 10 acc s = .some n ↔ (∀ c ∈ s, '0' ≤ c ∧ c ≤ '9') ∧
      n = Nat.ofDigits 10 (s.reverse.map fun c => c.toNat - '0'.toNat) + 10 ^ s.length * acc := by
  induction s generalizing acc with
  | nil => simp [readDigitsFrom, eq_comm]
  | cons c s ih =>
    rw [readDigitsFrom]
    cases hvalue : digitValue 10 c with
    | none =>
      have hdigit : ¬ ('0' ≤ c ∧ c ≤ '9') := fun h => by
        rw [digitValue_ten_eq_some_iff.2 ⟨h, rfl⟩] at hvalue
        cases hvalue
      simp [hdigit]
    | some d =>
      obtain ⟨hdigit, rfl⟩ := digitValue_ten_eq_some_iff.1 hvalue
      have hworth : Nat.ofDigits 10 ((c :: s).reverse.map fun c => c.toNat - '0'.toNat) + 10 ^ (c :: s).length * acc =
          Nat.ofDigits 10 (s.reverse.map fun c => c.toNat - '0'.toNat) +
            10 ^ s.length * (acc * 10 + (c.toNat - '0'.toNat)) := by
        simp only [List.reverse_cons, List.map_append, List.map_cons, List.map_nil, Nat.ofDigits_append,
          List.length_map, List.length_reverse, Nat.ofDigits_singleton, List.length_cons]
        ring
      rw [hworth, ih]
      simp [hdigit]

theorem readDigits_ten_of_ne_nil {s : List Char} (hs : s ≠ []) : readDigits 10 s = readDigitsFrom 10 0 s := by
  cases s with
  | nil => exact absurd rfl hs
  | cons c s => rfl

/-! ## Writing -/

theorem isDigit_of_mem_decimal {n : Nat} {c : Char} (h : c ∈ decimal n) : c.isDigit = true :=
  Nat.isDigit_of_mem_toDigits (by decide) (by decide) h

theorem decimal_ne_nil (n : Nat) : decimal n ≠ [] :=
  Nat.toDigits_ne_nil

/-- A number does not begin with a minus sign. -/
theorem decimal_append_ne (n : Nat) (rest s : List Char) : decimal n ++ rest ≠ '-' :: s := by
  obtain ⟨c, t, ht⟩ := List.exists_cons_of_ne_nil (decimal_ne_nil n)
  have hdigit : c.isDigit = true := isDigit_of_mem_decimal (ht ▸ List.mem_cons_self)
  intro h
  rw [ht] at h
  obtain rfl := (List.cons.inj h).1
  cases hdigit

theorem decimal_of_lt {n : Nat} (h : n < 10) : decimal n = [n.digitChar] :=
  Nat.toDigits_of_lt_base h

theorem decimal_of_le {n : Nat} (h : 10 ≤ n) : decimal n = decimal (n / 10) ++ [(n % 10).digitChar] := by
  rw [decimal, Nat.toDigits_eq_if (by decide), if_neg (Nat.not_lt.2 h), decimal]

/-- No zero stands in front of other digits. -/
theorem eq_zero_of_decimal {n : Nat} {s : List Char} (h : decimal n = '0' :: s) : n = 0 := by
  induction n using Nat.strongRecOn generalizing s with
  | ind n ih =>
    rcases Nat.lt_or_ge n 10 with hsmall | hlarge
    · have hdigit : ∀ d < 10, Nat.digitChar d = '0' → d = 0 := by decide
      rw [decimal_of_lt hsmall] at h
      exact hdigit n hsmall (List.cons.inj h).1
    · obtain ⟨c, t, ht⟩ := List.exists_cons_of_ne_nil (decimal_ne_nil (n / 10))
      rw [decimal_of_le hlarge, ht] at h
      obtain ⟨rfl, -⟩ := List.cons.inj h
      have hzero := ih (n / 10) (by omega) ht
      omega

theorem ofDigits_decimal (n : Nat) :
    Nat.ofDigits 10 ((decimal n).reverse.map fun c => c.toNat - '0'.toNat) = n := by
  have hdigit : ∀ d < 10, (Nat.digitChar d).toNat - '0'.toNat = d := by decide
  induction n using Nat.strongRecOn with
  | ind n ih =>
    rcases Nat.lt_or_ge n 10 with hsmall | hlarge
    · rw [decimal_of_lt hsmall, List.reverse_singleton, List.map_singleton, Nat.ofDigits_singleton, hdigit n hsmall]
    · rw [decimal_of_le hlarge, List.reverse_concat, List.map_cons, Nat.ofDigits_cons, ih (n / 10) (by omega),
        hdigit _ (Nat.mod_lt _ (by decide))]
      exact Nat.mod_add_div n 10

theorem readDigits_decimal (n : Nat) : readDigits 10 (decimal n) = .some n := by
  rw [readDigits_ten_of_ne_nil (decimal_ne_nil n), readDigitsFrom_ten_eq_some_iff, ofDigits_decimal]
  exact ⟨fun c hc => isDigit_iff.1 (isDigit_of_mem_decimal hc), rfl⟩

end TokenGate.Text
