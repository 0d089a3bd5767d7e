/-
What the reader does with a text.

It tells by how a text begins what value that is (`readValue_items`, `readValue_brace_of_ne`,
`readValue_eq_readNumber`). What it reads is the front of the text (`eq_of_readSpelling`, `eq_of_readNumber`), so what is
left is shorter (`shortens_read`), and fuel hides nothing: with two calls for each character and one more, a value is
read as with any more (`readValue_add`).
-/
import TokenGate.Json.Reader

namespace TokenGate.Json

/-! ## How values begin -/

section

variable {fuel : Nat}

/-- An array begins with an item, unless it is empty. -/
theorem readValue_items {s : List Char} (h : ∀ t, skipSpace s ≠ ']' :: t) :
    readValue (fuel + 1) ('[' :: s) = (readItems fuel (skipSpace s)).map fun (vs, rest) => (.array vs, rest) := by
  rw [readValue]
  split
  next t ht => exact absurd ht (h t)
  next => rfl

theorem readValue_brace (s : List Char) :
    readValue (fuel + 1) (Char.ofNat 0x7B :: s) =
      match skipSpace s with
      | [] => .none
      | d :: s =>
        if d = Char.ofNat 0x7D then .some (.object [], s)
        else (readMembers fuel (d :: s)).map fun (ms, rest) => (.object ms, rest) := rfl

/-- An object begins with a member, unless it is empty. -/
theorem readValue_brace_of_ne {s t : List Char} {d : Char} (hs : skipSpace s = d :: t) (hd : d ≠ Char.ofNat 0x7D) :
    readValue (fuel + 1) (Char.ofNat 0x7B :: s) =
      (readMembers fuel (d :: t)).map fun (ms, rest) => (.object ms, rest) := by
  rw [readValue_brace, hs]
  exact if_neg hd

/-- What the values begin with that are no numbers. -/
def openings : List (List Char) :=
  [['n', 'u', 'l', 'l'], ['t', 'r', 'u', 'e'], ['f', 'a', 'l', 's', 'e'], ['"'], ['['], [Char.ofNat 0x7B]]

/-- What begins like no other value is read as a number. -/
theorem readValue_eq_readNumber {c : Char} {s : List Char} (h : ∀ w ∈ openings, ¬ w <+: c :: s) :
    readValue (fuel + 1) (c :: s) = (readNumber (c :: s)).map fun (n, rest) => (.number n, rest) := by
  simp only [openings, List.forall_mem_cons] at h
  obtain ⟨hnull, htrue, hfalse, hquote, hbracket, hbrace, -⟩ := h
  rw [readValue, if_neg (by rintro rfl; exact hbrace ⟨s, rfl⟩)]
  · rintro t rfl rfl
    exact hnull ⟨t, rfl⟩
  · rintro t rfl rfl
    exact htrue ⟨t, rfl⟩
  · rintro t rfl rfl
    exact hfalse ⟨t, rfl⟩
  · rintro rfl
    exact hquote ⟨s, rfl⟩
  · rintro rfl
    exact hbracket ⟨s, rfl⟩

/-- A member begins with a quote. -/
theorem readMembers_eq_none {s : List Char} (h : ¬ ['"'] <+: s) : readMembers (fuel + 1) s = .none := by
  unfold readMembers
  split
  next t => exact absurd ⟨t, rfl⟩ h
  next => rfl

end

/-! ## What is taken -/

theorem length_skipSpace_le (s : List Char) : (skipSpace s).length ≤ s.length :=
  (List.dropWhile_sublist _).length_le

theorem length_lt_of_skipSpace {s t : List Char} {c : Char} (h : skipSpace s = c :: t) : t.length < s.length := by
  have hle := length_skipSpace_le s
  rw [h, List.length_cons] at hle
  exact hle

/-- A string is what stands up to its closing quote. -/
theorem eq_of_readSpelling {s k rest : List Char} (h : readSpelling s = .some (k, rest)) : s = k ++ '"' :: rest := by
  fun_induction readSpelling s generalizing k with
  | case1 => cases h
  | case2 s => cases h; rfl
  | case3 e s hescape ih =>
    obtain ⟨⟨k', rest'⟩, hread, hpair⟩ := Option.map_eq_some_iff.1 h
    cases hpair
    rw [ih hread, List.cons_append, List.cons_append]
  | case4 => cases h
  | case5 => cases h
  | case6 c s _ _ _ ih =>
    obtain ⟨⟨k', rest'⟩, hread, hpair⟩ := Option.map_eq_some_iff.1 h
    cases hpair
    rw [ih hread, List.cons_append]

theorem eq_of_readRun {s ds rest : List Char} (h : readRun s = .some (ds, rest)) : s = ds ++ rest ∧ ds ≠ [] := by
  unfold readRun at h
  split at h
  next => cases h
  next ds' hne =>
    cases h
    exact ⟨List.takeWhile_append_dropWhile.symm, hne⟩

theorem eq_of_readWhole {s ds rest : List Char} (h : readWhole s = .some (ds, rest)) : s = ds ++ rest ∧ ds ≠ [] := by
  unfold readWhole at h
  split at h
  next => cases h
  next => exact eq_of_readRun h

theorem eq_of_readFraction {s ds rest : List Char} (h : readFraction s = .some (ds, rest)) : s = ds ++ rest := by
  unfold readFraction at h
  split at h
  next s =>
    obtain ⟨⟨ds', rest'⟩, hrun, hpair⟩ := Option.map_eq_some_iff.1 h
    cases hpair
    rw [(eq_of_readRun hrun).1, List.cons_append]
  next => cases h; rfl

theorem eq_of_readExponent {s ds rest : List Char} (h : readExponent s = .some (ds, rest)) : s = ds ++ rest := by
  fun_cases readExponent s with
  | case1 e sign s he hsign =>
    rw [readExponent, if_pos he, if_pos hsign] at h
    obtain ⟨⟨ds', rest'⟩, hrun, hpair⟩ := Option.map_eq_some_iff.1 h
    cases hpair
    rw [(eq_of_readRun hrun).1, List.cons_append, List.cons_append]
  | case2 e sign s he hsign =>
    rw [readExponent, if_pos he, if_neg hsign] at h
    obtain ⟨⟨ds', rest'⟩, hrun, hpair⟩ := Option.map_eq_some_iff.1 h
    cases hpair
    rw [(eq_of_readRun hrun).1, List.cons_append]
  | case3 e sign s he => rw [readExponent, if_neg he] at h; cases h; rfl
  | case4 e he => rw [readExponent, if_pos he] at h; cases h
  | case5 e he => rw [readExponent, if_neg he] at h; cases h; rfl
  | case6 => cases h; rfl

theorem eq_of_readMagnitude {s n rest : List Char} (h : readMagnitude s = .some (n, rest)) :
    s = n ++ rest ∧ n ≠ [] := by
  simp only [readMagnitude, Option.bind_eq_bind, Option.bind_eq_some_iff] at h
  obtain ⟨⟨whole, s₁⟩, hwhole, ⟨fraction, s₂⟩, hfraction, ⟨exponent, s₃⟩, hexponent, hpair⟩ := h
  cases hpair
  obtain ⟨rfl, hne⟩ := eq_of_readWhole hwhole
  obtain rfl := eq_of_readFraction hfraction
  obtain rfl := eq_of_readExponent hexponent
  exact ⟨by simp, by simp [hne]⟩

/-- A number is the text in front of what stands behind it. -/
theorem eq_of_readNumber {s n rest : List Char} (h : readNumber s = .some (n, rest)) : s = n ++ rest ∧ n ≠ [] := by
  unfold readNumber at h
  split at h
  next s =>
    obtain ⟨⟨m, rest'⟩, hread, hpair⟩ := Option.map_eq_some_iff.1 h
    cases hpair
    exact ⟨by rw [(eq_of_readMagnitude hread).1, List.cons_append], nofun⟩
  next => exact eq_of_readMagnitude h

/-! ## What is left -/

/-- A reader that takes something of every text that it reads. -/
def Shortens {α : Type} (read : List Char → Option (α × List Char)) : Prop :=
  ∀ ⦃s : List Char⦄ ⦃a : α⦄ ⦃rest : List Char⦄, read s = .some (a, rest) → rest.length < s.length

theorem shortens_readSpelling : Shortens readSpelling := by
  intro s k rest h
  rw [eq_of_readSpelling h, List.length_append, List.length_cons]
  omega

theorem shortens_readNumber : Shortens readNumber := by
  intro s n rest h
  obtain ⟨heq, hne⟩ := eq_of_readNumber h
  have hpos := List.length_pos_iff.2 hne
  rw [heq, List.length_append]
  omega

section

variable {fuel : Nat}

theorem shortens_readValue (hitems : Shortens (readItems fuel)) (hmembers : Shortens (readMembers fuel)) :
    Shortens (readValue (fuel + 1)) := by
  intro s v rest h
  unfold readValue at h
  split at h
  next => cases h; exact Nat.lt_add_of_pos_right (by decide : 0 < 4)
  next => cases h; exact Nat.lt_add_of_pos_right (by decide : 0 < 4)
  next => cases h; exact Nat.lt_add_of_pos_right (by decide : 0 < 5)
  next s =>
    obtain ⟨⟨k, rest'⟩, hread, hpair⟩ := Option.map_eq_some_iff.1 h
    cases hpair
    exact Nat.lt_succ_of_lt (shortens_readSpelling hread)
  next s =>
    split at h
    next s' hs =>
      cases h
      exact Nat.lt_succ_of_lt (length_lt_of_skipSpace hs)
    next =>
      obtain ⟨⟨vs, rest'⟩, hread, hpair⟩ := Option.map_eq_some_iff.1 h
      cases hpair
      exact Nat.lt_succ_of_lt (Nat.lt_of_lt_of_le (hitems hread) (length_skipSpace_le s))
  next c s _ _ _ _ _ =>
    split at h
    next =>
      split at h
      next => cases h
      next d s' hs =>
        have hlt := length_lt_of_skipSpace hs
        split at h
        next => cases h; exact Nat.lt_succ_of_lt hlt
        next =>
          obtain ⟨⟨ms, rest'⟩, hread, hpair⟩ := Option.map_eq_some_iff.1 h
          cases hpair
          exact Nat.lt_trans (hmembers hread) (Nat.succ_lt_succ hlt)
    next =>
      obtain ⟨⟨n, rest'⟩, hread, hpair⟩ := Option.map_eq_some_iff.1 h
      cases hpair
      exact shortens_readNumber hread
  next => cases h

theorem shortens_readItems (hvalue : Shortens (readValue fuel)) (hitems : Shortens (readItems fuel)) :
    Shortens (readItems (fuel + 1)) := by
  intro s vs rest h
  simp only [readItems, Option.bind_eq_bind, Option.bind_eq_some_iff] at h
  obtain ⟨⟨v, s₁⟩, hread, h⟩ := h
  have hv := hvalue hread
  dsimp only at h
  split at h
  next s₂ hs =>
    obtain ⟨⟨vs', rest'⟩, hread', hpair⟩ := Option.bind_eq_some_iff.1 h
    cases hpair
    have hcomma := length_lt_of_skipSpace hs
    have hspace := length_skipSpace_le s₂
    exact Nat.lt_trans (hitems hread') (by omega)
  next s₂ hs =>
    cases h
    exact Nat.lt_trans (length_lt_of_skipSpace hs) hv
  next => cases h

theorem shortens_readMembers (hvalue : Shortens (readValue fuel)) (hmembers : Shortens (readMembers fuel)) :
    Shortens (readMembers (fuel + 1)) := by
  intro s ms rest h
  unfold readMembers at h
  split at h
  next s =>
    simp only [Option.bind_eq_bind, Option.bind_eq_some_iff] at h
    obtain ⟨⟨k, s₁⟩, hspelling, h⟩ := h
    have hk := shortens_readSpelling hspelling
    dsimp only at h
    split at h
    next s₂ hs₂ =>
      obtain ⟨⟨v, s₃⟩, hread, h⟩ := Option.bind_eq_some_iff.1 h
      have hcolon := length_lt_of_skipSpace hs₂
      have hspace := length_skipSpace_le s₂
      have hv := hvalue hread
      dsimp only at h
      split at h
      next c s₄ hs₄ =>
        have hsign := length_lt_of_skipSpace hs₄
        split at h
        next =>
          obtain ⟨⟨ms', rest'⟩, hread', hpair⟩ := Option.bind_eq_some_iff.1 h
          cases hpair
          have hspace' := length_skipSpace_le s₄
          exact Nat.lt_trans (hmembers hread') (by simp only [List.length_cons]; omega)
        next =>
          split at h
          next => cases h; simp only [List.length_cons]; omega
          next => cases h
      next => cases h
    next => cases h
  next => cases h

end

theorem shortens_read (fuel : Nat) :
    Shortens (readValue fuel) ∧ Shortens (readItems fuel) ∧ Shortens (readMembers fuel) := by
  induction fuel with
  | zero => exact ⟨nofun, nofun, nofun⟩
  | succ fuel ih =>
    obtain ⟨hvalue, hitems, hmembers⟩ := ih
    exact ⟨shortens_readValue hitems hmembers, shortens_readItems hvalue hitems, shortens_readMembers hvalue hmembers⟩

/-! ## Fuel -/

/-- One more call makes no difference where `fuel` allows for two calls for each character and `more` others. -/
def Suffices {α : Type} (read : Nat → List Char → Option α) (more fuel : Nat) : Prop :=
  ∀ ⦃s : List Char⦄, 2 * s.length + more ≤ fuel → read (fuel + 1) s = read fuel s

section

variable {fuel : Nat}

theorem suffices_readValue (hitems : Suffices readItems 2 fuel) (hmembers : Suffices readMembers 2 fuel) :
    Suffices readValue 1 (fuel + 1) := by
  intro s hfuel
  unfold readValue
  split
  next => rfl
  next => rfl
  next => rfl
  next => rfl
  next s =>
    have hspace := length_skipSpace_le s
    rw [List.length_cons] at hfuel
    split
    next => rfl
    next => rw [hitems (by omega)]
  next c s _ _ _ _ _ =>
    split
    next =>
      split
      next => rfl
      next d s' hs =>
        have hlt := length_lt_of_skipSpace hs
        simp only [List.length_cons] at hfuel
        rw [hmembers (by simp only [List.length_cons]; omega)]
    next => rfl
  next => rfl

theorem suffices_readItems (hvalue : Suffices readValue 1 fuel) (hitems : Suffices readItems 2 fuel) :
    Suffices readItems 2 (fuel + 1) := by
  intro s hfuel
  rw [readItems, readItems, hvalue (by omega)]
  refine Option.bind_congr fun (v, s₁) hread => ?_
  have hv := (shortens_read fuel).1 hread
  dsimp only
  split
  next s₂ hs =>
    have hcomma := length_lt_of_skipSpace hs
    have hspace := length_skipSpace_le s₂
    rw [hitems (by omega)]
  next => rfl
  next => rfl

theorem suffices_readMembers (hvalue : Suffices readValue 1 fuel) (hmembers : Suffices readMembers 2 fuel) :
    Suffices readMembers 2 (fuel + 1) := by
  intro s hfuel
  unfold readMembers
  split
  next s =>
    refine Option.bind_congr fun (k, s₁) hspelling => ?_
    have hk := shortens_readSpelling hspelling
    rw [List.length_cons] at hfuel
    dsimp only
    split
    next s₂ hs₂ =>
      have hcolon := length_lt_of_skipSpace hs₂
      have hspace := length_skipSpace_le s₂
      rw [hvalue (by omega)]
      refine Option.bind_congr fun (v, s₃) hread => ?_
      have hv := (shortens_read fuel).1 hread
      dsimp only
      split
      next c s₄ hs₄ =>
        have hsign := length_lt_of_skipSpace hs₄
        have hspace' := length_skipSpace_le s₄
        rw [hmembers (by omega)]
      next => rfl
    next => rfl
  next => rfl

end

theorem suffices_read (fuel : Nat) :
    Suffices readValue 1 fuel ∧ Suffices readItems 2 fuel ∧ Suffices readMembers 2 fuel := by
  induction fuel with
  | zero => exact ⟨nofun, nofun, nofun⟩
  | succ fuel ih =>
    obtain ⟨hvalue, hitems, hmembers⟩ := ih
    exact ⟨suffices_readValue hitems hmembers, suffices_readItems hvalue hitems, suffices_readMembers hvalue hmembers⟩

/-- **Fuel hides nothing.** With two calls for each character and one more, a text is read as with any more. -/
theorem readValue_add {fuel : Nat} {s : List Char} (h : 2 * s.length < fuel) (more : Nat) :
    readValue (fuel + more) s = readValue fuel s := by
  induction more with
  | zero => rfl
  | succ more ih => rw [← ih, ← Nat.add_assoc, (suffices_read (fuel + more)).1 (by omega)]

end TokenGate.Json
