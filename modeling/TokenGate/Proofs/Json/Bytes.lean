/-
Reading JSON from the bytes of a text.

The grammar looks at ASCII alone, and outside of it a text and the signs for its bytes differ only between quotes. So
the signs are read as the text is (`told_read`), and the bytes have the value of the text (`parseBytes_encode`). Between
quotes bytes mean what the text means that they are, and nothing where they are none (`unescape_respell`).
-/
import TokenGate.Json.Bytes
import TokenGate.Proofs.Json.Reader
import TokenGate.Proofs.Json.Spelling
import TokenGate.Proofs.Text.Utf8

namespace TokenGate.Json

/-! ## Signs -/

/-- The signs that stand for the bytes of a text. -/
def signs (s : List Char) : List Char :=
  (Text.Utf8.encode s).map signOf

theorem toNat_signOf (b : UInt8) : (signOf b).toNat = b.toNat := by
  have hsmall : b.toNat < 256 := b.toNat_lt
  have hvalid : b.toNat.isValidChar := .inl (by omega)
  rw [signOf, Char.ofNat, dif_pos hvalid]
  rfl

/-- A string of ill-formed bytes means nothing, and any other what its text means. -/
theorem unescape_respell (s : List Char) :
    unescape (respell s) = (Text.Utf8.decode? (s.map fun c => UInt8.ofNat c.toNat)).bind unescape := by
  unfold respell
  cases Text.Utf8.decode? (s.map fun c => UInt8.ofNat c.toNat) with
  | none => exact unescape_meaningless
  | some t => rfl

theorem respell_signs (s : List Char) : respell (signs s) = s := by
  have hbyte : ((fun c : Char => UInt8.ofNat c.toNat) ∘ signOf) = id := by
    funext b
    rw [Function.comp_apply, toNat_signOf, UInt8.ofNat_toNat, id]
  rw [respell, signs, List.map_map, hbyte, List.map_id, Text.Utf8.decode?_encode]
  rfl

/-- A character of ASCII is a sign itself. -/
theorem signs_cons_of_lt {c : Char} (h : c.toNat < 128) (s : List Char) : signs (c :: s) = c :: signs s := by
  have hsign : signOf (UInt8.ofNat c.toNat) = c := by
    rw [signOf, UInt8.toNat_ofNat_of_lt' (Nat.lt_trans h (by decide)), Char.ofNat_toNat]
  rw [signs, Text.Utf8.encode, List.flatMap_cons, Text.Utf8.encodeChar_of_lt h, List.singleton_append, List.map_cons,
    hsign]
  rfl

/-- The signs of a character outside ASCII are outside ASCII. -/
theorem exists_signs_cons {c : Char} (h : 128 ≤ c.toNat) :
    ∃ d w, (∀ s, signs (c :: s) = d :: (w ++ signs s)) ∧ ∀ x ∈ d :: w, 128 ≤ x.toNat := by
  obtain ⟨b, bs, hform, -⟩ := Text.Utf8.first_encodeChar c []
  refine ⟨signOf b, bs.map signOf, fun s => ?_, ?_⟩
  · rw [signs, Text.Utf8.encode, List.flatMap_cons, hform, List.map_append]
    rfl
  · intro x hx
    obtain ⟨b', hb', rfl⟩ := List.mem_map.1 (List.map_cons (f := signOf) ▸ hx)
    rw [toNat_signOf]
    exact Text.Utf8.le_of_mem_encodeChar h b' (hform ▸ hb')

/-- A character of ASCII is a sign only where it is a character. -/
theorem eq_of_signs_eq_cons {a : Char} (ha : a.toNat < 128) {s t : List Char} (h : signs s = a :: t) :
    ∃ s', s = a :: s' ∧ t = signs s' := by
  cases s with
  | nil => cases h
  | cons c s =>
    rcases Nat.lt_or_ge c.toNat 128 with hc | hc
    · rw [signs_cons_of_lt hc] at h
      cases h
      exact ⟨s, rfl, rfl⟩
    · obtain ⟨d, w, hform, hlarge⟩ := exists_signs_cons hc
      rw [hform] at h
      cases h
      exact absurd (hlarge a List.mem_cons_self) (Nat.not_le.2 ha)

/-- A text begins with a word of ASCII if its signs begin with it. -/
theorem prefix_of_prefix_signs {w s : List Char} (hw : ∀ a ∈ w, a.toNat < 128) (h : w <+: signs s) : w <+: s := by
  induction w generalizing s with
  | nil => exact List.nil_prefix
  | cons a w ih =>
    obtain ⟨ha, hw⟩ := List.forall_mem_cons.1 hw
    obtain ⟨t, ht⟩ := h
    obtain ⟨s', rfl, hs'⟩ := eq_of_signs_eq_cons ha ht.symm
    exact List.cons_prefix_cons.2 ⟨rfl, ih hw ⟨t, hs'⟩⟩

/-- A text begins with a character of ASCII if its signs begin with it. -/
theorem exists_head (c : Char) (s : List Char) :
    ∃ d w, signs (c :: s) = d :: w ∧ ∀ a : Char, a.toNat < 128 → (d = a ↔ c = a) := by
  rcases Nat.lt_or_ge c.toNat 128 with hc | hc
  · exact ⟨c, signs s, signs_cons_of_lt hc s, fun _ _ => Iff.rfl⟩
  · obtain ⟨d, w, hform, hlarge⟩ := exists_signs_cons hc
    refine ⟨d, w ++ signs s, hform s, fun a ha => iff_of_false ?_ ?_⟩
    · rintro rfl
      exact absurd (hlarge d List.mem_cons_self) (Nat.not_le.2 ha)
    · rintro rfl
      exact absurd hc (Nat.not_le.2 ha)

theorem length_le_signs (s : List Char) : s.length ≤ (signs s).length := by
  induction s with
  | nil => exact Nat.le_refl _
  | cons c s ih =>
    rcases Nat.lt_or_ge c.toNat 128 with hc | hc
    · rw [signs_cons_of_lt hc]
      exact Nat.succ_le_succ ih
    · obtain ⟨d, w, hform, -⟩ := exists_signs_cons hc
      rw [hform, List.length_cons, List.length_cons, List.length_append]
      omega

theorem signs_eq_nil_iff {s : List Char} : signs s = [] ↔ s = [] := by
  constructor
  · intro h
    have hle := length_le_signs s
    rw [h] at hle
    exact List.eq_nil_of_length_eq_zero (Nat.le_zero.1 hle)
  · rintro rfl
    rfl

/-! ## What stands in front -/

section

variable {p : Char → Bool} (hp : ∀ c : Char, 128 ≤ c.toNat → p c = false)

include hp

theorem takeWhile_signs (s : List Char) : (signs s).takeWhile p = s.takeWhile p := by
  induction s with
  | nil => rfl
  | cons c s ih =>
    rcases Nat.lt_or_ge c.toNat 128 with hc | hc
    · rw [signs_cons_of_lt hc, List.takeWhile_cons, List.takeWhile_cons, ih]
    · obtain ⟨d, w, hform, hlarge⟩ := exists_signs_cons hc
      have hd := hp d (hlarge d List.mem_cons_self)
      rw [hform, List.takeWhile_cons_of_neg (by simp [hd]), List.takeWhile_cons_of_neg (by simp [hp c hc])]

theorem dropWhile_signs (s : List Char) : (signs s).dropWhile p = signs (s.dropWhile p) := by
  induction s with
  | nil => rfl
  | cons c s ih =>
    rcases Nat.lt_or_ge c.toNat 128 with hc | hc
    · rw [signs_cons_of_lt hc, List.dropWhile_cons, List.dropWhile_cons, ih]
      split
      next => rfl
      next => rw [signs_cons_of_lt hc]
    · obtain ⟨d, w, hform, hlarge⟩ := exists_signs_cons hc
      have hd := hp d (hlarge d List.mem_cons_self)
      rw [List.dropWhile_cons_of_neg (by simp [hp c hc]), hform, List.dropWhile_cons_of_neg (by simp [hd])]

/-- Whether the first `n` characters are there and have a property. -/
theorem take_signs (n : Nat) (s : List Char) :
    (((signs s).take n).length == n && ((signs s).take n).all p) = ((s.take n).length == n && (s.take n).all p) := by
  induction n generalizing s with
  | zero => rfl
  | succ n ih =>
    cases s with
    | nil => rfl
    | cons c s =>
      rcases Nat.lt_or_ge c.toNat 128 with hc | hc
      · have hcount (m : Nat) : (m + 1 == n + 1) = (m == n) := by simp
        simp only [signs_cons_of_lt hc, List.take_succ_cons, List.length_cons, List.all_cons, hcount,
          Bool.and_left_comm, ih]
      · obtain ⟨d, w, hform, hlarge⟩ := exists_signs_cons hc
        have hd := hp d (hlarge d List.mem_cons_self)
        simp [hform, hd, hp c hc]

end

theorem skipSpace_signs (s : List Char) : skipSpace (signs s) = signs (skipSpace s) := by
  refine dropWhile_signs (fun c hc => ?_) s
  rw [← Bool.not_eq_true]
  intro hspace
  simp only [isSpace, Bool.or_eq_true, beq_iff_eq] at hspace
  rcases hspace with ((rfl | rfl) | rfl) | rfl <;> exact absurd hc (by decide)

theorem isDigit_eq_false {c : Char} (hc : 128 ≤ c.toNat) : c.isDigit = false := by
  have hnine : ¬ c.val ≤ '9'.val := fun h => absurd (UInt32.le_iff_toNat_le.1 h) (by change ¬ c.toNat ≤ 57; omega)
  simp only [Char.isDigit, hnine, decide_false, Bool.and_false]

theorem digitValue_eq_none {c : Char} (hc : 128 ≤ c.toNat) : Text.digitValue 16 c = .none := by
  have hlast (d : Char) (hd : d.toNat < 128) : ¬ c ≤ d := fun h =>
    absurd (UInt32.le_iff_toNat_le.1 h) (Nat.not_le.2 (Nat.lt_of_lt_of_le hd hc))
  simp only [Text.digitValue, hlast '9' (by decide), hlast 'z' (by decide), hlast 'Z' (by decide), and_false, if_false]
  rfl

theorem startsWithUnit_signs (s : List Char) : startsWithUnit (signs s) = startsWithUnit s :=
  take_signs (fun c hc => by rw [digitValue_eq_none hc]; rfl) 4 s

/-! ## Strings -/

/-- What may stand behind a backslash is ASCII. -/
theorem lt_of_escapes {e : Char} {s : List Char}
    (h : e ∈ ['"', '\\', '/', 'b', 'f', 'n', 'r', 't'] ∨ e = 'u' ∧ startsWithUnit s) : e.toNat < 128 := by
  simp only [List.mem_cons, List.not_mem_nil, or_false] at h
  rcases h with (rfl | rfl | rfl | rfl | rfl | rfl | rfl | rfl) | ⟨rfl, -⟩ <;> decide

/-- Signs outside ASCII stand for themselves. -/
theorem readSpelling_append {w : List Char} (h : ∀ x ∈ w, 128 ≤ x.toNat) (s : List Char) :
    readSpelling (w ++ s) = (readSpelling s).map fun (k, rest) => (w ++ k, rest) := by
  induction w with
  | nil => simp
  | cons c w ih =>
    obtain ⟨hc, hw⟩ := List.forall_mem_cons.1 h
    have hne (d : Char) (hd : d.toNat < 128) : c ≠ d := by
      rintro rfl
      exact absurd hc (Nat.not_le.2 hd)
    rw [List.cons_append, readSpelling_cons (Nat.le_trans (by decide) hc) (hne '"' (by decide)) (hne '\\' (by decide)),
      ih hw, Option.map_map]
    rfl

theorem readSpelling_signs (s : List Char) :
    readSpelling (signs s) = (readSpelling s).map fun (k, rest) => (signs k, signs rest) := by
  fun_induction readSpelling s with
  | case1 => rfl
  | case2 s => rw [signs_cons_of_lt (by decide)]; rfl
  | case3 e s hescape ih =>
    have he := lt_of_escapes hescape
    rw [signs_cons_of_lt (by decide), signs_cons_of_lt he, readSpelling, startsWithUnit_signs, if_pos hescape, ih,
      Option.map_map, Option.map_map]
    refine congrArg (Option.map · _) (funext fun p => ?_)
    simp only [Function.comp_apply, signs_cons_of_lt he, signs_cons_of_lt (c := '\\') (by decide)]
  | case4 e s hescape =>
    rw [signs_cons_of_lt (by decide)]
    rcases Nat.lt_or_ge e.toNat 128 with he | he
    · rw [signs_cons_of_lt he, readSpelling, startsWithUnit_signs, if_neg hescape]
      rfl
    · obtain ⟨d, w, hform, hlarge⟩ := exists_signs_cons he
      have hescape' : ¬ (d ∈ ['"', '\\', '/', 'b', 'f', 'n', 'r', 't'] ∨ d = 'u' ∧ startsWithUnit (w ++ signs s)) :=
        fun h => absurd (hlarge d List.mem_cons_self) (Nat.not_le.2 (lt_of_escapes h))
      rw [hform, readSpelling, if_neg hescape']
      rfl
  | case5 c s hquote hpair hbad =>
    have hc : c.toNat < 128 := by
      rcases hbad with hsmall | rfl
      · omega
      · decide
    rw [signs_cons_of_lt hc, readSpelling, if_pos hbad]
    · rfl
    · exact hquote
    · intro e t hslash hsigns
      cases s with
      | nil => cases hsigns
      | cons e s => exact hpair e s hslash rfl
  | case6 c s hquote hpair hgood ih =>
    have hlarge : 32 ≤ c.toNat := Nat.not_lt.1 fun h => hgood (.inl h)
    rcases Nat.lt_or_ge c.toNat 128 with hc | hc
    · rw [signs_cons_of_lt hc, readSpelling_cons hlarge hquote fun h => hgood (.inr h), ih, Option.map_map,
        Option.map_map]
      refine congrArg (Option.map · _) (funext fun p => ?_)
      simp only [Function.comp_apply, signs_cons_of_lt hc]
    · obtain ⟨d, w, hform, hlarge⟩ := exists_signs_cons hc
      have hform' (t : List Char) : signs (c :: t) = (d :: w) ++ signs t := hform t
      rw [hform', readSpelling_append hlarge, ih, Option.map_map, Option.map_map]
      refine congrArg (Option.map · _) (funext fun p => ?_)
      simp only [Function.comp_apply, hform']

/-! ## Numbers -/

theorem readRun_signs (s : List Char) : readRun (signs s) = (readRun s).map fun (ds, rest) => (ds, signs rest) := by
  unfold readRun
  rw [takeWhile_signs (fun c => isDigit_eq_false), dropWhile_signs (fun c => isDigit_eq_false)]
  cases s.takeWhile Char.isDigit with
  | nil => rfl
  | cons d ds => rfl

theorem readWhole_signs (s : List Char) :
    readWhole (signs s) = (readWhole s).map fun (ds, rest) => (ds, signs rest) := by
  unfold readWhole
  rw [readRun_signs]
  cases readRun s with
  | none => rfl
  | some r =>
    obtain ⟨ds, rest⟩ := r
    rw [Option.map_some]
    split <;> simp_all

theorem readFraction_cons {c : Char} (hc : c ≠ '.') (s : List Char) : readFraction (c :: s) = .some ([], c :: s) := by
  rw [readFraction]
  intro s' h
  exact hc (List.cons.inj h).1

theorem readFraction_signs (s : List Char) :
    readFraction (signs s) = (readFraction s).map fun (ds, rest) => (ds, signs rest) := by
  cases s with
  | nil => rfl
  | cons c s =>
    by_cases hc : c = '.'
    · subst hc
      rw [signs_cons_of_lt (by decide), readFraction, readFraction, readRun_signs, Option.map_map, Option.map_map]
      rfl
    · obtain ⟨d, w, hform, hhead⟩ := exists_head c s
      rw [readFraction_cons hc, hform, readFraction_cons (fun h => hc ((hhead '.' (by decide)).1 h)), ← hform]
      rfl

theorem readExponent_cons {e : Char} (he : ¬ (e = 'e' ∨ e = 'E')) (s : List Char) :
    readExponent (e :: s) = .some ([], e :: s) := by
  cases s with
  | nil => rw [readExponent, if_neg he]
  | cons sign s => rw [readExponent, if_neg he]

theorem readExponent_signs (s : List Char) :
    readExponent (signs s) = (readExponent s).map fun (ds, rest) => (ds, signs rest) := by
  cases s with
  | nil => rfl
  | cons e s =>
    by_cases he : e = 'e' ∨ e = 'E'
    · have hascii : e.toNat < 128 := by rcases he with rfl | rfl <;> decide
      rw [signs_cons_of_lt hascii]
      cases s with
      | nil =>
        have hnil : signs [] = [] := rfl
        rw [hnil, readExponent, if_pos he]
        rfl
      | cons sign s =>
        by_cases hsign : sign = '+' ∨ sign = '-'
        · have hascii' : sign.toNat < 128 := by rcases hsign with rfl | rfl <;> decide
          rw [signs_cons_of_lt hascii', readExponent, readExponent, if_pos he, if_pos he, if_pos hsign, if_pos hsign,
            readRun_signs, Option.map_map, Option.map_map]
          rfl
        · obtain ⟨d, w, hform, hhead⟩ := exists_head sign s
          have hd : ¬ (d = '+' ∨ d = '-') := by rwa [hhead '+' (by decide), hhead '-' (by decide)]
          rw [hform, readExponent, readExponent, if_pos he, if_pos he, if_neg hsign, if_neg hd, ← hform, readRun_signs,
            Option.map_map, Option.map_map]
          rfl
    · obtain ⟨d, w, hform, hhead⟩ := exists_head e s
      have hd : ¬ (d = 'e' ∨ d = 'E') := by rwa [hhead 'e' (by decide), hhead 'E' (by decide)]
      rw [readExponent_cons he, hform, readExponent_cons hd, ← hform]
      rfl

theorem readMagnitude_signs (s : List Char) :
    readMagnitude (signs s) = (readMagnitude s).map fun (n, rest) => (n, signs rest) := by
  simp only [readMagnitude, readWhole_signs, Option.bind_eq_bind, Option.bind_map, Option.map_bind]
  refine Option.bind_congr fun p _ => ?_
  simp only [Function.comp_apply, readFraction_signs, Option.bind_map, Option.map_bind]
  refine Option.bind_congr fun p' _ => ?_
  simp only [Function.comp_apply, readExponent_signs, Option.bind_map]
  rfl

theorem readNumber_cons {c : Char} (hc : c ≠ '-') (s : List Char) : readNumber (c :: s) = readMagnitude (c :: s) := by
  rw [readNumber]
  intro s' h
  exact hc (List.cons.inj h).1

theorem readNumber_signs (s : List Char) :
    readNumber (signs s) = (readNumber s).map fun (n, rest) => (n, signs rest) := by
  cases s with
  | nil => rfl
  | cons c s =>
    by_cases hc : c = '-'
    · subst hc
      rw [signs_cons_of_lt (by decide), readNumber, readNumber, readMagnitude_signs, Option.map_map, Option.map_map]
      rfl
    · obtain ⟨d, w, hform, hhead⟩ := exists_head c s
      rw [readNumber_cons hc, hform, readNumber_cons (fun h => hc ((hhead '-' (by decide)).1 h)), ← hform,
        readMagnitude_signs]

/-! ## Values -/

/-- What was read of signs means what was read of the text, and leaves the signs of what that leaves. -/
def Told {α : Type} (mean : α → α) (r r' : Option (α × List Char)) : Prop :=
  r = .none ∧ r' = .none ∨ ∃ a rest, r = .some (a, signs rest) ∧ r' = .some (mean a, rest)

theorem told_of_eq {α : Type} {mean : α → α} {r r' : Option (α × List Char)} (sign : α → α)
    (hsign : ∀ a, mean (sign a) = a) (h : r = r'.map fun (a, rest) => (sign a, signs rest)) : Told mean r r' := by
  cases r' with
  | none => exact .inl ⟨h, rfl⟩
  | some p => exact .inr ⟨sign p.1, p.2, h, by rw [hsign]⟩

theorem Told.map {α β : Type} {mean : α → α} {mean' : β → β} {r r' : Option (α × List Char)} (h : Told mean r r')
    {f : α → β} (hf : ∀ a, mean' (f a) = f (mean a)) :
    Told mean' (r.map fun (a, rest) => (f a, rest)) (r'.map fun (a, rest) => (f a, rest)) := by
  rcases h with ⟨rfl, rfl⟩ | ⟨a, rest, rfl, rfl⟩
  · exact .inl ⟨rfl, rfl⟩
  · exact .inr ⟨f a, rest, rfl, by rw [hf]; rfl⟩

theorem Told.bind {α β : Type} {mean : α → α} {mean' : β → β} {r r' : Option (α × List Char)} (h : Told mean r r')
    {f f' : α × List Char → Option (β × List Char)}
    (hf : ∀ a rest, Told mean' (f (a, signs rest)) (f' (mean a, rest))) : Told mean' (r.bind f) (r'.bind f') := by
  rcases h with ⟨rfl, rfl⟩ | ⟨a, rest, rfl, rfl⟩
  · exact .inl ⟨rfl, rfl⟩
  · exact hf a rest

theorem told_readSpelling (s : List Char) : Told respell (readSpelling (signs s)) (readSpelling s) :=
  told_of_eq signs respell_signs (readSpelling_signs s)

theorem told_readNumber (s : List Char) : Told id (readNumber (signs s)) (readNumber s) :=
  told_of_eq id (fun _ => rfl) (readNumber_signs s)

section

variable {fuel : Nat}

theorem told_readValue (hitems : ∀ s, Told itemsOfSigns (readItems fuel (signs s)) (readItems fuel s))
    (hmembers : ∀ s, Told membersOfSigns (readMembers fuel (signs s)) (readMembers fuel s)) (s : List Char) :
    Told ofSigns (readValue (fuel + 1) (signs s)) (readValue (fuel + 1) s) := by
  -- The cases are those of the text; the signs fall into the same one, since all that it tests is ASCII.
  generalize hread : readValue (fuel + 1) s = r
  unfold readValue at hread
  split at hread
  next s =>
    subst hread
    simp (disch := decide) only [signs_cons_of_lt]
    exact .inr ⟨.null, s, rfl, rfl⟩
  next s =>
    subst hread
    simp (disch := decide) only [signs_cons_of_lt]
    exact .inr ⟨.bool true, s, rfl, rfl⟩
  next s =>
    subst hread
    simp (disch := decide) only [signs_cons_of_lt]
    exact .inr ⟨.bool false, s, rfl, rfl⟩
  next s =>
    subst hread
    rw [signs_cons_of_lt (by decide), readValue]
    exact (told_readSpelling s).map fun k => by rw [ofSigns]
  next s =>
    rw [signs_cons_of_lt (by decide)]
    split at hread
    next t ht =>
      subst hread
      rw [readValue, skipSpace_signs, ht, signs_cons_of_lt (by decide)]
      exact .inr ⟨.array [], t, rfl, rfl⟩
    next hne =>
      have hne' (t : List Char) : skipSpace (signs s) ≠ ']' :: t := by
        intro ht
        obtain ⟨t', ht', -⟩ := eq_of_signs_eq_cons (by decide) (skipSpace_signs s ▸ ht)
        exact hne t' ht'
      subst hread
      rw [readValue_items hne', skipSpace_signs]
      exact (hitems _).map fun vs => by rw [ofSigns]
  next c s hnull htrue hfalse hquote hbracket =>
    split at hread
    next hbrace =>
      subst hbrace
      rw [signs_cons_of_lt (by decide)]
      split at hread
      next hnil =>
        subst hread
        rw [readValue_brace, skipSpace_signs, hnil]
        exact .inl ⟨rfl, rfl⟩
      next d t ht =>
        split at hread
        next hd =>
          subst hd hread
          rw [readValue_brace, skipSpace_signs, ht, signs_cons_of_lt (by decide)]
          exact .inr ⟨.object [], t, rfl, rfl⟩
        next hd =>
          subst hread
          obtain ⟨d', w, hform, hhead⟩ := exists_head d t
          have hd' : d' ≠ Char.ofNat 0x7D := fun h => hd ((hhead _ (by decide)).1 h)
          have ht' : skipSpace (signs s) = d' :: w := by rw [skipSpace_signs, ht, hform]
          rw [readValue_brace_of_ne ht' hd', ← hform]
          exact (hmembers _).map fun ms => by rw [ofSigns]
    next hbrace =>
      subst hread
      have hopens : ∀ w ∈ openings, ¬ w <+: c :: s := by
        simp only [openings, List.forall_mem_cons]
        refine ⟨?_, ?_, ?_, ?_, ?_, ?_, List.forall_mem_nil _⟩ <;> rintro ⟨t, ht⟩ <;> cases ht
        · exact hnull t rfl rfl
        · exact htrue t rfl rfl
        · exact hfalse t rfl rfl
        · exact hquote rfl
        · exact hbracket rfl
        · exact hbrace rfl
      have hascii : ∀ w ∈ openings, ∀ a ∈ w, a.toNat < 128 := by simp [openings]
      have hopens' : ∀ w ∈ openings, ¬ w <+: signs (c :: s) := fun w hw h =>
        hopens w hw (prefix_of_prefix_signs (hascii w hw) h)
      obtain ⟨d, w, hform, -⟩ := exists_head c s
      rw [hform] at hopens' ⊢
      rw [readValue_eq_readNumber hopens', ← hform]
      exact (told_readNumber _).map fun n => by rw [ofSigns]; rfl
  next =>
    subst hread
    exact .inl ⟨rfl, rfl⟩

theorem told_readItems (hvalue : ∀ s, Told ofSigns (readValue fuel (signs s)) (readValue fuel s))
    (hitems : ∀ s, Told itemsOfSigns (readItems fuel (signs s)) (readItems fuel s)) (s : List Char) :
    Told itemsOfSigns (readItems (fuel + 1) (signs s)) (readItems (fuel + 1) s) := by
  rw [readItems, readItems]
  refine (hvalue s).bind fun v s₁ => ?_
  dsimp only
  rw [skipSpace_signs]
  cases skipSpace s₁ with
  | nil => exact .inl ⟨rfl, rfl⟩
  | cons c s₂ =>
    by_cases hcomma : c = ','
    · subst hcomma
      simp (disch := decide) only [signs_cons_of_lt, skipSpace_signs]
      exact (hitems _).bind fun vs rest => .inr ⟨v :: vs, rest, rfl, by rw [itemsOfSigns]⟩
    by_cases hend : c = ']'
    · subst hend
      simp (disch := decide) only [signs_cons_of_lt]
      exact .inr ⟨[v], s₂, rfl, rfl⟩
    · obtain ⟨d, w, hform, hhead⟩ := exists_head c s₂
      have hcomma' : d ≠ ',' := fun h => hcomma ((hhead _ (by decide)).1 h)
      have hend' : d ≠ ']' := fun h => hend ((hhead _ (by decide)).1 h)
      rw [hform]
      left
      simp [hcomma, hend, hcomma', hend']

theorem told_readMembers (hvalue : ∀ s, Told ofSigns (readValue fuel (signs s)) (readValue fuel s))
    (hmembers : ∀ s, Told membersOfSigns (readMembers fuel (signs s)) (readMembers fuel s)) (s : List Char) :
    Told membersOfSigns (readMembers (fuel + 1) (signs s)) (readMembers (fuel + 1) s) := by
  by_cases hquote : ['"'] <+: s
  · obtain ⟨s, rfl⟩ := hquote
    have hcons (t : List Char) : signs (['"'] ++ t) = '"' :: signs t := signs_cons_of_lt (by decide) t
    rw [hcons, List.singleton_append, readMembers, readMembers]
    refine (told_readSpelling s).bind fun k s₁ => ?_
    dsimp only
    rw [skipSpace_signs]
    cases skipSpace s₁ with
    | nil => exact .inl ⟨rfl, rfl⟩
    | cons c s₂ =>
      by_cases hcolon : c = ':'
      · subst hcolon
        simp (disch := decide) only [signs_cons_of_lt, skipSpace_signs]
        refine (hvalue _).bind fun v s₃ => ?_
        dsimp only
        rw [skipSpace_signs]
        cases skipSpace s₃ with
        | nil => exact .inl ⟨rfl, rfl⟩
        | cons c s₄ =>
          by_cases hcomma : c = ','
          · subst hcomma
            simp (disch := decide) only [signs_cons_of_lt, skipSpace_signs, if_true]
            exact (hmembers _).bind fun ms rest => .inr ⟨(k, v) :: ms, rest, rfl, by rw [membersOfSigns]⟩
          by_cases hend : c = Char.ofNat 0x7D
          · subst hend
            rw [signs_cons_of_lt (by decide)]
            exact .inr ⟨[(k, v)], s₄, rfl, rfl⟩
          · obtain ⟨d, w, hform, hhead⟩ := exists_head c s₄
            have hcomma' : d ≠ ',' := fun h => hcomma ((hhead _ (by decide)).1 h)
            have hend' : d ≠ Char.ofNat 0x7D := fun h => hend ((hhead _ (by decide)).1 h)
            simp only [hform, if_neg hcomma, if_neg hcomma', if_neg hend, if_neg hend']
            exact .inl ⟨rfl, rfl⟩
      · obtain ⟨d, w, hform, hhead⟩ := exists_head c s₂
        have hcolon' : d ≠ ':' := fun h => hcolon ((hhead _ (by decide)).1 h)
        rw [hform]
        left
        simp [hcolon, hcolon']
  · have hquote' : ¬ ['"'] <+: signs s := fun h => hquote (prefix_of_prefix_signs (by simp) h)
    exact .inl ⟨readMembers_eq_none hquote', readMembers_eq_none hquote⟩

end

theorem told_read (fuel : Nat) :
    (∀ s, Told ofSigns (readValue fuel (signs s)) (readValue fuel s)) ∧
      (∀ s, Told itemsOfSigns (readItems fuel (signs s)) (readItems fuel s)) ∧
      (∀ s, Told membersOfSigns (readMembers fuel (signs s)) (readMembers fuel s)) := by
  induction fuel with
  | zero => exact ⟨fun _ => .inl ⟨rfl, rfl⟩, fun _ => .inl ⟨rfl, rfl⟩, fun _ => .inl ⟨rfl, rfl⟩⟩
  | succ fuel ih =>
    obtain ⟨hvalue, hitems, hmembers⟩ := ih
    exact ⟨told_readValue hitems hmembers, told_readItems hvalue hitems, told_readMembers hvalue hmembers⟩

/-- **The bytes of a text are read as the text.** -/
theorem parseBytes_encode (s : List Char) : parseBytes (Text.Utf8.encode s) = parse s := by
  have hfuel : readValue (2 * (signs s).length + 2) (skipSpace s) = readValue (2 * s.length + 2) (skipSpace s) := by
    have hspace := length_skipSpace_le s
    have hsigns := length_le_signs s
    obtain ⟨more, hmore⟩ := Nat.exists_eq_add_of_le (by omega : 2 * s.length + 2 ≤ 2 * (signs s).length + 2)
    rw [hmore, readValue_add (by omega)]
  have hread := (told_read (2 * (signs s).length + 2)).1 (skipSpace s)
  rw [hfuel] at hread
  have hparse : parseBytes (Text.Utf8.encode s) = (parse (signs s)).map ofSigns := rfl
  rw [hparse, parse, parse, skipSpace_signs]
  rcases hread with ⟨hsigns, htext⟩ | ⟨v, rest, hsigns, htext⟩
  · rw [hsigns, htext]
    rfl
  · rw [hsigns, htext]
    simp only [Option.bind_eq_bind, Option.bind_some, skipSpace_signs, List.isEmpty_iff, signs_eq_nil_iff]
    split <;> rfl

/-- What the bytes of a text mean is what the text means. -/
theorem decodeBytes_encode {α : Type} (read : Json → Option α) (s : String) :
    decodeBytes read (Text.Utf8.encode s.toList) = decode read s := by
  rw [decodeBytes, parseBytes_encode, decode]

end TokenGate.Json
