/-
Reading back what JSON values are written as.

A value that is made of texts and integers is read back from its compact form, whatever stands behind it that may stand
behind a value (`Written.reads`), so the whole form is a text of that value and of no other (`parse_render`).
-/
import TokenGate.Proofs.Json.Reader
import TokenGate.Proofs.Json.Spelling

namespace TokenGate.Json

/-- A value that is made of texts and integers, spelled the way these are written. -/
inductive Written : Json → Prop where
  | null : Written .null
  | bool (b : Bool) : Written (.bool b)
  | text (s : String) : Written (ofText s)
  | int (i : Int) : Written (ofInt i)
  | array {items : List Json} (h : ∀ v ∈ items, Written v) : Written (.array items)
  | object {members : List (List Char × Json)} (hkeys : ∀ m ∈ members, ∃ k : String, m.1 = escape k.toList)
      (h : ∀ m ∈ members, Written m.2) : Written (.object members)

/-- The value is read back from its compact form. Each character takes two calls at most, so that much fuel is
enough. -/
def Reads (v : Json) : Prop :=
  ∀ (fuel : Nat) (rest : List Char), EndsValue rest → 2 * v.render.length ≤ fuel →
    readValue fuel (v.render ++ rest) = .some (v, rest)

/-! ## Where forms begin and end -/

/-- An integer begins with a digit or a minus sign. -/
theorem exists_decimalInt_eq (i : Int) : ∃ c s, Text.decimalInt i = c :: s ∧ (c.isDigit = true ∨ c = '-') := by
  cases i with
  | ofNat n =>
    obtain ⟨c, t, ht⟩ := List.exists_cons_of_ne_nil (Text.decimal_ne_nil n)
    exact ⟨c, t, ht, .inl (Text.isDigit_of_mem_decimal (ht ▸ List.mem_cons_self))⟩
  | negSucc n => exact ⟨_, _, rfl, .inr rfl⟩

theorem skipSpace_cons {c : Char} (h : isSpace c = false) (s : List Char) : skipSpace (c :: s) = c :: s :=
  List.dropWhile_cons_of_neg (by simp [h])

theorem endsValue_renderItems (vs : List Json) (rest : List Char) : EndsValue (renderItems vs ++ rest) := by
  cases vs <;> simp [EndsValue, renderItems]

theorem endsValue_renderMembers (ms : List (List Char × Json)) (rest : List Char) :
    EndsValue (renderMembers ms ++ rest) := by
  cases ms <;> simp [EndsValue, renderMembers]

/-- The compact form of a value does not begin with white space, nor like the end of an array. -/
theorem Written.render_eq {v : Json} (h : Written v) :
    ∃ c s, v.render = c :: s ∧ isSpace c = false ∧ c ≠ ']' := by
  cases h with
  | null => exact ⟨_, _, rfl, by decide, by decide⟩
  | bool b => cases b <;> exact ⟨_, _, rfl, by decide, by decide⟩
  | text s => exact ⟨_, _, rfl, by decide, by decide⟩
  | int i =>
    obtain ⟨c, s, hs, hc⟩ := exists_decimalInt_eq i
    refine ⟨c, s, hs, ?_, ?_⟩
    · rw [← Bool.not_eq_true]
      intro hspace
      simp only [isSpace, Bool.or_eq_true, beq_iff_eq] at hspace
      rcases hspace with ((rfl | rfl) | rfl) | rfl <;> revert hc <;> decide
    · rintro rfl
      revert hc
      decide
  | @array items _ => cases items <;> exact ⟨_, _, rfl, by decide, by decide⟩
  | @object members _ _ => cases members <;> exact ⟨_, _, rfl, by decide, by decide⟩

theorem Written.skipSpace_render {v : Json} (h : Written v) (s : List Char) :
    skipSpace (v.render ++ s) = v.render ++ s := by
  obtain ⟨c, t, hrender, hspace, -⟩ := h.render_eq
  rw [hrender]
  exact skipSpace_cons hspace _

theorem Written.length_render_pos {v : Json} (h : Written v) : 0 < v.render.length := by
  obtain ⟨c, t, hrender, -⟩ := h.render_eq
  rw [hrender]
  exact Nat.zero_lt_succ _

/-! ## Items and members -/

theorem renderItems_cons_append (v : Json) (vs : List Json) (rest : List Char) :
    renderItems (v :: vs) ++ rest = ',' :: (v.render ++ (renderItems vs ++ rest)) := by
  simp [renderItems]

theorem renderMembers_cons_append (m : List Char × Json) (ms : List (List Char × Json)) (rest : List Char) :
    renderMembers (m :: ms) ++ rest =
      ',' :: '"' :: (m.1 ++ '"' :: ':' :: (m.2.render ++ (renderMembers ms ++ rest))) := by
  simp [renderMembers]

theorem readItems_render {v : Json} {vs : List Json} (h : ∀ x ∈ v :: vs, Written x ∧ Reads x) (fuel : Nat)
    (rest : List Char) (hfuel : 2 * (v.render ++ renderItems vs).length < fuel) :
    readItems fuel (v.render ++ (renderItems vs ++ rest)) = .some (v :: vs, rest) := by
  induction vs generalizing v fuel with
  | nil =>
    obtain ⟨fuel, rfl⟩ := Nat.exists_eq_succ_of_ne_zero (Nat.ne_zero_of_lt hfuel)
    obtain ⟨⟨-, hv⟩, -⟩ := List.forall_mem_cons.1 h
    have hread := hv fuel _ (endsValue_renderItems [] rest) (by simp at hfuel; omega)
    rw [readItems, hread]
    rfl
  | cons w vs ih =>
    obtain ⟨fuel, rfl⟩ := Nat.exists_eq_succ_of_ne_zero (Nat.ne_zero_of_lt hfuel)
    obtain ⟨⟨-, hv⟩, hvs⟩ := List.forall_mem_cons.1 h
    have hread := hv fuel _ (endsValue_renderItems (w :: vs) rest) (by simp at hfuel; omega)
    have hitems := ih hvs fuel (by simp [renderItems] at hfuel ⊢; omega)
    rw [renderItems_cons_append] at hread ⊢
    simp only [readItems, hread, Option.bind_eq_bind, Option.bind_some, skipSpace_cons (c := ',') rfl,
      (hvs w List.mem_cons_self).1.skipSpace_render, hitems]

theorem readMembers_render {m : List Char × Json} {ms : List (List Char × Json)}
    (h : ∀ x ∈ m :: ms, (∃ key : String, x.1 = escape key.toList) ∧ Written x.2 ∧ Reads x.2) (fuel : Nat)
    (rest : List Char) (hfuel : 2 * (m.1 ++ m.2.render ++ renderMembers ms).length < fuel) :
    readMembers fuel ('"' :: (m.1 ++ '"' :: ':' :: (m.2.render ++ (renderMembers ms ++ rest)))) =
      .some (m :: ms, rest) := by
  induction ms generalizing m fuel with
  | nil =>
    obtain ⟨fuel, rfl⟩ := Nat.exists_eq_succ_of_ne_zero (Nat.ne_zero_of_lt hfuel)
    obtain ⟨⟨⟨key, hkey⟩, hwritten, hm⟩, -⟩ := List.forall_mem_cons.1 h
    have hread := hm fuel _ (endsValue_renderMembers [] rest) (by simp at hfuel; omega)
    have hspelling (s : List Char) : readSpelling (m.1 ++ '"' :: s) = .some (m.1, s) := hkey ▸ readSpelling_escape ..
    simp only [readMembers, hspelling, Option.bind_eq_bind, Option.bind_some, skipSpace_cons (c := ':') rfl,
      hwritten.skipSpace_render, hread]
    rfl
  | cons n ms ih =>
    obtain ⟨fuel, rfl⟩ := Nat.exists_eq_succ_of_ne_zero (Nat.ne_zero_of_lt hfuel)
    obtain ⟨⟨⟨key, hkey⟩, hwritten, hm⟩, hms⟩ := List.forall_mem_cons.1 h
    have hread := hm fuel _ (endsValue_renderMembers (n :: ms) rest) (by simp at hfuel; omega)
    have hmembers := ih hms fuel (by simp [renderMembers] at hfuel ⊢; omega)
    have hspelling (s : List Char) : readSpelling (m.1 ++ '"' :: s) = .some (m.1, s) := hkey ▸ readSpelling_escape ..
    rw [renderMembers_cons_append] at hread ⊢
    simp only [readMembers, hspelling, Option.bind_eq_bind, Option.bind_some, skipSpace_cons (c := ':') rfl,
      hwritten.skipSpace_render, hread, skipSpace_cons (c := ',') rfl, skipSpace_cons (c := '"') rfl, hmembers, if_true]

/-! ## Values -/

/-- A number begins with a digit or a minus sign. -/
theorem readValue_number {c : Char} (hc : c.isDigit = true ∨ c = '-') (fuel : Nat) (s : List Char) :
    readValue (fuel + 1) (c :: s) = (readNumber (c :: s)).map fun (n, rest) => (.number n, rest) := by
  have hopens : ∀ w ∈ openings, ∃ d u, w = d :: u ∧ d.isDigit = false ∧ d ≠ '-' := by simp [openings]
  refine readValue_eq_readNumber fun w hw hprefix => ?_
  obtain ⟨d, u, rfl, hdigit, hminus⟩ := hopens w hw
  obtain rfl := (List.cons_prefix_cons.1 hprefix).1
  rcases hc with h | h
  · rw [hdigit] at h
    cases h
  · exact hminus h

/-- A value is looked at with at least one call. -/
theorem Reads.of_succ {v : Json} (hv : Written v)
    (h : ∀ (fuel : Nat) (rest : List Char), EndsValue rest → 2 * v.render.length ≤ fuel + 1 →
      readValue (fuel + 1) (v.render ++ rest) = .some (v, rest)) : Reads v := by
  intro fuel rest hrest hfuel
  have hpos := hv.length_render_pos
  obtain ⟨fuel, rfl⟩ := Nat.exists_eq_add_one_of_ne_zero (n := fuel) (by omega)
  exact h fuel rest hrest hfuel

theorem reads_ofText (s : String) : Reads (ofText s) := by
  refine .of_succ (.text s) fun fuel rest _ _ => ?_
  have hrender : (ofText s).render ++ rest = '"' :: (escape s.toList ++ '"' :: rest) := by simp [ofText, render]
  rw [hrender, readValue, readSpelling_escape]
  rfl

theorem reads_ofInt (i : Int) : Reads (ofInt i) := by
  refine .of_succ (.int i) fun fuel rest hrest _ => ?_
  obtain ⟨c, s, hs, hc⟩ := exists_decimalInt_eq i
  rw [ofInt, render, hs, List.cons_append, readValue_number hc, ← List.cons_append, ← hs, readNumber_decimalInt hrest]
  rfl

theorem Written.reads {v : Json} (h : Written v) : Reads v := by
  induction h with
  | null => exact .of_succ .null fun _ _ _ _ => rfl
  | bool b => cases b <;> exact .of_succ (.bool _) fun _ _ _ _ => rfl
  | text s => exact reads_ofText s
  | int i => exact reads_ofInt i
  | @array items h ih =>
    refine .of_succ (.array h) fun fuel rest hrest hfuel => ?_
    cases items with
    | nil => rfl
    | cons v vs =>
      have hitems := readItems_render (fun x hx => ⟨h x hx, ih x hx⟩) fuel rest
        (by simp [render] at hfuel ⊢; omega)
      obtain ⟨c, s, hrender, -, hc⟩ := (h v List.mem_cons_self).render_eq
      have hform : (Json.array (v :: vs)).render ++ rest = '[' :: (v.render ++ (renderItems vs ++ rest)) := by
        simp [render]
      have hskip := (h v List.mem_cons_self).skipSpace_render (renderItems vs ++ rest)
      have hfirst (t : List Char) : skipSpace (v.render ++ (renderItems vs ++ rest)) ≠ ']' :: t := by
        rw [hskip, hrender]
        exact fun ht => hc (List.cons.inj ht).1
      rw [hform, readValue_items hfirst, hskip, hitems]
      rfl
  | @object members hkeys h ih =>
    refine .of_succ (.object hkeys h) fun fuel rest hrest hfuel => ?_
    cases members with
    | nil => rfl
    | cons m ms =>
      have hmembers := readMembers_render (fun x hx => ⟨hkeys x hx, h x hx, ih x hx⟩) fuel rest
        (by simp [render] at hfuel ⊢; omega)
      have hform : (Json.object (m :: ms)).render ++ rest =
          Char.ofNat 0x7B :: '"' :: (m.1 ++ '"' :: ':' :: (m.2.render ++ (renderMembers ms ++ rest))) := by
        simp [render]
      rw [hform, readValue_brace_of_ne (skipSpace_cons rfl _) (by decide), hmembers]
      rfl

/-- **Values are read back.** What a value made of texts and integers is written as is a text of that value. -/
theorem parse_render {v : Json} (h : Written v) : parse v.render = .some v := by
  have hread := h.reads (2 * v.render.length + 2) [] nofun (Nat.le_add_right _ _)
  have hspace := h.skipSpace_render []
  rw [List.append_nil] at hread hspace
  rw [parse, hspace, hread]
  rfl

end TokenGate.Json
