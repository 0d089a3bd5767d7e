/-
Names in the path of a URL.

What is percent-encoded is decoded to the bytes it had (`percentDecode_percentEncode`). A name that is written as a
segment holds nothing that ends a segment or the path, and leads down unless it is one or two dots
(`spells_map_segment`). The names below a URL are written behind its own segments, one segment each (`below_eq`), so the
text of a URL tells which names below it are meant (`names_eq_of_text_eq`).
-/
import TokenGate.Proofs.Text.Pieces
import TokenGate.Proofs.Text.Utf8
import TokenGate.Url.Basic

namespace TokenGate

namespace Url

/-! ## Decoding what was encoded -/

theorem percentDecode_cons {c : Char} (hc : c ≠ '%') (s : List Char) :
    percentDecode (c :: s) = String.utf8EncodeChar c ++ percentDecode s := by
  rw [percentDecode]
  rintro a b t h -
  exact hc h

theorem digitValue_capitalDigit : ∀ {n : Nat}, n < 16 → Text.digitValue 16 (capitalDigit n) = .some n := by
  decide

theorem percentDecode_escapeByte (b : UInt8) (s : List Char) :
    percentDecode (escapeByte b ++ s) = b :: percentDecode s := by
  have hb : b.toNat < 256 := b.toNat_lt
  have hbyte : hexByte? (capitalDigit (b.toNat / 16)) (capitalDigit (b.toNat % 16)) = .some b := by
    have hhigh := digitValue_capitalDigit (show b.toNat / 16 < 16 by omega)
    have hlow := digitValue_capitalDigit (show b.toNat % 16 < 16 by omega)
    have hsum : b.toNat / 16 * 16 + b.toNat % 16 = b.toNat := by omega
    rw [hexByte?, hhigh, hlow]
    exact congrArg Option.some (by rw [hsum, UInt8.ofNat_toNat])
  simp only [escapeByte, List.cons_append, List.nil_append]
  rw [percentDecode, hbyte]

theorem percentDecode_escapeBytes (bs : List UInt8) (s : List Char) :
    percentDecode (bs.flatMap escapeByte ++ s) = bs ++ percentDecode s := by
  induction bs with
  | nil => rfl
  | cons b bs ih => rw [List.flatMap_cons, List.append_assoc, percentDecode_escapeByte, ih, List.cons_append]

/-- Where percent signs are encoded, decoding gives the bytes of what was encoded, also of what looks encoded. -/
theorem percentDecode_percentEncode {escapes : Char → Bool} (hescapes : escapes '%' = true) (s : List Char) :
    percentDecode (percentEncode escapes s) = Text.Utf8.encode s := by
  induction s with
  | nil => rfl
  | cons c s ih =>
    have hencode : Text.Utf8.encode (c :: s) = String.utf8EncodeChar c ++ Text.Utf8.encode s := rfl
    rw [hencode, ← ih, percentEncode, List.flatMap_cons]
    cases hc : escapes c with
    | true => exact percentDecode_escapeBytes ..
    | false =>
      have hne : c ≠ '%' := by
        rintro rfl
        rw [hescapes] at hc
        cases hc
      exact percentDecode_cons hne _

/-- A character that is encoded is not found again, unless it is one that encodes others. -/
theorem notMem_percentEncode {escapes : Char → Bool} {c : Char} (hc : escapes c = true) (hsign : c ≠ '%')
    (hdigit : ∀ n < 16, c ≠ capitalDigit n) (s : List Char) : c ∉ percentEncode escapes s := by
  intro hmem
  obtain ⟨d, -, hd⟩ := List.mem_flatMap.1 hmem
  split at hd
  next =>
    obtain ⟨b, -, hb⟩ := List.mem_flatMap.1 hd
    have hlt : b.toNat < 256 := b.toNat_lt
    simp only [escapeByte, List.mem_cons, List.not_mem_nil, or_false] at hb
    rcases hb with hb | hb | hb
    · exact hsign hb
    · exact hdigit _ (by omega) hb
    · exact hdigit _ (by omega) hb
  next hplain =>
    rw [List.mem_singleton] at hd
    exact hplain (hd ▸ hc)

/-! ## Dots -/

/-- Whether a name is one of those that stand for a place in a path, and not for what lies below it. -/
def isDots (name : List Char) : Bool :=
  name == ['.'] || name == ['.', '.']

/-- A dot, encoded or not, is decoded to a dot. -/
theorem percentDecode_of_lower {s t : List Char}
    (h : Text.lower s = '.' :: t ∨ Text.lower s = '%' :: '2' :: 'e' :: t) :
    ∃ u, Text.lower u = t ∧ percentDecode s = 0x2E :: percentDecode u := by
  rcases h with h | h
  · obtain ⟨c, u, rfl, hc, hu⟩ := List.map_eq_cons_iff.1 h
    obtain rfl := Text.eq_of_toLower_eq hc (by decide)
    exact ⟨u, hu, percentDecode_cons (by decide) u⟩
  · obtain ⟨a, s, rfl, ha, hs⟩ := List.map_eq_cons_iff.1 h
    obtain ⟨b, s, rfl, hb, hs⟩ := List.map_eq_cons_iff.1 hs
    obtain ⟨c, u, rfl, hc, hu⟩ := List.map_eq_cons_iff.1 hs
    obtain rfl := Text.eq_of_toLower_eq ha (by decide)
    obtain rfl := Text.eq_of_toLower_eq hb (by decide)
    have hbyte : hexByte? '2' c = .some 0x2E := by
      rcases Text.toLower_cases c with hsame | ⟨-, -, hcapital⟩
      · obtain rfl : c = 'e' := hsame.symm.trans hc
        rfl
      · rw [hc] at hcapital
        have hnat : 'E'.toNat + 32 = c.toNat + 32 := hcapital
        obtain rfl : c = 'E' := Char.toNat_inj.1 (Nat.add_right_cancel hnat).symm
        rfl
    refine ⟨u, hu, ?_⟩
    rw [percentDecode, hbyte]

theorem percentDecode_of_isSingleDot {s : List Char} (h : isSingleDot s = true) :
    percentDecode s = Text.Utf8.encode ['.'] := by
  have hlower : Text.lower s = ['.'] ∨ Text.lower s = ['%', '2', 'e'] := by
    simp only [isSingleDot, Bool.or_eq_true, beq_iff_eq] at h
    rcases h with rfl | h
    · exact .inl rfl
    · exact .inr h
  obtain ⟨u, hu, hs⟩ := percentDecode_of_lower hlower
  obtain rfl := List.map_eq_nil_iff.1 hu
  exact hs

theorem percentDecode_of_isDoubleDot {s : List Char} (h : isDoubleDot s = true) :
    percentDecode s = Text.Utf8.encode ['.', '.'] := by
  have hlower : ∃ t, (Text.lower s = '.' :: t ∨ Text.lower s = '%' :: '2' :: 'e' :: t) ∧
      (t = ['.'] ∨ t = ['%', '2', 'e']) := by
    simp only [isDoubleDot, Bool.or_eq_true, beq_iff_eq] at h
    rcases h with ((rfl | h) | h) | h
    · exact ⟨_, .inl rfl, .inl rfl⟩
    · exact ⟨_, .inr h, .inr rfl⟩
    · exact ⟨_, .inr h, .inl rfl⟩
    · exact ⟨_, .inl h, .inr rfl⟩
  obtain ⟨t, hfirst, hsecond⟩ := hlower
  obtain ⟨u, rfl, hs⟩ := percentDecode_of_lower hfirst
  obtain ⟨v, hv, hu⟩ := percentDecode_of_lower hsecond
  obtain rfl := List.map_eq_nil_iff.1 hv
  rw [hs, hu]
  rfl

/-! ## Segments -/

/-- How a name is written in a path. -/
def segment (isSpecial : Bool) (name : List Char) : List Char :=
  percentEncode (escapesInSegment isSpecial) name

/-- Segments that stand for names: they are decoded to the names, and end where they end in the path of a URL and no
sooner. -/
structure Spells (isSpecial : Bool) (segs names : List (List Char)) : Prop where
  decoded : segs.map percentDecode = names.map Text.Utf8.encode
  closed : ∀ s ∈ segs, '/' ∉ s ∧ '?' ∉ s ∧ '#' ∉ s ∧ (isSpecial = true → '\\' ∉ s)
  down : ∀ s ∈ segs, isSingleDot s = false ∧ isDoubleDot s = false

theorem percentDecode_segment (isSpecial : Bool) (name : List Char) :
    percentDecode (segment isSpecial name) = Text.Utf8.encode name :=
  percentDecode_percentEncode (by simp [escapesInSegment]) name

theorem segment_injective (isSpecial : Bool) : Function.Injective (segment isSpecial) := by
  intro name name' h
  refine Text.Utf8.encode_injective ?_
  rw [← percentDecode_segment isSpecial, h, percentDecode_segment]

theorem segment_closed (isSpecial : Bool) (name : List Char) :
    '/' ∉ segment isSpecial name ∧ '?' ∉ segment isSpecial name ∧ '#' ∉ segment isSpecial name ∧
      (isSpecial = true → '\\' ∉ segment isSpecial name) := by
  refine ⟨?_, ?_, ?_, ?_⟩
  · exact notMem_percentEncode (by simp [escapesInSegment]) (by decide) (by decide) name
  · exact notMem_percentEncode (by simp [escapesInSegment, escapesInPath]) (by decide) (by decide) name
  · exact notMem_percentEncode (by simp [escapesInSegment, escapesInPath]) (by decide) (by decide) name
  · rintro rfl
    exact notMem_percentEncode (by simp [escapesInSegment]) (by decide) (by decide) name

/-- Only a name that is dots is written like dots. -/
theorem segment_down {name : List Char} (h : isDots name = false) (isSpecial : Bool) :
    isSingleDot (segment isSpecial name) = false ∧ isDoubleDot (segment isSpecial name) = false := by
  simp only [isDots, Bool.or_eq_false_iff, beq_eq_false_iff_ne] at h
  have hname {w : List Char} (hw : percentDecode (segment isSpecial name) = Text.Utf8.encode w) : name = w :=
    Text.Utf8.encode_injective ((percentDecode_segment isSpecial name).symm.trans hw)
  constructor
  · exact Bool.eq_false_iff.2 fun hdot => h.1 (hname (percentDecode_of_isSingleDot hdot))
  · exact Bool.eq_false_iff.2 fun hdots => h.2 (hname (percentDecode_of_isDoubleDot hdots))

theorem spells_map_segment {names : List (List Char)} (h : ∀ name ∈ names, isDots name = false) (isSpecial : Bool) :
    Spells isSpecial (names.map (segment isSpecial)) names where
  decoded := by
    rw [List.map_map]
    exact List.map_congr_left fun name _ => percentDecode_segment isSpecial name
  closed := List.forall_mem_map.2 fun name _ => segment_closed isSpecial name
  down := List.forall_mem_map.2 fun name hname => segment_down (h name hname) isSpecial

/-! ## The names below a URL -/

/-- The segments that stand in front of the names below a URL: its own, but not an empty one at the end, and none for
the root. -/
def stem (ss : List (List Char)) : List (List Char) :=
  if dropEmptyEnd ss = [[]] then [] else dropEmptyEnd ss

theorem eq_stem_append (ss : List (List Char)) : ∃ n, ss = stem ss ++ List.replicate n [] := by
  have hdrop : ∃ n, ss = dropEmptyEnd ss ++ List.replicate n [] := by
    unfold dropEmptyEnd
    split
    next h =>
      rw [Bool.and_eq_true, beq_iff_eq] at h
      obtain ⟨front, rfl⟩ := List.getLast?_eq_some_iff.1 h.2
      exact ⟨1, by rw [List.dropLast_concat]; rfl⟩
    next => exact ⟨0, (List.append_nil ss).symm⟩
  obtain ⟨n, hn⟩ := hdrop
  unfold stem
  split
  next hroot =>
    rw [hroot] at hn
    exact ⟨n + 1, hn⟩
  next => exact ⟨n, hn⟩

/-- Slashes at the end are all that is left out in front of the names below a URL. -/
theorem pathText_stem (ss : List (List Char)) :
    ∃ n, (Path.segments ss).text = (Path.segments (stem ss)).text ++ List.replicate n '/' := by
  obtain ⟨n, hn⟩ := eq_stem_append ss
  refine ⟨n, ?_⟩
  calc (Path.segments ss).text
      = (Path.segments (stem ss ++ List.replicate n [])).text := congrArg (fun ss => (Path.segments ss).text) hn
    _ = (Path.segments (stem ss)).text ++ List.replicate n '/' := by simp [Path.text, List.flatMap_replicate]

/-- A name of which no character disappears. -/
def IsPlain (name : List Char) : Prop :=
  ∀ c ∈ name, isDropped c = false

instance (name : List Char) : Decidable (IsPlain name) :=
  List.decidableBAll (fun c => isDropped c = false) name

section

variable {name : List Char} {names : List (List Char)} (isSpecial : Bool)

theorem addName_of_isDots (h : isDots name = true) (ss : List (List Char)) : addName isSpecial ss name = ss :=
  if_pos h

theorem addName_of_isPlain (hplain : IsPlain name) (h : isDots name = false) (ss : List (List Char)) :
    addName isSpecial ss name = (if ss = [[]] then [] else ss) ++ [segment isSpecial name] := by
  have hfilter : name.filter (fun c => !isDropped c) = name :=
    List.filter_eq_self.2 fun c hc => by rw [hplain c hc]; rfl
  have hplace (ss : List (List Char)) (s : List Char) (hs : isSingleDot s = false ∧ isDoubleDot s = false) :
      placeSegment ss s true = ss ++ [s] := by
    simp [placeSegment, hs]
  rw [addName, if_neg (by simpa [isDots] using h), hfilter]
  exact hplace _ _ (segment_down h isSpecial)

/-- Behind other segments, each name is one segment. -/
theorem foldl_addName (hplain : ∀ name ∈ names, IsPlain name) (ss : List (List Char)) (hne : ss ≠ [])
    (hroot : ss ≠ [[]]) :
    names.foldl (addName isSpecial) ss =
      ss ++ (names.filter fun name => !isDots name).map (segment isSpecial) := by
  induction names generalizing ss with
  | nil => simp
  | cons name names ih =>
    rw [List.forall_mem_cons] at hplain
    rw [List.foldl_cons]
    cases h : isDots name with
    | true =>
      rw [addName_of_isDots isSpecial h, ih hplain.2 ss hne hroot, List.filter_cons_of_neg (by simp [h])]
    | false =>
      rw [addName_of_isPlain isSpecial hplain.1 h, if_neg hroot,
        ih hplain.2 _ (by simp) (by simp [List.append_eq_singleton_iff, hne]), List.filter_cons_of_pos (by simp [h])]
      simp

end

/-- What lies below a URL has its parts, and behind its segments one for each name that is not dots. -/
theorem below_eq {u : Url} {ss : List (List Char)} (hpath : u.path = .segments ss) {name : List Char}
    {names : List (List Char)} (hplain : ∀ n ∈ name :: names, IsPlain n) (hdots : isDots name = false)
    (hne : name ≠ []) :
    u.below (name :: names) =
      { u with path := .segments (stem ss ++
          ((name :: names).filter fun n => !isDots n).map (segment (isSpecialScheme u.scheme))) } := by
  rw [List.forall_mem_cons] at hplain
  have hsegment : segment (isSpecialScheme u.scheme) name ≠ [] := fun hnil => hne (segment_injective _ hnil)
  -- Once the first name is there, the segments are neither none nor those of the root.
  have hfold := foldl_addName (isSpecialScheme u.scheme) hplain.2
    (stem ss ++ [segment (isSpecialScheme u.scheme) name]) (by simp) (by simp [List.append_eq_singleton_iff, hsegment])
  simp only [below, hpath, List.foldl_cons]
  rw [addName_of_isPlain _ hplain.1 hdots, ← stem, hfold, List.filter_cons_of_pos (by simp [hdots])]
  simp

/-! ## What a path tells -/

/-- A path of segments that hold no slash is cut at its slashes into the segments. -/
theorem pieces_pathText {ss : List (List Char)} (h : ∀ s ∈ ss, '/' ∉ s) :
    Text.pieces '/' (Path.segments ss).text = [] :: ss := by
  have hbehind : ∀ p : List Char, '/' ∉ p → Text.pieces '/' (p ++ (Path.segments ss).text) = p :: ss := by
    induction ss with
    | nil =>
      intro p hp
      rw [Path.text, List.flatMap_nil, List.append_nil, Text.pieces_of_notMem hp]
    | cons s ss ih =>
      intro p hp
      rw [List.forall_mem_cons] at h
      have htext : p ++ (Path.segments (s :: ss)).text = p ++ '/' :: (s ++ (Path.segments ss).text) := by
        simp [Path.text]
      rw [htext, Text.pieces_append_cons, Text.pieces_of_notMem hp, ih h.2 s h.1, List.singleton_append]
  exact hbehind [] (by simp)

theorem text_with_segments (u : Url) (front back : List (List Char)) :
    text { u with path := .segments (front ++ back) } =
      String.ofList (u.scheme ++ ':' :: u.authorityText ++ (Path.segments front).text ++
        ((Path.segments back).text ++ partText '?' u.query ++ partText '#' u.fragment)) := by
  simp [text, Path.text, authorityText, userinfoText]

/-- Addresses below a URL have different texts if the first names below it start with different letters. -/
theorem text_ne_of_head_ne {u v : Url} (hscheme : v.scheme = u.scheme) (hauthority : v.authorityText = u.authorityText)
    {c d : Char} (hne : c ≠ d) (front : List (List Char)) {s t : List Char} {ss ts : List (List Char)} :
    text { u with path := .segments (front ++ (c :: s) :: ss) } ≠
      text { v with path := .segments (front ++ (d :: t) :: ts) } := by
  intro h
  rw [text_with_segments, text_with_segments, hscheme, hauthority] at h
  have hheads := List.append_cancel_left (String.ofList_injective h)
  simp only [Path.text, List.flatMap_cons, List.cons_append, List.cons.injEq] at hheads
  exact hne hheads.2.1

/-- The text of a URL tells the names below it. -/
theorem names_eq_of_text_eq {u : Url} {front names names' : List (List Char)} {isSpecial : Bool}
    (h : text { u with path := .segments (front ++ names.map (segment isSpecial)) } =
      text { u with path := .segments (front ++ names'.map (segment isSpecial)) }) : names = names' := by
  have hclosed (names : List (List Char)) : ∀ s ∈ names.map (segment isSpecial), '/' ∉ s :=
    List.forall_mem_map.2 fun name _ => (segment_closed isSpecial name).1
  have hpath : (Path.segments (names.map (segment isSpecial))).text =
      (Path.segments (names'.map (segment isSpecial))).text := by
    rw [text_with_segments, text_with_segments] at h
    simpa using String.ofList_injective h
  have hpieces := congrArg (Text.pieces '/') hpath
  rw [pieces_pathText (hclosed names), pieces_pathText (hclosed names'), List.cons_inj_right] at hpieces
  exact (List.map_inj_right fun _ _ => @segment_injective isSpecial _ _).1 hpieces

end Url

end TokenGate
