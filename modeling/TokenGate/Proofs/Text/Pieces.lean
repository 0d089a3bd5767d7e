/-
Where the pieces of a text stand.

A text is one piece, or a piece, a separator and a text, which is how facts about its pieces are proved
(`pieces_induction`). The pieces are what stands between separators or the ends of the text (`mem_pieces_iff`), and of a
search through them it is told by places in the text what it finds (`findSome?_pieces_eq_some_iff`). Texts that were
written with separators between them are its pieces if there are any and none holds a separator
(`splitOn_intercalate_iff`).
-/
import TokenGate.Text.Pieces

namespace TokenGate.Text

theorem pieces_eq_splitOn (sep : Char) (s : List Char) : pieces sep s = s.splitOn sep := by
  induction s with
  | nil => simp [pieces]
  | cons c s ih =>
    rw [pieces, List.splitOn_eq_splitOnP, List.splitOnP_cons_eq_if_modifyHead, ← List.splitOn_eq_splitOnP, ← ih]
    simp only [beq_iff_eq]
    split
    · rfl
    · cases hs : pieces sep s with
      | nil => exact absurd hs (pieces_ne_nil sep s)
      | cons => rfl

theorem pieces_append_cons (sep : Char) (s t : List Char) :
    pieces sep (s ++ sep :: t) = pieces sep s ++ pieces sep t := by
  simp only [pieces_eq_splitOn]
  exact List.splitOnP_append_cons s t (beq_self_eq_true sep)

theorem pieces_of_notMem {sep : Char} {s : List Char} (h : sep ∉ s) : pieces sep s = [s] := by
  rw [pieces_eq_splitOn]
  refine List.splitOnP_eq_singleton fun c hc => ?_
  simp only [beq_eq_false_iff_ne]
  intro e
  exact h (e ▸ hc)

/-- What stands in front of the first separator, and what stands behind it, are told by the whole. -/
theorem append_cons_inj_of_notMem {sep : Char} {p q s t : List Char} (hp : sep ∉ p) (hq : sep ∉ q) :
    p ++ sep :: s = q ++ sep :: t ↔ p = q ∧ s = t := by
  constructor
  · intro h
    have hpieces := congrArg (pieces sep) h
    rw [pieces_append_cons, pieces_append_cons, pieces_of_notMem hp, pieces_of_notMem hq] at hpieces
    obtain rfl := (List.cons.inj hpieces).1
    exact ⟨rfl, by simpa using h⟩
  · rintro ⟨rfl, rfl⟩
    rfl

theorem isPiece_append_cons_iff {sep : Char} {p s front q back : List Char} (hp : sep ∉ p) :
    IsPiece sep (p ++ sep :: s) front q back ↔
      front = [] ∧ q = p ∧ back = sep :: s ∨ ∃ f, front = p ++ sep :: f ∧ IsPiece sep s f q back := by
  constructor
  · intro h
    obtain ⟨hparts, hq, rfl | ⟨f, rfl⟩, hback⟩ := h
    · left
      rcases hback with rfl | ⟨b, rfl⟩
      · have hmem : sep ∈ p ++ sep :: s := by simp
        rw [hparts] at hmem
        simp [hq] at hmem
      · obtain ⟨rfl, rfl⟩ := (append_cons_inj_of_notMem hp hq).1 (by simpa using hparts)
        exact ⟨rfl, rfl, rfl⟩
    · right
      have h' : p ++ sep :: s = f ++ sep :: (q ++ back) := by simpa using hparts
      rcases List.append_eq_append_iff.1 h' with ⟨as, rfl, has⟩ | ⟨bs, rfl, hbs⟩
      · cases as with
        | nil => exact ⟨[], by simp, ⟨(List.cons.inj has).2, hq, .inl rfl, hback⟩⟩
        | cons c as =>
          obtain ⟨rfl, rfl⟩ := List.cons.inj has
          exact ⟨as ++ [sep], by simp, ⟨by simp, hq, .inr ⟨as, rfl⟩, hback⟩⟩
      · cases bs with
        | nil => exact ⟨[], by simp, ⟨(List.cons.inj hbs).2.symm, hq, .inl rfl, hback⟩⟩
        | cons c bs =>
          obtain ⟨rfl, -⟩ := List.cons.inj hbs
          simp at hp
  · rintro (⟨rfl, rfl, rfl⟩ | ⟨f, rfl, h⟩)
    · exact ⟨by simp, hp, .inl rfl, .inr ⟨s, rfl⟩⟩
    · obtain ⟨rfl, hq, hf, hback⟩ := h
      refine ⟨by simp, hq, .inr ?_, hback⟩
      rcases hf with rfl | ⟨f, rfl⟩
      · exact ⟨p, rfl⟩
      · exact ⟨p ++ sep :: f, by simp⟩

theorem isPiece_iff_of_notMem {sep : Char} {s front q back : List Char} (hs : sep ∉ s) :
    IsPiece sep s front q back ↔ front = [] ∧ q = s ∧ back = [] := by
  constructor
  · rintro ⟨rfl, -, rfl | ⟨f, rfl⟩, rfl | ⟨b, rfl⟩⟩
    · simp
    all_goals simp at hs
  · rintro ⟨rfl, rfl, rfl⟩
    exact ⟨by simp, hs, .inl rfl, .inl rfl⟩

/-- Every text is one piece, or a piece, a separator and a text. -/
theorem pieces_induction (sep : Char) {motive : List Char → Prop} (piece : ∀ p, sep ∉ p → motive p)
    (cut : ∀ p s, sep ∉ p → motive s → motive (p ++ sep :: s)) (s : List Char) : motive s := by
  induction hn : s.length using Nat.strongRecOn generalizing s with
  | ind n ih =>
    by_cases hs : sep ∈ s
    · obtain ⟨p, t, rfl, hp⟩ := List.eq_append_cons_of_mem hs
      exact cut p t hp (ih t.length (by simp at hn; omega) t rfl)
    · exact piece s hs

/-- The first piece of which something comes has only pieces in front of it of which nothing comes. -/
theorem findSome?_pieces_eq_some_iff {β : Type} {f : List Char → Option β} {sep : Char} {s : List Char} {b : β} :
    (pieces sep s).findSome? f = .some b ↔
      ∃ front p back, IsPiece sep s front p back ∧ f p = .some b ∧
        ∀ front' p' back', IsPiece sep s front' p' back' → front'.length < front.length → f p' = .none := by
  induction s using pieces_induction sep with
  | piece p hp =>
    rw [pieces_of_notMem hp]
    simp only [isPiece_iff_of_notMem hp, List.findSome?_singleton]
    constructor
    · intro h
      exact ⟨[], p, [], ⟨rfl, rfl, rfl⟩, h, by simp⟩
    · rintro ⟨_, _, _, ⟨rfl, rfl, rfl⟩, h, -⟩
      exact h
  | cut p s hp ih =>
    rw [pieces_append_cons, pieces_of_notMem hp, List.singleton_append, List.findSome?_cons]
    simp only [isPiece_append_cons_iff hp]
    constructor
    · intro h
      cases hfp : f p with
      | some b' =>
        rw [hfp] at h
        obtain rfl := Option.some.inj h
        exact ⟨[], p, _, .inl ⟨rfl, rfl, rfl⟩, hfp, by simp⟩
      | none =>
        rw [hfp] at h
        obtain ⟨front, q, back, hq, hb, hfirst⟩ := ih.1 h
        refine ⟨_, q, back, .inr ⟨front, rfl, hq⟩, hb, ?_⟩
        rintro front' q' back' (⟨rfl, rfl, rfl⟩ | ⟨front', rfl, hq'⟩) hlt
        · exact hfp
        · exact hfirst front' q' back' hq' (by simp at hlt; omega)
    · rintro ⟨_, q, back, ⟨rfl, rfl, rfl⟩ | ⟨front, rfl, hq⟩, hb, hfirst⟩
      · rw [hb]
      · have hlt : ([] : List Char).length < (p ++ sep :: front).length := by
          rw [List.length_nil, List.length_append, List.length_cons]
          omega
        rw [hfirst [] p _ (.inl ⟨rfl, rfl, rfl⟩) hlt]
        refine ih.2 ⟨front, q, back, hq, hb, ?_⟩
        intro front' q' back' hq' hlt
        exact hfirst _ q' back' (.inr ⟨front', rfl, hq'⟩) (by simp; omega)

theorem mem_pieces_iff {sep : Char} {s p : List Char} :
    p ∈ pieces sep s ↔ ∃ front back, IsPiece sep s front p back := by
  induction s using pieces_induction sep with
  | piece q hq => simp [pieces_of_notMem hq, isPiece_iff_of_notMem hq]
  | cut q s hq ih =>
    rw [pieces_append_cons, pieces_of_notMem hq, List.singleton_append, List.mem_cons, ih]
    simp only [isPiece_append_cons_iff hq]
    constructor
    · rintro (rfl | ⟨front, back, h⟩)
      · exact ⟨_, _, .inl ⟨rfl, rfl, rfl⟩⟩
      · exact ⟨_, back, .inr ⟨front, rfl, h⟩⟩
    · rintro ⟨_, back, ⟨rfl, rfl, rfl⟩ | ⟨front, rfl, h⟩⟩
      · exact .inl rfl
      · exact .inr ⟨front, back, h⟩

/-! ## Writing pieces -/

/-- Texts are found again between the separators that they were written with, unless there were none or one of them
holds a separator. -/
theorem splitOn_intercalate_iff {sep : Char} {ts : List (List Char)} :
    ([sep].intercalate ts).splitOn sep = ts ↔ ts ≠ [] ∧ ∀ t ∈ ts, sep ∉ t := by
  constructor
  · intro h
    refine ⟨fun hnil => List.splitOn_ne_nil sep _ (h.trans hnil), fun t ht => ?_⟩
    rw [← h, ← pieces_eq_splitOn] at ht
    exact notMem_of_mem_pieces ht
  · rintro ⟨hne, hsep⟩
    exact List.splitOn_intercalate sep hsep hne

/-- Texts without separators are told by what is written of them, except that one empty text is written like none. -/
theorem intercalate_eq_intercalate_iff {sep : Char} {ts us : List (List Char)} (hts : ∀ t ∈ ts, sep ∉ t)
    (hus : ∀ u ∈ us, sep ∉ u) :
    [sep].intercalate ts = [sep].intercalate us ↔ ts = us ∨ ts = [] ∧ us = [[]] ∨ ts = [[]] ∧ us = [] := by
  have hnone {vs : List (List Char)} (hvs : ∀ v ∈ vs, sep ∉ v) (hne : vs ≠ []) (h : [sep].intercalate vs = []) :
      vs = [[]] := by
    rw [← splitOn_intercalate_iff.2 ⟨hne, hvs⟩, h]
    exact List.splitOn_nil sep
  constructor
  · intro h
    by_cases ht : ts = []
    · subst ht
      by_cases hu : us = []
      · exact .inl hu.symm
      · exact .inr (.inl ⟨rfl, hnone hus hu h.symm⟩)
    · by_cases hu : us = []
      · subst hu
        exact .inr (.inr ⟨hnone hts ht h, rfl⟩)
      · rw [← splitOn_intercalate_iff.2 ⟨ht, hts⟩, h, splitOn_intercalate_iff.2 ⟨hu, hus⟩]
        exact .inl rfl
  · rintro (rfl | ⟨rfl, rfl⟩ | ⟨rfl, rfl⟩) <;> rfl

/-! ## The case of letters -/

theorem toLower_cases (c : Char) :
    c.toLower = c ∨ 65 ≤ c.toNat ∧ c.toNat ≤ 90 ∧ c.toLower.toNat = c.toNat + 32 := by
  unfold Char.toLower
  split
  next h =>
    right
    simp only [ge_iff_le, UInt32.le_iff_toNat_le] at h
    have hlow : 65 ≤ c.toNat := h.1
    have hhigh : c.toNat ≤ 90 := h.2
    refine ⟨hlow, hhigh, ?_⟩
    show (c.toNat + 32) % 4294967296 = c.toNat + 32
    omega
  next => exact .inl rfl

theorem eq_of_toLower_eq {c d : Char} (h : c.toLower = d) (hd : d.toNat < 97) : c = d := by
  rcases toLower_cases c with hc | ⟨hlow, -, hnat⟩
  · exact hc ▸ h
  · rw [h] at hnat
    omega

end TokenGate.Text
