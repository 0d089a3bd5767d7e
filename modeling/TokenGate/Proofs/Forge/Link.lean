/-
Which link to a next page is found in a header.

Of a piece of a header, `nextTarget?_eq_some_iff` tells when it names a next page, and of the header that the first
such piece counts (`next?_exact`). A header that is written out of links is cut where links meet, and inside of them
wherever a target holds a comma or a semicolon; so the first link to a next page counts whose target holds neither
(`next?_headerText`).
-/
import TokenGate.Forge.Link.Grammar
import TokenGate.Proofs.Forge.Listing
import TokenGate.Proofs.Http.Headers
import TokenGate.Proofs.Text.Pieces

namespace TokenGate.Forge.Link

open Text

/-! ## The case of letters -/

theorem toLower_of_isBlank {c : Char} (h : isBlank c = true) : c.toLower = c := by
  rcases toLower_cases c with hc | ⟨hlow, hhigh, -⟩
  · exact hc
  · simp [isBlank] at h
    omega

/-- A text does not end in white space where its small form does not. -/
theorem isCore_of_lower {front s back : List Char} (hblank : ∀ c ∈ front ++ back, isBlank c = true)
    (hhead : ∃ c, (lower s).head? = .some c ∧ isBlank c = false)
    (hlast : ∃ c, (lower s).getLast? = .some c ∧ isBlank c = false) : IsCore (front ++ s ++ back) s := by
  have hvisible {o : Option Char} (h : ∃ c, o.map Char.toLower = .some c ∧ isBlank c = false) :
      ∃ c, o = .some c ∧ isBlank c = false := by
    obtain ⟨_, hc, hc'⟩ := h
    obtain ⟨c, rfl, rfl⟩ := Option.map_eq_some_iff.1 hc
    refine ⟨c, rfl, ?_⟩
    cases hb : isBlank c with
    | false => rfl
    | true => rw [toLower_of_isBlank hb, hb] at hc'; cases hc'
  unfold lower at hhead hlast
  rw [List.head?_map] at hhead
  rw [List.getLast?_map] at hlast
  exact ⟨⟨front, back, rfl, hblank⟩, hvisible hhead, hvisible hlast⟩

theorem lower_nextRelation : lower nextRelation = nextRelation := by decide

/-! ## Reading -/

section

variable {s u piece target : List Char}

theorem isNext_iff : isNext s = true ↔ IsMark s := by
  unfold isNext sameLetters
  rw [beq_iff_eq, lower_nextRelation]
  constructor
  · intro h
    have hne : trim s ≠ [] := by
      intro h'
      rw [h'] at h
      cases h
    obtain ⟨front, back, hs, hblank⟩ := (isCore_trim hne).around
    exact ⟨front, trim s, back, hs, hblank, h⟩
  · rintro ⟨front, mark, back, rfl, hblank, hmark⟩
    have hcore : IsCore (front ++ mark ++ back) mark := by
      refine isCore_of_lower hblank ?_ ?_
      · exact ⟨'r', by rw [hmark]; rfl, by decide⟩
      · exact ⟨'"', by rw [hmark]; rfl, by decide⟩
    rw [hcore.trim_eq]
    exact hmark

theorem bracketed?_eq_some_iff : bracketed? s = .some u ↔ s = '<' :: u ++ ['>'] := by
  constructor
  · intro h
    unfold bracketed? at h
    split at h
    next s =>
      split at h
      next hlast =>
        cases h
        obtain ⟨s, rfl⟩ := List.getLast?_eq_some_iff.1 hlast
        simp
      next => cases h
    next => cases h
  · rintro rfl
    simp [bracketed?]

theorem bracketed?_trim_eq_some_iff :
    bracketed? (trim s) = .some u ↔
      ∃ front back, s = front ++ '<' :: u ++ '>' :: back ∧ ∀ c ∈ front ++ back, isBlank c = true := by
  rw [bracketed?_eq_some_iff]
  constructor
  · intro h
    obtain ⟨front, back, hs, hblank⟩ := (isCore_trim (s := s) (by simp [h])).around
    refine ⟨front, back, ?_, hblank⟩
    rw [h] at hs
    simpa using hs
  · rintro ⟨front, back, rfl, hblank⟩
    have hcore : IsCore (front ++ ('<' :: u ++ ['>']) ++ back) ('<' :: u ++ ['>']) :=
      ⟨⟨front, back, rfl, hblank⟩, ⟨'<', rfl, by decide⟩, ⟨'>', List.getLast?_concat, by decide⟩⟩
    simpa using hcore.trim_eq

theorem nextTarget?_cut {p items : List Char} (hp : ';' ∉ p) :
    nextTarget? (p ++ ';' :: items) = (bracketed? (trim p)).filter fun _ => (pieces ';' items).any isNext := by
  unfold nextTarget?
  rw [pieces_append_cons, pieces_of_notMem hp]
  rfl

theorem nextTarget?_of_notMem {p : List Char} (hp : ';' ∉ p) : nextTarget? p = .none := by
  unfold nextTarget?
  rw [pieces_of_notMem hp]
  exact Option.filter_eq_none_iff.2 fun _ _ => Bool.false_ne_true

theorem nextTarget?_eq_some_iff : nextTarget? piece = .some target ↔ NamesNext piece target := by
  induction piece using pieces_induction ';' with
  | piece p hp =>
    simp only [nextTarget?_of_notMem hp, reduceCtorEq, false_iff]
    rintro ⟨front, back, items, rfl, -⟩
    simp at hp
  | cut p items hp ih =>
    rw [nextTarget?_cut hp, Option.filter_eq_some_iff, bracketed?_trim_eq_some_iff, List.any_eq_true]
    simp only [isNext_iff, mem_pieces_iff]
    constructor
    · rintro ⟨⟨front, back, rfl, hblank⟩, item, ⟨before, after, hitem⟩, hmark⟩
      have htarget : ';' ∉ target := fun hmem => hp (by simp [hmem])
      exact ⟨front, back, items, by simp, hblank, htarget, before, item, after, hitem, hmark⟩
    · rintro ⟨front, back, items', h, hblank, htarget, before, item, after, hitem, hmark⟩
      have hfirst : ';' ∉ front ++ '<' :: target ++ '>' :: back := by
        intro hmem
        have hside : ';' ∈ front ++ back := by simpa [htarget] using hmem
        exact absurd (hblank _ hside) (by decide)
      obtain ⟨rfl, rfl⟩ := (append_cons_inj_of_notMem hp hfirst).1 h
      exact ⟨⟨front, back, rfl, hblank⟩, item, ⟨before, after, hitem⟩, hmark⟩

theorem nextTarget?_eq_none_iff : nextTarget? piece = .none ↔ ∀ target, ¬ NamesNext piece target := by
  simp only [← nextTarget?_eq_some_iff, Option.eq_none_iff_forall_ne_some, ne_eq]

end

/-- What stands in front of a comma counts before what stands behind it. -/
theorem next?_append (a b : String) : next? (a ++ "," ++ b) = (next? a).or (next? b) := by
  have htext : (a ++ "," ++ b).toList = a.toList ++ ',' :: b.toList := by simp
  unfold next?
  rw [htext, pieces_append_cons, List.findSome?_append, Option.map_or]

/-- **The language of link headers.** For every text, well-formed or not, the target that is found is `u` exactly if
some piece of it between commas names `u` as the next page and no piece in front of that names any; and none is found
exactly if no piece names any. Of two headers with a comma between them the second counts where nothing is found in the
first, whatever that is, so that no malformed link hides one behind it. What is found stands in the header. -/
theorem next?_exact (header u : String) :
    (next? header = .some u ↔
      ∃ front piece back, IsPiece ',' header.toList front piece back ∧ NamesNext piece u.toList ∧
        ∀ front' piece' back', IsPiece ',' header.toList front' piece' back' → front'.length < front.length →
          ∀ target, ¬ NamesNext piece' target) ∧
    (next? header = .none ↔
      ∀ front piece back, IsPiece ',' header.toList front piece back → ∀ target, ¬ NamesNext piece target) ∧
    (∀ header', next? (header ++ "," ++ header') = (next? header).or (next? header')) ∧
    (next? header = .some u → u.toList <:+: header.toList) := by
  have hfound : next? header = .some u ↔ (pieces ',' header.toList).findSome? nextTarget? = .some u.toList := by
    unfold next?
    rw [Option.map_eq_some_iff]
    constructor
    · rintro ⟨target, h, rfl⟩
      rw [h, String.toList_ofList]
    · intro h
      exact ⟨_, h, String.ofList_toList⟩
  have hiff := hfound.trans findSome?_pieces_eq_some_iff
  simp only [nextTarget?_eq_some_iff, nextTarget?_eq_none_iff] at hiff
  refine ⟨hiff, ?_, next?_append header, ?_⟩
  · unfold next?
    rw [Option.map_eq_none_iff, List.findSome?_eq_none_iff]
    simp only [mem_pieces_iff, nextTarget?_eq_none_iff]
    exact ⟨fun h front piece back hpiece => h piece ⟨front, back, hpiece⟩,
      fun h piece ⟨front, back, hpiece⟩ => h front piece back hpiece⟩
  · intro h
    obtain ⟨front, piece, back, hpiece, ⟨left, right, items, rfl, -⟩, -⟩ := hiff.1 h
    refine ⟨front ++ left ++ ['<'], '>' :: right ++ ';' :: items ++ back, ?_⟩
    rw [hpiece.parts]
    simp

/-! ## Writing -/

theorem intercalate_cons {α : Type} (sep a : List α) (l : List (List α)) :
    sep.intercalate (a :: l) = a ++ l.flatMap (sep ++ ·) := by
  induction l generalizing a with
  | nil => simp
  | cons b l ih => rw [List.intercalate_cons_cons, ih, List.flatMap_cons, List.append_assoc, List.append_assoc]

namespace Param

variable {p : Param}

theorem toList_text (p : Param) : p.text.toList = p.name.toList ++ '=' :: '"' :: p.value.toList ++ ['"'] := by
  simp [text]

/-- Nothing in a parameter divides links or parameters. -/
theorem WellFormed.notMem_text (h : p.WellFormed) : ',' ∉ p.text.toList ∧ ';' ∉ p.text.toList := by
  rw [toList_text]
  simp only [List.mem_append, List.mem_cons, List.not_mem_nil, Char.reduceEq, false_or, or_false, not_or]
  exact ⟨⟨fun hmem => (h.name _ hmem).1 rfl, fun hmem => (h.value _ hmem).1 rfl⟩,
    ⟨fun hmem => (h.name _ hmem).2.1 rfl, fun hmem => (h.value _ hmem).2.1 rfl⟩⟩

theorem trim_text (h : p.WellFormed) : trim (' ' :: p.text.toList) = p.text.toList := by
  have hcore : IsCore (' ' :: p.text.toList) p.text.toList := by
    rw [toList_text]
    have hblank : ∀ c ∈ [' '] ++ [], isBlank c = true := by
      simp only [List.append_nil, List.mem_singleton, forall_eq]
      decide
    refine ⟨⟨[' '], [], by simp, hblank⟩, ?_, ⟨'"', List.getLast?_concat, by decide⟩⟩
    cases hname : p.name.toList with
    | nil => exact ⟨'=', rfl, by decide⟩
    | cons c name => exact ⟨c, rfl, (h.name c (by simp [hname])).2.2.2⟩
  exact hcore.trim_eq

/-- A parameter is read as it is written. The first quotation mark is where its value begins. -/
theorem isNext_text (h : p.WellFormed) : Link.isNext (' ' :: p.text.toList) = p.isNext := by
  have hquote : '"' ∉ lower p.name.toList ++ ['='] := by
    simp only [lower, List.mem_append, List.mem_map, List.mem_singleton, Char.reduceEq, or_false, not_exists, not_and]
    intro c hc hlower
    exact (h.name c hc).2.2.1 (eq_of_toLower_eq hlower (by decide))
  have htext : lower p.text.toList = (lower p.name.toList ++ ['=']) ++ '"' :: (lower p.value.toList ++ ['"']) := by
    simp [toList_text, lower]
  have hnext : nextRelation = ("rel".toList ++ ['=']) ++ '"' :: ("next".toList ++ ['"']) := by decide
  have hrel : lower "rel".toList = "rel".toList ∧ lower "next".toList = "next".toList := by decide
  unfold Link.isNext Param.isNext sameLetters
  rw [trim_text h, lower_nextRelation, hrel.1, hrel.2, Bool.eq_iff_iff, Bool.and_eq_true, beq_iff_eq, beq_iff_eq,
    beq_iff_eq, htext, hnext, append_cons_inj_of_notMem hquote (by decide), List.append_left_inj, List.append_left_inj]

theorem pieces_text {params : List Param} (h : ∀ p ∈ params, p.WellFormed) {a : List Char} (ha : ';' ∉ a) :
    pieces ';' (a ++ params.flatMap fun p => ';' :: ' ' :: p.text.toList) =
      a :: params.map fun p => ' ' :: p.text.toList := by
  induction params generalizing a with
  | nil => simp [pieces_of_notMem ha]
  | cons p params ih =>
    have hp : ';' ∉ ' ' :: p.text.toList := by simp [(h p (by simp)).notMem_text.2]
    rw [List.flatMap_cons, List.cons_append, pieces_append_cons, pieces_of_notMem ha,
      ih (fun q hq => h q (by simp [hq])) hp]
    rfl

end Param

/-! ## Targets -/

theorem toNat_of_isAlphanum {c : Char} (h : c.isAlphanum = true) :
    (48 ≤ c.toNat ∧ c.toNat ≤ 57) ∨ (65 ≤ c.toNat ∧ c.toNat ≤ 90) ∨ (97 ≤ c.toNat ∧ c.toNat ≤ 122) := by
  have hrange {low high : UInt32} (h : c.val ≥ low ∧ c.val ≤ high) : low.toNat ≤ c.toNat ∧ c.toNat ≤ high.toNat := by
    rw [ge_iff_le, UInt32.le_iff_toNat_le, UInt32.le_iff_toNat_le] at h
    exact h
  rcases Bool.or_eq_true_iff.1 h with h | h
  · rcases Bool.or_eq_true_iff.1 h with h | h
    · exact .inr (.inl (hrange (of_decide_eq_true h)))
    · obtain ⟨hlow, hhigh⟩ := Bool.and_eq_true_iff.1 h
      exact .inr (.inr (hrange ⟨of_decide_eq_true hlow, of_decide_eq_true hhigh⟩))
  · exact .inl (Char.isDigit_iff_toNat.1 h)

theorem isBlank_of_isUriChar {c : Char} (h : isUriChar c = true) : isBlank c = false := by
  have hmarks : ("-._~:/?#[]@!$&'()*+,;=%".toList.all fun c => !isBlank c) = true := by decide
  unfold isUriChar at h
  rcases Bool.or_eq_true_iff.1 h with h | h
  · have hrange := toNat_of_isAlphanum h
    simp [isBlank]
    omega
  · simpa using List.all_eq_true.1 hmarks c (by simpa using h)

section

variable {s : List Char} (hs : ∀ c ∈ s, isUriChar c = true)

theorem nextTarget?_of_head (hhead : ∀ c, s.head? = .some c → isBlank c = false ∧ c ≠ '<') :
    nextTarget? s = .none := by
  rw [nextTarget?_eq_none_iff]
  rintro target ⟨front, back, items, rfl, hblank, -⟩
  cases front with
  | nil => exact (hhead '<' rfl).2 rfl
  | cons c front =>
    have hvisible := (hhead c rfl).1
    rw [hblank c (by simp)] at hvisible
    cases hvisible

theorem nextTarget?_of_notMem_close (h : '>' ∉ s) : nextTarget? s = .none := by
  rw [nextTarget?_eq_none_iff]
  rintro target ⟨front, back, items, rfl, -⟩
  simp at h

include hs

theorem notMem_of_uri {c : Char} (hc : isUriChar c = false) : c ∉ s := by
  intro hmem
  rw [hs c hmem] at hc
  cases hc

theorem head_of_uri (c : Char) (hc : s.head? = .some c) : isBlank c = false ∧ c ≠ '<' := by
  have huri := hs c (List.mem_of_head? hc)
  refine ⟨isBlank_of_isUriChar huri, ?_⟩
  rintro rfl
  revert huri
  decide

/-- Behind a comma in a target, nothing of the link is found. -/
theorem findSome?_behind {tail : List Char} (htail : ',' ∉ tail) :
    (pieces ',' (s ++ '>' :: tail)).findSome? nextTarget? = .none := by
  induction s using pieces_induction ',' with
  | piece p hp =>
    have hnone : nextTarget? (p ++ '>' :: tail) = .none := by
      refine nextTarget?_of_head fun c hc => ?_
      cases p with
      | nil =>
        cases hc
        decide
      | cons d p => exact head_of_uri hs c hc
    rw [pieces_of_notMem (by simp [hp, htail]), List.findSome?_singleton, hnone]
  | cut p s hp ih =>
    have hnone : nextTarget? p = .none := nextTarget?_of_head (head_of_uri fun c hc => hs c (by simp [hc]))
    rw [List.append_assoc, List.cons_append, pieces_append_cons, pieces_of_notMem hp, List.singleton_append,
      List.findSome?_cons, hnone]
    exact ih fun c hc => hs c (by simp [hc])

end

/-! ## Links -/

namespace Entry

theorem toList_text (e : Entry) :
    e.text.toList = '<' :: e.target.toList ++ '>' :: e.params.flatMap fun p => ';' :: ' ' :: p.text.toList := by
  unfold text
  rw [String.toList_intercalate, List.map_cons, intercalate_cons, List.map_map, List.flatMap_map]
  simp

theorem toList_text_of_target {e : Entry} {a b : List Char} {d : Char} (htarget : e.target.toList = a ++ d :: b) :
    e.text.toList =
      '<' :: a ++ d :: (b ++ '>' :: e.params.flatMap fun p => ';' :: ' ' :: p.text.toList) := by
  rw [toList_text, htarget]
  simp

theorem WellFormed.notMem_params {e : Entry} (h : e.WellFormed) :
    ',' ∉ e.params.flatMap fun p => ';' :: ' ' :: p.text.toList := by
  simp only [List.mem_flatMap, List.mem_cons, Char.reduceEq, false_or, not_exists, not_and]
  intro p hp
  exact (h.params p hp).notMem_text.1

end Entry

/-- Of a link whose target is not plain, no piece is a link. -/
theorem findSome?_text_of_not_isPlain {e : Entry} (h : e.WellFormed) (hplain : e.isPlain = false) :
    (pieces ',' e.text.toList).findSome? nextTarget? = .none := by
  have hopen {a b : List Char} {d : Char} (htarget : e.target.toList = a ++ d :: b) : '>' ∉ '<' :: a := by
    have hclose : '>' ∉ e.target.toList := notMem_of_uri h.target (by decide)
    simp only [htarget, List.mem_append, not_or] at hclose
    simp [hclose.1]
  by_cases hcomma : ',' ∈ e.target.toList
  · obtain ⟨a, b, htarget, ha⟩ := List.eq_append_cons_of_mem hcomma
    have hb : ∀ c ∈ b, isUriChar c = true := fun c hc => h.target c (by simp [htarget, hc])
    rw [Entry.toList_text_of_target htarget, pieces_append_cons, List.findSome?_append,
      pieces_of_notMem (by simp [ha]), List.findSome?_singleton, nextTarget?_of_notMem_close (hopen htarget),
      findSome?_behind hb h.notMem_params]
    rfl
  · have hsemicolon : ';' ∈ e.target.toList := by
      obtain ⟨c, hc, hdivides⟩ := List.all_eq_false.1 hplain
      by_cases hc' : c = ','
      · exact absurd (hc' ▸ hc) hcomma
      · have hc'' : c = ';' := by simpa [hc'] using hdivides
        exact hc'' ▸ hc
    obtain ⟨a, b, htarget, ha⟩ := List.eq_append_cons_of_mem hsemicolon
    have hnone : bracketed? (trim ('<' :: a)) = .none := by
      rw [Option.eq_none_iff_forall_ne_some]
      intro u hu
      obtain ⟨front, back, hu, -⟩ := bracketed?_trim_eq_some_iff.1 hu
      exact hopen htarget (by rw [hu]; simp)
    rw [pieces_of_notMem (by rw [e.toList_text]; simp [hcomma, h.notMem_params]), List.findSome?_singleton,
      Entry.toList_text_of_target htarget, nextTarget?_cut (by simp [ha]), hnone]
    rfl

/-- What is found in a link alone. -/
theorem next?_text {e : Entry} (h : e.WellFormed) :
    next? e.text = if e.isNext && e.isPlain then .some e.target else .none := by
  unfold next?
  cases hplain : e.isPlain with
  | false =>
    rw [findSome?_text_of_not_isPlain h hplain, Bool.and_false]
    rfl
  | true =>
    have hdivides : ∀ c ∈ e.target.toList, c ≠ ',' ∧ c ≠ ';' := by simpa [Entry.isPlain] using hplain
    have hcomma : ',' ∉ e.target.toList := fun hmem => (hdivides _ hmem).1 rfl
    have hsemicolon : ';' ∉ '<' :: e.target.toList ++ ['>'] := by
      simp only [List.cons_append, List.mem_cons, List.mem_append, Char.reduceEq, false_or, List.not_mem_nil, or_false]
      exact fun hmem => (hdivides _ hmem).2 rfl
    have htarget : bracketed? (trim ('<' :: e.target.toList ++ ['>'])) = .some e.target.toList :=
      bracketed?_trim_eq_some_iff.2 ⟨[], [], rfl, by simp⟩
    have hnext : (e.params.map fun p => ' ' :: p.text.toList).any isNext = e.isNext := by
      rw [List.any_map, Entry.isNext, Bool.eq_iff_iff, List.any_eq_true, List.any_eq_true]
      refine exists_congr fun p => and_congr_right fun hp => ?_
      rw [Function.comp_apply, Param.isNext_text (h.params p hp)]
    have htext : e.text.toList =
        ('<' :: e.target.toList ++ ['>']) ++ e.params.flatMap fun p => ';' :: ' ' :: p.text.toList := by
      rw [e.toList_text]
      simp
    rw [pieces_of_notMem (by rw [e.toList_text]; simp [hcomma, h.notMem_params]), List.findSome?_singleton, nextTarget?,
      htext, Param.pieces_text h.params hsemicolon]
    simp only [htarget, hnext, Bool.and_true]
    cases e.isNext with
    | true => simp
    | false => simp

/-! ## Headers -/

theorem nextTarget?_cons_of_isBlank {c : Char} (hc : isBlank c = true) (p : List Char) :
    nextTarget? (c :: p) = nextTarget? p := by
  have hne : c ≠ ';' := by
    rintro rfl
    revert hc
    decide
  induction p using pieces_induction ';' with
  | piece p hp => rw [nextTarget?_of_notMem hp, nextTarget?_of_notMem (by simp [hp, hne.symm])]
  | cut p items hp ih =>
    have htrim : trim (c :: p) = trim p := by
      unfold trim
      rw [List.dropWhile_cons_of_pos hc]
    rw [← List.cons_append, nextTarget?_cut hp, nextTarget?_cut (by simp [hp, hne.symm]), htrim]

/-- A space in front of a header does not count. -/
theorem next?_space (s : String) : next? (" " ++ s) = next? s := by
  have hspace : (" " ++ s).toList = ' ' :: s.toList := by simp
  unfold next?
  rw [hspace]
  congr 1
  induction s.toList using pieces_induction ',' with
  | piece p hp =>
    rw [pieces_of_notMem hp, pieces_of_notMem (by simp [hp]), List.findSome?_singleton, List.findSome?_singleton,
      nextTarget?_cons_of_isBlank (by decide)]
  | cut p s hp ih =>
    rw [← List.cons_append, pieces_append_cons, pieces_append_cons, pieces_of_notMem hp,
      pieces_of_notMem (by simp [hp]), List.singleton_append, List.singleton_append, List.findSome?_cons,
      List.findSome?_cons, nextTarget?_cons_of_isBlank (by decide)]

theorem next?_headerText_cons (e : Entry) (es : List Entry) :
    next? (headerText (e :: es)) = (next? e.text).or (next? (headerText es)) := by
  cases es with
  | nil =>
    have hnone : next? (headerText []) = .none := by decide
    rw [hnone, Option.or_none]
    rfl
  | cons e' es =>
    have htext : headerText (e :: e' :: es) = e.text ++ "," ++ (" " ++ headerText (e' :: es)) := by
      unfold headerText
      have hsep : ", " = "," ++ " " := by decide
      rw [List.map_cons, String.intercalate_cons_of_ne_nil (by simp), hsep]
      simp only [String.append_assoc]
    rw [htext, next?_append, next?_space]

/-- **Links are found by plain targets.** From a header that is written out of links, the target of the first link to a
next page is found whose target holds neither a comma nor a semicolon, and none is found exactly if there is no such
link. So the first link to a next page is the one that is found, or there is none and none is found, exactly if the
target of that link is plain. -/
theorem next?_headerText {es : List Entry} (hes : ∀ e ∈ es, e.WellFormed) :
    next? (headerText es) = (es.find? fun e => e.isNext && e.isPlain).map Entry.target ∧
    (next? (headerText es) = (es.find? Entry.isNext).map Entry.target ↔
      ∀ e, es.find? Entry.isNext = .some e → e.isPlain = true) := by
  have hfound : next? (headerText es) = (es.find? fun e => e.isNext && e.isPlain).map Entry.target := by
    induction es with
    | nil => decide
    | cons e es ih =>
      rw [next?_headerText_cons, next?_text (hes e (by simp)), ih fun e' he' => hes e' (by simp [he']), List.find?_cons]
      cases e.isNext && e.isPlain with
      | true => rfl
      | false => rfl
  refine ⟨hfound, ?_⟩
  rw [hfound]
  cases hfirst : es.find? Entry.isNext with
  | none =>
    have hnone : es.find? (fun e => e.isNext && e.isPlain) = .none := by
      rw [List.find?_eq_none] at hfirst ⊢
      intro e he hboth
      exact hfirst e he (Bool.and_eq_true_iff.1 hboth).1
    simp [hnone]
  | some e =>
    obtain ⟨hnext, before, after, rfl, hbefore⟩ := List.find?_eq_some_iff_append.1 hfirst
    simp only [Option.map_some, Option.some.injEq, forall_eq', Option.map_eq_some_iff]
    constructor
    · rintro ⟨e', he', htarget⟩
      have hboth := List.find?_some he'
      have hplain := (Bool.and_eq_true_iff.1 hboth).2
      unfold Entry.isPlain at hplain ⊢
      rwa [htarget] at hplain
    · intro hplain
      refine ⟨e, List.find?_eq_some_iff_append.2 ⟨by rw [hnext, hplain]; rfl, before, after, rfl, fun e' he' => ?_⟩, rfl⟩
      have hno : e'.isNext = false := by simpa using hbefore e' he'
      rw [hno]
      rfl

/-- A comma in the target of the first link, and a link behind it that is found in its place. -/
theorem next?_headerText_plain :
    let es : List Entry := [⟨"https://forge.example/teams?ids=1,2", [⟨"rel", "Next"⟩]⟩,
      ⟨"https://forge.example/teams?page=3", [⟨"title", "on"⟩, ⟨"REL", "next"⟩]⟩]
    (∀ e ∈ es, e.WellFormed) ∧
      headerText es = "<https://forge.example/teams?ids=1,2>; rel=\"Next\", " ++
        "<https://forge.example/teams?page=3>; title=\"on\"; REL=\"next\"" ∧
      next? (headerText es) = .some "https://forge.example/teams?page=3" ∧
      next? (headerText es) ≠ (es.find? Entry.isNext).map Entry.target := by
  intro es
  have hall : (es.all fun e => decide e.WellFormed) = true := by decide +kernel
  have hes : ∀ e ∈ es, e.WellFormed := fun e he => of_decide_eq_true (List.all_eq_true.1 hall e he)
  obtain ⟨hfound, hiff⟩ := next?_headerText hes
  refine ⟨hes, by decide, ?_, ?_⟩
  · rw [hfound]
    decide
  · rw [Ne, hiff]
    decide

/-- A link to the next page that is not found: the listing is complete with the page in front of it. -/
theorem next?_headerText_comma :
    let github : Api := ⟨⟨"https".toList, [], [], .some (.name "api.github.com".toList), .none, .segments [[]], .none,
      .none⟩⟩
    let e : Entry := ⟨"https://api.github.com/user/teams?ids=1,2", [⟨"rel", "next"⟩]⟩
    let page : Response := ⟨200, [.ofText "Link" (headerText [e])],
      .some (Text.Utf8.encode "[\x7b\"slug\":\"ops\",\"organization\":\x7b\"login\":\"acme\"\x7d\x7d]".toList)⟩
    let x := (provider github true).listGroups "t" "acme"
    e.WellFormed ∧ e.isNext = true ∧
      headerText [e] = "<https://api.github.com/user/teams?ids=1,2>; rel=\"next\"" ∧
      next? (headerText [e]) = .none ∧
      ((Url.parse e.target).toOption.any fun next => next.isSameOrigin github.base) = true ∧
      x.resultFrom (fun _ => .received page) = .ok [⟨"ops", "acme"⟩] ∧
      (x.questionsFrom fun _ => .received page).length = 1 := by
  intro github e page x
  have hteams : (x.resultFrom fun _ => .received page).toOption = .some [⟨"ops", "acme"⟩] := by decide +kernel
  exact ⟨by decide +kernel, by decide +kernel, by decide, by decide, by decide +kernel, eq_ok_of_toOption hteams,
    by decide +kernel⟩

end TokenGate.Forge.Link
