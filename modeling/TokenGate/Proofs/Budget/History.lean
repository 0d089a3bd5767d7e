/-
What a budget shows after the responses so far.

Words and figures are read as they are written (`readWord_eq_some_iff`, `headerWord_eq_some_iff`). A response that
reports a figure sets it and one that does not leaves it, so what is kept is what was reported last, and the budget
shows it (`shows_foldl`). A budget takes in what its holders observe and nothing else (`Sharing.Kept`), whoever of them
that is (`shows_taken`).
-/
import Mathlib.Data.List.Induction
import TokenGate.Budget.History
import TokenGate.Proofs.Http.Headers
import TokenGate.Proofs.Text.Digits

namespace TokenGate

/-! ## Numbers -/

namespace Text

theorem readWord_eq_some_iff {s : List Char} {n : Nat} : readWord s = .some n ↔ WritesWord s n := by
  have hdigits {t : List Char} : (readDigits 10 t).bind fitWord = .some n ↔
      t ≠ [] ∧ (∀ c ∈ t, '0' ≤ c ∧ c ≤ '9') ∧
        n = Nat.ofDigits 10 (t.reverse.map fun c => c.toNat - '0'.toNat) ∧ n < 2 ^ 64 := by
    have hfit {m : Nat} : fitWord m = .some n ↔ m = n ∧ m < 2 ^ 64 := by
      unfold fitWord
      split
      next h => exact ⟨fun h' => ⟨Option.some.inj h', h⟩, fun h' => congrArg _ h'.1⟩
      next h => exact ⟨nofun, fun h' => absurd h'.2 h⟩
    cases t with
    | nil => simp [readDigits]
    | cons c t =>
      simp only [readDigits, Option.bind_eq_some_iff, readDigitsFrom_ten_eq_some_iff, hfit, Nat.mul_zero, Nat.add_zero]
      constructor
      · rintro ⟨m, ⟨hall, rfl⟩, rfl, hlt⟩
        exact ⟨List.cons_ne_nil _ _, hall, rfl, hlt⟩
      · rintro ⟨-, hall, rfl, hlt⟩
        exact ⟨_, ⟨hall, rfl⟩, rfl, hlt⟩
  unfold readWord WritesWord
  split
  next t =>
    rw [hdigits]
    constructor
    · exact fun h => ⟨t, .inr rfl, h⟩
    · rintro ⟨ds, rfl | hplus, hne, hall, h⟩
      · exact absurd (hall '+' (List.mem_cons_self ..)) (by decide)
      · obtain rfl := (List.cons.inj hplus).2
        exact ⟨hne, hall, h⟩
  next hplain =>
    rw [hdigits]
    constructor
    · exact fun h => ⟨s, .inl rfl, h⟩
    · rintro ⟨ds, rfl | rfl, h⟩
      · exact h
      · exact absurd rfl (hplain ds)

end Text

namespace Budget

/-! ## Reports -/

section

variable {hs : Http.Headers} {name : String} {n : Nat}

theorem headerWord_eq_some_iff : headerWord hs name = .some n ↔ Tells hs name n := by
  have hword {s : String} : Text.readWord (Text.trim s.toList) = .some n ↔
      ∃ word, Text.IsCore s.toList word ∧ Text.WritesWord word n := by
    constructor
    · intro h
      have hne : Text.trim s.toList ≠ [] := fun hnil => by rw [hnil] at h; cases h
      exact ⟨_, Text.isCore_trim hne, Text.readWord_eq_some_iff.1 h⟩
    · rintro ⟨word, hcore, hwrites⟩
      rw [hcore.trim_eq]
      exact Text.readWord_eq_some_iff.2 hwrites
  simp only [headerWord, Option.bind_eq_some_iff, hword, Http.Headers.firstText?_eq_some_iff,
    Http.Header.text?_eq_some_iff]
  constructor
  · rintro ⟨s, ⟨before, h, after, hsplit, hbefore, hname, hbytes, hs⟩, word, hcore, hwrites⟩
    exact ⟨before, h, after, word, hsplit, hbefore, hname, hbytes, hs ▸ hcore, hwrites⟩
  · rintro ⟨before, h, after, word, hsplit, hbefore, hname, hbytes, hcore, hwrites⟩
    refine ⟨String.ofList (h.value.map fun b => Char.ofNat b.toNat),
      ⟨before, h, after, hsplit, hbefore, hname, hbytes, String.toList_ofList⟩, word, ?_, hwrites⟩
    rwa [String.toList_ofList]

theorem headerWord_eq_none_iff : headerWord hs name = .none ↔ ∀ n, ¬ Tells hs name n := by
  rw [Option.eq_none_iff_forall_ne_some]
  exact forall_congr' fun n => not_congr headerWord_eq_some_iff

/-- What is read of a figure in a response. -/
def Figure.read? (f : Figure) (hs : Http.Headers) : Option Nat :=
  (headerWord hs f.older).or (headerWord hs f.newer)

theorem read?_eq_some_iff {f : Figure} : f.read? hs = .some n ↔ Reports hs f n := by
  rw [Figure.read?, Option.or_eq_some_iff, headerWord_eq_none_iff]
  simp only [headerWord_eq_some_iff, Reports]

theorem read?_eq_none_iff {f : Figure} : f.read? hs = .none ↔ ∀ n, ¬ Reports hs f n := by
  rw [Option.eq_none_iff_forall_ne_some]
  exact forall_congr' fun n => not_congr read?_eq_some_iff

end

/-! ## Histories -/

section

variable {past : List Http.Headers} {f : Figure} {n : Nat}

/-- What is read of a figure in the last of the responses where that is anything. -/
def Figure.lastRead? (f : Figure) (past : List Http.Headers) : Option Nat :=
  past.reverse.findSome? f.read?

theorem lastRead?_concat (past : List Http.Headers) (hs : Http.Headers) (f : Figure) :
    f.lastRead? (past ++ [hs]) = (f.read? hs).or (f.lastRead? past) := by
  simp only [Figure.lastRead?, List.reverse_append, List.reverse_cons, List.reverse_nil, List.nil_append,
    List.singleton_append, List.findSome?_cons]
  cases f.read? hs <;> rfl

theorem lastRead?_eq_some_iff : f.lastRead? past = .some n ↔ LastReported past f n := by
  rw [Figure.lastRead?, List.findSome?_eq_some_iff]
  constructor
  · rintro ⟨since, hs, before, hsplit, hreports, hnone⟩
    refine ⟨before.reverse, hs, since.reverse, ?_, read?_eq_some_iff.1 hreports, fun hs' h => ?_⟩
    · rw [← List.reverse_reverse past, hsplit]
      simp
    · exact read?_eq_none_iff.1 (hnone hs' (List.mem_reverse.1 h))
  · rintro ⟨before, hs, since, rfl, hreports, hnone⟩
    refine ⟨since.reverse, hs, before.reverse, by simp, read?_eq_some_iff.2 hreports, fun hs' h => ?_⟩
    exact read?_eq_none_iff.2 (hnone hs' (List.mem_reverse.1 h))

theorem lastRead?_eq_none_iff : f.lastRead? past = .none ↔ NeverReported past f := by
  rw [Figure.lastRead?, List.findSome?_eq_none_iff]
  simp only [List.mem_reverse, read?_eq_none_iff, NeverReported]

theorem LastReported.unique {m : Nat} (h : LastReported past f n) (h' : LastReported past f m) : m = n :=
  Option.some.inj ((lastRead?_eq_some_iff.2 h').symm.trans (lastRead?_eq_some_iff.2 h))

/-- Of each figure, a budget keeps what was reported last. -/
theorem foldl_observe_eq (past : List Http.Headers) :
    past.foldl observe initial = ⟨Figure.remaining.lastRead? past, (Figure.reset.lastRead? past).getD 0,
      ((Figure.remaining.lastRead? past).map gaugeFor).getD 0⟩ := by
  induction past using List.reverseRecOn with
  | nil => rfl
  | append_singleton past hs ih =>
    have hremaining : reportedRemaining hs = Figure.remaining.read? hs := rfl
    have hreset : reportedReset hs = Figure.reset.read? hs := rfl
    rw [lastRead?_concat, lastRead?_concat, List.foldl_append, List.foldl_cons, List.foldl_nil, ih]
    ext1
    · rw [observe_reported, hremaining]
    · rw [observe_resetAt, hreset]
      cases Figure.reset.read? hs <;> rfl
    · rw [observe_gauge, hremaining]
      cases Figure.remaining.read? hs <;> rfl

theorem shows_foldl (past : List Http.Headers) : Shows (past.foldl observe initial) past := by
  rw [foldl_observe_eq]
  have hlimit : Text.wordLimit = 2 ^ 64 := rfl
  refine ⟨fun n => ?_, ?_, fun n h => ?_, fun h => ?_, fun n h => ?_, fun h => ?_⟩
  · simp only [Budget.remaining, Option.filter_eq_some_iff, lastRead?_eq_some_iff, hlimit, bne_iff_ne]
  · simp only [Budget.remaining]
    rw [← lastRead?_eq_none_iff, ← lastRead?_eq_some_iff]
    cases Figure.remaining.lastRead? past with
    | none => simp
    | some n => simp [hlimit]
  · rw [lastRead?_eq_some_iff.2 h, Option.getD_some]
  · rw [lastRead?_eq_none_iff.2 h, Option.getD_none]
  · rw [lastRead?_eq_some_iff.2 h]
    rfl
  · rw [lastRead?_eq_none_iff.2 h]
    rfl

/-- The seconds to the renewal are told if there is one, and they are none once it is past. -/
theorem retryAfter_eq_some_iff {b : Budget} {now secs : Nat} :
    b.retryAfter now = .some secs ↔ b.resetAt ≠ 0 ∧ (secs : Int) = max 0 ((b.resetAt : Int) - now) := by
  have hsecs : b.resetAt - now = secs ↔ (secs : Int) = max 0 ((b.resetAt : Int) - now) := by omega
  unfold retryAfter
  split
  next h => simp [h]
  next h => rw [Option.some.injEq, hsecs]; exact (and_iff_right h).symm

theorem retryAfter_eq_none_iff {b : Budget} {now : Nat} : b.retryAfter now = .none ↔ b.resetAt = 0 := by
  unfold retryAfter
  split
  next h => simp [h]
  next h => simp [h]

end

/-! ## Sharing -/

namespace Sharing

/-- Each budget keeps what it has taken in, and one that nobody holds has taken in nothing. -/
structure Kept (acts : List Act) (s : Sharing) : Prop where
  held_lt : ∀ k ∈ s.held, k < s.held.length
  taken_eq : ∀ k, s.held.length ≤ k → start.taken k acts = []
  budgets_eq : ∀ k, s.budgets k = (start.taken k acts).foldl observe initial

theorem kept_start : Kept [] start :=
  ⟨nofun, fun _ _ => rfl, fun _ => rfl⟩

theorem Kept.step {acts : List Act} {s : Sharing} (h : Kept acts s) (hs : start.run acts = s) (act : Act) :
    Kept (acts ++ [act]) (s.step act) := by
  have htaken (k : Nat) : start.taken k (acts ++ [act]) = start.taken k acts ++ (s.taken? k act).toList := by
    rw [taken_concat, hs]
  cases act with
  | make =>
    simp only [taken?, Option.toList_none, List.append_nil] at htaken
    simp only [Sharing.step]
    refine ⟨fun k hk => ?_, fun k hk => ?_, fun k => ?_⟩
    · rw [List.length_append, List.length_singleton]
      obtain hk | hk := List.mem_append.1 hk
      · exact Nat.lt_succ_of_lt (h.held_lt k hk)
      · exact Nat.lt_succ_of_le (List.mem_singleton.1 hk).le
    · rw [List.length_append] at hk
      rw [htaken, h.taken_eq k (le_of_add_le_left hk)]
    · rw [htaken]
      simp only [Function.update_apply]
      split
      next hk => rw [h.taken_eq k hk.ge, List.foldl_nil]
      next => exact h.budgets_eq k
  | copy holder =>
    simp only [taken?, Option.toList_none, List.append_nil] at htaken
    simp only [Sharing.step]
    refine ⟨fun k hk => ?_, fun k hk => ?_, fun k => ?_⟩
    · rw [List.length_append]
      have hmem : k ∈ s.held := by
        obtain hk | hk := List.mem_append.1 hk
        · exact hk
        · exact List.mem_of_getElem? (Option.mem_toList.1 hk)
      exact Nat.lt_add_right _ (h.held_lt k hmem)
    · rw [List.length_append] at hk
      rw [htaken, h.taken_eq k (le_of_add_le_left hk)]
    · rw [htaken, h.budgets_eq k]
  | observe holder hs' =>
    simp only [Sharing.step, taken?] at htaken ⊢
    cases hheld : s.held[holder]? with
    | none =>
      simp only [hheld, reduceCtorEq, if_false, Option.toList_none, List.append_nil] at htaken
      exact ⟨h.held_lt, fun k hk => by rw [htaken, h.taken_eq k hk], fun k => by rw [htaken, h.budgets_eq k]⟩
    | some j =>
      simp only [hheld, Option.some.injEq] at htaken
      have hj : j < s.held.length := h.held_lt j (List.mem_of_getElem? hheld)
      refine ⟨h.held_lt, fun k hk => ?_, fun k => ?_⟩
      · rw [htaken, h.taken_eq k hk, if_neg (hj.trans_le hk).ne]
        rfl
      · rw [htaken]
        simp only [Function.update_apply]
        by_cases hk : k = j
        · rw [if_pos hk, if_pos hk.symm, Option.toList_some, List.foldl_append, hk, h.budgets_eq j]
          rfl
        · rw [if_neg hk, if_neg (Ne.symm hk), Option.toList_none, List.append_nil, h.budgets_eq k]

theorem kept_run (acts : List Act) : Kept acts (start.run acts) := by
  induction acts using List.reverseRecOn with
  | nil => exact kept_start
  | append_singleton acts act ih =>
    rw [run_concat]
    exact ih.step rfl act

/-- Whoever observed a response, every holder of the budget sees what it reports. -/
theorem shows_taken (acts : List Act) (holder : Nat) (hholder : holder < (start.run acts).held.length) :
    ∃ k b, (start.run acts).held[holder]? = .some k ∧ (start.run acts).budget? holder = .some b ∧
      Shows b (start.taken k acts) ∧
      ∀ now : Nat, (b.retryAfter now = .none ↔ b.resetAt = 0) ∧
        ∀ secs : Nat, b.retryAfter now = .some secs ↔
          b.resetAt ≠ 0 ∧ (secs : Int) = max 0 ((b.resetAt : Int) - now) := by
  obtain ⟨k, hk⟩ : ∃ k, (start.run acts).held[holder]? = .some k := ⟨_, List.getElem?_eq_getElem hholder⟩
  refine ⟨k, (start.run acts).budgets k, hk, ?_, ?_, fun now => ⟨retryAfter_eq_none_iff, fun secs => ?_⟩⟩
  · rw [budget?, hk, Option.map_some]
  · rw [(kept_run acts).budgets_eq k]
    exact shows_foldl _
  · exact retryAfter_eq_some_iff

/-- Two holders of one budget take in three responses, and somebody else takes in one in between. The older header of
the first is no number, the second writes the largest word, and of the third only the renewal counts. -/
theorem shows_taken_copied :
    let first : Http.Headers := [.ofText "X-RateLimit-Remaining" "many", .ofText "RateLimit-Remaining" "\t+007 ",
      .ofText "X-RateLimit-Reset" "90"]
    let second : Http.Headers := [.ofText "x-ratelimit-remaining" "18446744073709551615"]
    let third : Http.Headers := [⟨"X-RateLimit-Remaining", [0xFF]⟩, .ofText "x-ratelimit-remaining" "5",
      .ofText "ratelimit-reset" "40"]
    let acts : List Act := [.make, .copy 0, .make, .observe 1 first, .observe 2 [.ofText "ratelimit-remaining" "3"],
      .observe 0 second, .observe 1 third]
    1 < (start.run acts).held.length ∧ ∃ b, (start.run acts).budget? 1 = .some b ∧ Shows b [first, second, third] ∧
      b.remaining = .none ∧ b.gauge = 2 ^ 63 - 1 ∧ b.retryAfter 30 = .some 10 ∧ b.retryAfter 50 = .some 0 := by
  intro first second third acts
  have hholder : 1 < (start.run acts).held.length := by decide
  obtain ⟨k, b, hk, hb, hshows, -⟩ := shows_taken acts 1 hholder
  obtain rfl : 0 = k := Option.some.inj hk
  have hvalue : (start.run acts).budget? 1 = .some ⟨.some (2 ^ 64 - 1), 40, 2 ^ 63 - 1⟩ := by decide
  refine ⟨hholder, b, hb, hshows, ?_⟩
  obtain rfl := Option.some.inj (hb.symm.trans hvalue)
  decide

end Sharing

end Budget

end TokenGate
