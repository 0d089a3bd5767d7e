/-
Where one validation stands in a course of events.

A validation that begins is answered by the cache, or it goes from question to question until it is resolved or given
up. `Standing` says which of these it is, what it has heard and given notice of by then, and that only a resolution
that is remembered is written. It holds when the validation begins (`Standing.begin`), and every later event keeps it
(`Standing.step`): an event that is about another validation does not concern it (`lookup_step_of_ne`), and one that is
about it comes to nothing unless it waits.
-/
import TokenGate.Proofs.Service.Dates

namespace TokenGate

variable {Q : Type} {Answer : Q → Type}

/-! ## Reads -/

theorem Cache.ReadOnly.refl (c : Cache) : ReadOnly c c := ⟨_, _, rfl⟩

theorem Cache.readOnly_get (c : Cache) (now : Nat) (token : String) : ReadOnly c (c.get now token).2 :=
  c.get_eq now token

namespace Service

/-! ## The flight of a validation -/

section

variable {w : Wiring Answer} {s : Service Answer} {id id' : Nat} {token : String} {cancelAt : Option Nat}
  {x : Exchange Answer Resolution}

theorem lookup_land_self : (s.land id).flights.lookup id = .none := by
  rw [List.lookup_eq_none_iff]
  intro x hx
  simpa using (mem_flights_land.1 hx).2.symm

theorem lookup_land_of_ne (h : id' ≠ id) : (s.land id).flights.lookup id' = s.flights.lookup id' := by
  unfold land
  induction s.flights with
  | nil => rfl
  | cons f flights ih =>
    obtain ⟨id₁, f⟩ := f
    by_cases h₁ : id₁ = id
    · have hother : (id' == id₁) = false := by simpa [h₁] using h
      simpa [List.filter_cons, h₁, List.lookup_cons, h₁ ▸ hother] using ih
    · simp only [List.filter_cons, bne_iff_ne, ne_eq, h₁, not_false_eq_true, if_true, List.lookup_cons, ih]

theorem lookup_proceed_of_ne (h : id' ≠ id) :
    (s.proceed w id token cancelAt x).1.flights.lookup id' = s.flights.lookup id' := by
  cases x with
  | done r => simp only [proceed, finish, memorize_flights]
  | ask q resume =>
    have hother : (id' == id) = false := by simpa using h
    simp only [proceed, countQuestion_flights, List.lookup_cons, hother]

theorem notices_proceed : ∃ n, (s.proceed w id token cancelAt x).2 = [n] ∧ n.subject = id := by
  cases x with
  | done r => exact ⟨_, rfl, rfl⟩
  | ask q resume => exact ⟨_, rfl, rfl⟩

end

variable [DecidableEq Q] {w : Wiring Answer} {s : Service Answer} {id : Nat} {token : String}
  {cancelAt : Option Nat} {e : Event Answer}

/-- With an event, at most one notice is given. -/
theorem exists_notices_step (w : Wiring Answer) (s : Service Answer) (e : Event Answer) :
    ∃ n : Option (Notice Q), (s.step w e).2 = n.toList := by
  have hproceed {s : Service Answer} {id : Nat} {token : String} {cancelAt : Option Nat}
      (x : Exchange Answer Resolution) : ∃ n : Option (Notice Q), (s.proceed w id token cancelAt x).2 = n.toList := by
    obtain ⟨n, hn, -⟩ : ∃ n, (s.proceed w id token cancelAt x).2 = [n] ∧ n.subject = id := notices_proceed
    exact ⟨.some n, hn⟩
  have hfinished (s : Service Answer) (id : Nat) (result : Except ValidationError Identity) :
      ∃ n : Option (Notice Q), (s.finish id result).2 = n.toList := ⟨.some (.finished id result), rfl⟩
  cases e with
  | begin id token cancelAt =>
    simp only [step, begin]
    split
    next => exact hfinished ..
    next =>
      split
      next => exact hfinished ..
      next => exact hproceed _
  | answer id q a =>
    simp only [step, answer]
    split
    next =>
      split
      next =>
        split
        next => exact hfinished ..
        next => exact hproceed _
      next => exact ⟨.none, rfl⟩
    next => exact ⟨.none, rfl⟩
  | cancel id =>
    simp only [step, cancel]
    split
    next => exact hfinished ..
    next => exact ⟨.none, rfl⟩
  | _ => exact ⟨.none, rfl⟩

/-! ## Events that do not concern a validation -/

/-- What is about another validation leaves a validation under way, or not under way, as it was. -/
theorem lookup_step_of_ne (h : e.subject? ≠ .some id) :
    (s.step w e).1.flights.lookup id = s.flights.lookup id := by
  cases e with
  | begin id' token cancelAt =>
    have hne : id ≠ id' := fun heq => h (by rw [heq]; rfl)
    simp only [step, begin]
    split
    next => rfl
    next =>
      split
      next => rfl
      next => exact lookup_proceed_of_ne hne
  | answer id' q a =>
    have hne : id ≠ id' := fun heq => h (by rw [heq]; rfl)
    simp only [step, answer]
    split
    next =>
      split
      next =>
        split
        next => exact lookup_land_of_ne hne
        next => exact (lookup_proceed_of_ne hne).trans (lookup_land_of_ne hne)
      next => rfl
    next => rfl
  | cancel id' =>
    have hne : id ≠ id' := fun heq => h (by rw [heq]; rfl)
    simp only [step, cancel]
    split
    next => exact lookup_land_of_ne hne
    next => rfl
  | _ => rfl

/-- All that comes of an event is about the validation that the event is about. -/
theorem subject_of_mem_step {n : Notice Q} (h : n ∈ (s.step w e).2) : e.subject? = .some n.subject := by
  have hone : ∀ {p : Service Answer × List (Notice Q)} {id : Nat}, (∃ m, p.2 = [m] ∧ m.subject = id) → n ∈ p.2 →
      n.subject = id := by
    rintro p id ⟨m, hm, hid⟩ h
    rw [hm, List.mem_singleton] at h
    rw [h, hid]
  cases e with
  | begin id' token cancelAt =>
    simp only [step, begin] at h
    split at h
    next => rw [hone ⟨_, rfl, rfl⟩ h]; rfl
    next =>
      split at h
      next => rw [hone ⟨_, rfl, rfl⟩ h]; rfl
      next => rw [hone notices_proceed h]; rfl
  | answer id' q a =>
    simp only [step, answer] at h
    split at h
    next =>
      split at h
      next =>
        split at h
        next => rw [hone ⟨_, rfl, rfl⟩ h]; rfl
        next => rw [hone notices_proceed h]; rfl
      next => cases h
    next => cases h
  | cancel id' =>
    simp only [step, cancel] at h
    split at h
    next => rw [hone ⟨_, rfl, rfl⟩ h]; rfl
    next => cases h
  | _ => cases h

theorem filter_step_of_ne (h : e.subject? ≠ .some id) : ((s.step w e).2.filter fun n => n.subject == id) = [] := by
  refine List.filter_eq_nil_iff.2 fun n hn hid => h ?_
  rw [subject_of_mem_step hn, beq_iff_eq.1 hid]

theorem heard?_eq_none_of_ne (h : e.subject? ≠ .some id) : s.heard? id e = .none := by
  cases e with
  | answer id' q a =>
    have hne : id' ≠ id := fun heq => h (by rw [heq]; rfl)
    simp only [heard?]
    split
    next => rw [if_neg fun hcond => hne hcond.1]
    next => rfl
  | _ => rfl

theorem writes_concat {events : List (Event Answer)} :
    s.Writes w (events ++ [e]) id ↔ s.Writes w events id ∨
      e.subject? = .some id ∧ ¬ Cache.ReadOnly (s.run w events).cache ((s.run w events).step w e).1.cache := by
  constructor
  · rintro ⟨past, e', hpast, hid, hwrite⟩
    rcases List.prefix_concat_iff.1 hpast with heq | hpast
    · obtain ⟨rfl, rfl⟩ := List.append_singleton_inj.1 heq
      exact .inr ⟨hid, hwrite⟩
    · exact .inl ⟨past, e', hpast, hid, hwrite⟩
  · rintro (⟨past, e', hpast, hid, hwrite⟩ | ⟨hid, hwrite⟩)
    · exact ⟨past, e', hpast.trans (List.prefix_append ..), hid, hwrite⟩
    · exact ⟨events, e, List.prefix_rfl, hid, hwrite⟩

theorem not_writes_nil : ¬ s.Writes w [] id := by
  rintro ⟨past, e, hpast, -⟩
  simp at hpast

omit [DecidableEq Q] in
theorem isGivenUp_mono {now later : Nat} (h : isGivenUp cancelAt now = true) (hle : now ≤ later) :
    isGivenUp cancelAt later = true := by
  obtain ⟨t, rfl, ht⟩ := (Option.any_eq_true ..).1 h
  have ht' : t ≤ later := Nat.le_trans (by simpa using ht) hle
  simpa [isGivenUp] using ht'

theorem GivenUp.concat {events : List (Event Answer)} (h : GivenUp events (s.run w events) id cancelAt) :
    GivenUp (events ++ [e]) (s.run w (events ++ [e])) id cancelAt := by
  refine Or.imp (List.mem_append_left _) (fun h => isGivenUp_mono h ?_) h
  exact now_le_run (List.prefix_append events [e])

/-! ## What is about a validation -/

theorem step_begin_hit {o : Outcome} (h : (s.cache.get s.now token).1 = .some o) :
    s.step w (.begin id token cancelAt) =
      finish { s with cache := (s.cache.get s.now token).2 } id o.result := by
  simp only [step, begin]
  generalize s.cache.get s.now token = found at h ⊢
  obtain ⟨_, cache⟩ := found
  cases h
  rfl

theorem step_begin_givenUp (h : (s.cache.get s.now token).1 = .none) (hgiven : isGivenUp cancelAt s.now = true) :
    s.step w (.begin id token cancelAt) =
      finish { s with cache := (s.cache.get s.now token).2 } id (.error .cancelled) := by
  simp only [step, begin]
  generalize s.cache.get s.now token = found at h ⊢
  obtain ⟨_, cache⟩ := found
  cases h
  simp only [hgiven, if_true]

theorem step_begin_turn (h : (s.cache.get s.now token).1 = .none) (hkept : isGivenUp cancelAt s.now = false) :
    s.step w (.begin id token cancelAt) =
      proceed w { s with cache := (s.cache.get s.now token).2 } id token cancelAt
        (Validation.resolve w.provider w.policy token) := by
  simp only [step, begin]
  generalize s.cache.get s.now token = found at h ⊢
  obtain ⟨_, cache⟩ := found
  cases h
  simp only [hkept, if_neg Bool.false_ne_true]

/-- What is about a validation that is not under way comes to nothing, unless it begins. -/
theorem step_of_lookup_eq_none (h : s.flights.lookup id = .none) (hid : e.subject? = .some id)
    (hbegin : ∀ token cancelAt, e ≠ .begin id token cancelAt) : s.step w e = (s, []) := by
  cases e with
  | begin id' token cancelAt => cases hid; exact absurd rfl (hbegin _ _)
  | answer id' q a => cases hid; simp only [step, answer, h]
  | cancel id' => cases hid; simp only [step, cancel, h]
  | _ => cases hid

section

variable {f : Flight Answer} (hf : s.flights.lookup id = .some f)

include hf

theorem step_cancel_of_lookup : s.step w (.cancel id) = (s.land id).finish id (.error .cancelled) := by
  simp only [step, cancel, hf]

theorem step_answer_of_ne {q : Q} {a : Answer q} (hq : q ≠ f.question) : s.step w (.answer id q a) = (s, []) := by
  simp only [step, answer, hf, hq, dite_false]

theorem step_answer_givenUp {a : Answer f.question} (hgiven : isGivenUp f.cancelAt s.now = true) :
    s.step w (.answer id f.question a) = (s.land id).finish id (.error .cancelled) := by
  simp only [step, answer, hf, hgiven, dite_true, if_true]

theorem step_answer_turn {a : Answer f.question} (hkept : isGivenUp f.cancelAt s.now = false) :
    s.step w (.answer id f.question a) =
      ((s.land id).observe (w.provider.headers f.question a)).proceed w id f.token f.cancelAt (f.resume a) := by
  simp only [step, answer, hf, hkept, dite_true, if_neg Bool.false_ne_true]

theorem heard?_answer {a : Answer f.question} (hkept : isGivenUp f.cancelAt s.now = false) :
    s.heard? id (.answer id f.question a) = .some ⟨f.question, a⟩ := by
  simp only [heard?, hf, hkept, and_self, if_true]

theorem heard?_answer_of_ne {q : Q} {a : Answer q} (hq : q ≠ f.question) :
    s.heard? id (.answer id q a) = .none := by
  simp only [heard?, hf, hq, false_and, and_false, if_false]

end

theorem heard?_of_lookup_eq_none (h : s.flights.lookup id = .none) : s.heard? id e = .none := by
  cases e with
  | answer id' q a =>
    simp only [heard?]
    split
    next f hf =>
      refine if_neg fun hcond => ?_
      rw [hcond.1, h] at hf
      cases hf
    next => rfl
  | _ => rfl

/-! ## Events with which nothing comes about -/

/-- With `e`, nothing comes about for the validation `id`, which reads at most. -/
structure Idle (w : Wiring Answer) (s : Service Answer) (e : Event Answer) (id : Nat) : Prop where
  flight : (s.step w e).1.flights.lookup id = s.flights.lookup id
  silent : ((s.step w e).2.filter fun n => n.subject == id) = []
  deaf : s.heard? id e = .none
  reads : e.subject? = .some id → Cache.ReadOnly s.cache (s.step w e).1.cache

theorem Idle.of_ne (h : e.subject? ≠ .some id) : Idle w s e id :=
  ⟨lookup_step_of_ne h, filter_step_of_ne h, heard?_eq_none_of_ne h, fun hid => absurd hid h⟩

theorem Idle.of_step_eq (h : s.step w e = (s, [])) (hdeaf : s.heard? id e = .none) : Idle w s e id := by
  refine ⟨?_, ?_, hdeaf, fun _ => ?_⟩
  · rw [h]
  · rw [h]; rfl
  · rw [h]; exact .refl _

/-! ## Where a validation stands -/

/-- Where the validation `id` of `token` stands after `events`, the first of which is that it begins at `s`. -/
inductive Standing (w : Wiring Answer) (s : Service Answer) (events : List (Event Answer)) (id : Nat) (token : String)
    (cancelAt : Option Nat) : Prop where
  /-- The cache has answered it. -/
  | hit {o : Outcome} (hget : (s.cache.get s.now token).1 = .some o)
      (hover : (s.run w events).flights.lookup id = .none) (hheard : s.heard w id events = [])
      (hnotices : s.noticesOf w id events = [.finished id o.result]) (hreads : ¬ s.Writes w events id)
  /-- It waits for the answer to a question. -/
  | waits {q : Q} {resume : Answer q → Exchange Answer Resolution} (hmiss : (s.cache.get s.now token).1 = .none)
      (hflight : (s.run w events).flights.lookup id = .some ⟨token, q, resume, cancelAt⟩)
      (hkept : .cancel id ∉ events)
      (hleads : (Validation.resolve w.provider w.policy token).Leads (s.heard w id events) (.ask q resume))
      (hnotices : s.noticesOf w id events = Notice.asking id (s.heard w id events) ++ [.asked id q])
      (hreads : ¬ s.Writes w events id)
  /-- It has come to a resolution. -/
  | resolved {r : Resolution} (hmiss : (s.cache.get s.now token).1 = .none)
      (hover : (s.run w events).flights.lookup id = .none)
      (hyields : (Validation.resolve w.provider w.policy token).Yields (s.heard w id events) r)
      (hnotices : s.noticesOf w id events = Notice.asking id (s.heard w id events) ++ [.finished id r.result])
      (hwrites : s.Writes w events id → r.memo ≠ .none)
  /-- It has been given up before that. -/
  | givenUp {qs : List Q} (hmiss : (s.cache.get s.now token).1 = .none)
      (hover : (s.run w events).flights.lookup id = .none) (hgiven : GivenUp events (s.run w events) id cancelAt)
      (hnotices : s.noticesOf w id events = qs.map (.asked id) ++ [.finished id (.error .cancelled)])
      (hreads : ¬ s.Writes w events id)

section

variable {events : List (Event Answer)}

/-- What the cache has answered has that for its result, without a question. -/
theorem Standing.of_get {o : Outcome} (h : Standing w s events id token cancelAt)
    (hget : (s.cache.get s.now token).1 = .some o) :
    s.heard w id events = [] ∧ s.noticesOf w id events = [.finished id o.result] := by
  have hnot {p : Prop} (hmiss : (s.cache.get s.now token).1 = .none) : p := by
    rw [hget] at hmiss
    cases hmiss
  cases h with
  | hit hget' _ hheard hnotices =>
    obtain rfl := Option.some.inj (hget'.symm.trans hget)
    exact ⟨hheard, hnotices⟩
  | waits hmiss => exact hnot hmiss
  | resolved hmiss => exact hnot hmiss
  | givenUp hmiss => exact hnot hmiss

theorem Standing.idle (h : Standing w s events id token cancelAt) (hidle : Idle w (s.run w events) e id)
    (hkept : (s.run w events).flights.lookup id ≠ .none → e ≠ .cancel id) :
    Standing w s (events ++ [e]) id token cancelAt := by
  have hheard : s.heard w id (events ++ [e]) = s.heard w id events := by
    rw [heard_concat, hidle.deaf, Option.toList_none, List.append_nil]
  have hnotices : s.noticesOf w id (events ++ [e]) = s.noticesOf w id events := by
    rw [noticesOf_concat, hidle.silent, List.append_nil]
  have hflight : (s.run w (events ++ [e])).flights.lookup id = (s.run w events).flights.lookup id := by
    rw [run_concat, hidle.flight]
  have hwrites : s.Writes w (events ++ [e]) id ↔ s.Writes w events id := by
    rw [writes_concat, or_iff_left]
    exact fun hwrite => hwrite.2 (hidle.reads hwrite.1)
  cases h with
  | hit hget hover hh hn hr =>
    exact .hit hget (hflight ▸ hover) (hheard ▸ hh) (hnotices ▸ hn) (hwrites.not.2 hr)
  | waits hmiss hf hk hl hn hr =>
    have hnot : .cancel id ∉ events ++ [e] := by
      have hne : e ≠ .cancel id := hkept (by simp [hf])
      simpa [hk] using hne.symm
    exact .waits hmiss (hflight ▸ hf) hnot (hheard ▸ hl) (by rw [hnotices, hheard, hn]) (hwrites.not.2 hr)
  | resolved hmiss hover hy hn hr =>
    exact .resolved hmiss (hflight ▸ hover) (hheard ▸ hy) (by rw [hnotices, hheard, hn]) fun h => hr (hwrites.1 h)
  | givenUp hmiss hover hg hn hr =>
    exact .givenUp hmiss (hflight ▸ hover) hg.concat (hnotices ▸ hn) (hwrites.not.2 hr)

/-- At its turn, a validation asks the next question or comes to a resolution. -/
theorem Standing.of_turn {s' : Service Answer} {x : Exchange Answer Resolution}
    (hstep : (s.run w events).step w e = s'.proceed w id token cancelAt x)
    (hmiss : (s.cache.get s.now token).1 = .none) (hover : s'.flights.lookup id = .none)
    (hcache : Cache.ReadOnly (s.run w events).cache s'.cache) (hkept : .cancel id ∉ events ++ [e])
    (hleads : (Validation.resolve w.provider w.policy token).Leads (s.heard w id (events ++ [e])) x)
    (hnotices : s.noticesOf w id events = Notice.asking id (s.heard w id (events ++ [e])))
    (hreads : ¬ s.Writes w events id) : Standing w s (events ++ [e]) id token cancelAt := by
  cases x with
  | ask q resume =>
    refine .waits hmiss ?flight hkept hleads ?notices ?reads
    case flight =>
      simp only [run_concat, hstep, proceed, List.lookup_cons, beq_self_eq_true]
    case notices =>
      rw [noticesOf_concat, hstep, hnotices]
      simp [proceed, Notice.subject]
    case reads =>
      rw [writes_concat, hstep]
      simpa [hreads, proceed] using fun _ => hcache
  | done r =>
    refine .resolved hmiss ?landed hleads ?notices ?writes
    case landed => simpa only [run_concat, hstep, proceed, finish, memorize_flights] using hover
    case notices =>
      rw [noticesOf_concat, hstep, hnotices]
      simp [proceed, finish, Notice.subject]
    case writes =>
      -- Without a memo, the cache is the one that the turn was taken with.
      intro hwrites hmemo
      rw [writes_concat, hstep] at hwrites
      rcases hwrites with hwrites | ⟨-, hwrites⟩
      · exact hreads hwrites
      · refine hwrites ?_
        simpa only [proceed, hmemo, memorize, finish] using hcache

theorem Standing.of_givenUp {s' : Service Answer} {qs : List Q}
    (hstep : (s.run w events).step w e = s'.finish id (.error .cancelled))
    (hmiss : (s.cache.get s.now token).1 = .none) (hover : s'.flights.lookup id = .none)
    (hcache : Cache.ReadOnly (s.run w events).cache s'.cache)
    (hgiven : GivenUp (events ++ [e]) (s.run w events) id cancelAt)
    (hnotices : s.noticesOf w id events = qs.map (.asked id)) (hreads : ¬ s.Writes w events id) :
    Standing w s (events ++ [e]) id token cancelAt := by
  have hall : s.noticesOf w id (events ++ [e]) = qs.map (.asked id) ++ [.finished id (.error .cancelled)] := by
    rw [noticesOf_concat, hstep, hnotices]
    simp [finish, Notice.subject]
  refine .givenUp hmiss ?landed ?given hall ?reads
  case landed => rw [run_concat, hstep]; exact hover
  case given =>
    rw [run_concat]
    exact hgiven.imp_right fun h => isGivenUp_mono h (by rw [step_now]; exact Nat.le_add_right ..)
  case reads =>
    rw [writes_concat, hstep]
    simpa [hreads, finish] using fun _ => hcache

theorem Standing.begin (hfresh : s.flights.lookup id = .none) :
    Standing w s [.begin id token cancelAt] id token cancelAt := by
  have hcache := s.cache.readOnly_get s.now token
  rw [← List.nil_append [Event.begin id token cancelAt]]
  cases hget : (s.cache.get s.now token).1 with
  | some o =>
    have hstep : s.step w (.begin id token cancelAt) = _ := step_begin_hit hget
    refine .hit hget ?landed rfl ?notices ?reads
    case landed => rw [run_concat, run_nil, hstep]; exact hfresh
    case notices =>
      rw [noticesOf_concat, run_nil, hstep]
      simp [noticesOf, notices, finish, Notice.subject]
    case reads =>
      rw [writes_concat, run_nil, hstep]
      simpa [not_writes_nil, finish] using fun _ => hcache
  | none =>
    cases hgiven : isGivenUp cancelAt s.now with
    | true =>
      have hnone : s.noticesOf w id [] = List.map (.asked id) [] := rfl
      exact .of_givenUp (step_begin_givenUp hget hgiven) hget hfresh hcache (.inr hgiven) hnone not_writes_nil
    | false => exact .of_turn (step_begin_turn hget hgiven) hget hfresh hcache (by simp) .nil rfl not_writes_nil

/-- Whatever happens next, but that it begins again, a validation stands somewhere. -/
theorem Standing.step (h : Standing w s events id token cancelAt)
    (honce : ∀ token' cancelAt', e ≠ .begin id token' cancelAt') : Standing w s (events ++ [e]) id token cancelAt := by
  by_cases hid : e.subject? = .some id
  case neg =>
    refine h.idle (.of_ne hid) fun _ he => hid ?_
    rw [he]; rfl
  have hover (hover : (s.run w events).flights.lookup id = .none) : Standing w s (events ++ [e]) id token cancelAt :=
    h.idle (.of_step_eq (step_of_lookup_eq_none hover hid honce) (heard?_of_lookup_eq_none hover)) (absurd hover)
  cases h with
  | hit _ hover' => exact hover hover'
  | resolved _ hover' => exact hover hover'
  | givenUp _ hover' => exact hover hover'
  | @waits q resume hmiss hf hkept hleads hnotices hreads =>
    have hasked : s.noticesOf w id events = ((s.heard w id events).map Sigma.fst ++ [q]).map (.asked id) := by
      rw [hnotices]; simp [Notice.asking]
    cases e with
    | begin id' token' cancelAt' => cases hid; exact absurd rfl (honce _ _)
    | cancel id' =>
      cases hid
      exact .of_givenUp (step_cancel_of_lookup hf) hmiss lookup_land_self (.refl _) (.inl (by simp)) hasked hreads
    | answer id' q' a =>
      cases hid
      by_cases hq : q' = q
      case neg =>
        exact Standing.idle (.waits hmiss hf hkept hleads hnotices hreads)
          (.of_step_eq (step_answer_of_ne hf hq) (heard?_answer_of_ne hf hq)) (by simp)
      subst hq
      cases hgiven : isGivenUp cancelAt (s.run w events).now with
      | true =>
        exact .of_givenUp (step_answer_givenUp hf hgiven) hmiss lookup_land_self (.refl _) (.inr hgiven) hasked hreads
      | false =>
        have hheard : s.heard w id (events ++ [.answer id q' a]) = s.heard w id events ++ [⟨q', a⟩] := by
          rw [heard_concat, heard?_answer hf hgiven, Option.toList_some]
        refine .of_turn (step_answer_turn hf hgiven) hmiss lookup_land_self (.refl _) (by simpa using hkept) ?leads
          ?notices hreads
        case leads => rw [hheard]; exact hleads.snoc a
        case notices => rw [hheard, hnotices]; simp [Notice.asking]
    | _ => cases hid

/-- **A validation stands somewhere.** At every time after it has begun, a validation has been answered by the cache,
waits, has come to a resolution or has been given up. -/
theorem standing_of_begin (hfresh : s.flights.lookup id = .none) {rest : List (Event Answer)}
    (honce : ∀ token' cancelAt', .begin id token' cancelAt' ∉ rest) :
    Standing w s (.begin id token cancelAt :: rest) id token cancelAt := by
  induction rest using List.reverseRecOn with
  | nil => exact .begin hfresh
  | append_singleton rest e ih =>
    have hstanding := ih fun token' cancelAt' hm => honce token' cancelAt' (List.mem_append_left _ hm)
    refine hstanding.step ?_
    rintro token' cancelAt' rfl
    exact honce token' cancelAt' (by simp)

/-- The next event of a course is the beginning of the validation, or it comes after that. -/
theorem standing_of_isPrefix (hfresh : s.flights.lookup id = .none) {rest : List (Event Answer)}
    (honce : ∀ token' cancelAt', .begin id token' cancelAt' ∉ rest)
    (hpast : events ++ [e] <+: .begin id token cancelAt :: rest) :
    events = [] ∧ e = .begin id token cancelAt ∨
      events ≠ [] ∧ Standing w s events id token cancelAt ∧ ∀ token' cancelAt', e ≠ .begin id token' cancelAt' := by
  cases events with
  | nil =>
    rw [List.nil_append, List.cons_prefix_cons] at hpast
    exact .inl ⟨rfl, hpast.1⟩
  | cons first events =>
    rw [List.cons_append, List.cons_prefix_cons] at hpast
    obtain ⟨rfl, hpast⟩ := hpast
    refine .inr ⟨List.cons_ne_nil _ _, standing_of_begin hfresh fun token' cancelAt' hm => ?_, ?_⟩
    · exact honce token' cancelAt' (hpast.subset (List.mem_append_left _ hm))
    · rintro token' cancelAt' rfl
      exact honce token' cancelAt' (hpast.subset (by simp))

end

end Service

end TokenGate
