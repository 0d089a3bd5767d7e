/-
The accounts of the service.

`Booked` lists what a step can be to the counters: it asks one question, or it finishes one validation, or it does
neither, and the cache is read, written or thinned at the same time (`CacheStep`). So with each event every counter is
raised by what there is to count, and the entries of the cache stay in balance. What holds of each step holds of every
run (`accounts_balance`).
-/
import TokenGate.Launch
import TokenGate.Proofs.Cache.Balance
import TokenGate.Proofs.Service.Capacity
import Mathlib.Data.List.Induction

namespace TokenGate

variable {Q : Type} {Answer : Q → Type}

namespace Cache

/-- A read is a hit or a miss. -/
theorem get_counts (c : Cache) (now : Nat) (token : String) :
    let d := (c.get now token).2
    d.hits + d.misses = c.hits + c.misses + 1 ∧ c.hits ≤ d.hits ∧ c.misses ≤ d.misses := by
  unfold get lookup
  repeat' split
  all_goals simp only; omega

theorem set_counts (c : Cache) (now : Nat) (token : String) (o : Outcome) :
    (c.set now token o).hits = c.hits ∧ (c.set now token o).misses = c.misses ∧
      c.evictions ≤ (c.set now token o).evictions := by
  rw [set_eq]
  split
  next =>
    have hevictions := c.evictions_put (Fingerprint.ofToken token) o (now + c.ttl)
    obtain ⟨_, hput⟩ := c.put_eq (Fingerprint.ofToken token) o (now + c.ttl)
    rw [hput] at hevictions ⊢
    exact ⟨rfl, rfl, by omega⟩
  next => exact ⟨rfl, rfl, Nat.le_refl _⟩

theorem Ordered.size_add_evictions_set {c : Cache} {t : Nat} (h : Ordered c t) (now : Nat) (token : String)
    (o : Outcome) :
    (c.set now token o).size + (c.set now token o).evictions =
      c.size + c.evictions + c.gained (c.set now token o) := by
  rw [set_eq]
  split
  next => exact h.size_add_evictions_put _ _ _
  next => rw [gained_eq_zero (List.Subset.refl _), Nat.add_zero]

end Cache

namespace Service

/-! ## The cache in a step -/

/-- The cache after the token of the event, if it has one to look up, has been looked up. -/
inductive LookedUp (s : Service Answer) (e : Event Answer) : Cache → Prop where
  | read {token : String} : e.isLookUp = true → LookedUp s e (s.cache.get s.now token).2
  | unread : e.isLookUp = false → LookedUp s e s.cache

/-- What becomes of the cache in a step. -/
inductive CacheStep (s : Service Answer) (e : Event Answer) : Cache → Prop where
  | kept {c : Cache} : LookedUp s e c → CacheStep s e c
  | written {c : Cache} {token : String} {o : Outcome} : LookedUp s e c → e.mayWrite = true →
      CacheStep s e (c.set s.now token o)
  | thinned {d : Cache} {p : Fingerprint × Entry → Bool} : (e.isDelete = true ∨ e.maySweep = true) →
      d.entries = s.cache.entries.filter p → d.hits = s.cache.hits → d.misses = s.cache.misses →
      d.evictions = s.cache.evictions → CacheStep s e d
  | stopped : e = .stop → CacheStep s e s.cache.stop

section

variable {s : Service Answer} {e : Event Answer} {c d : Cache}

theorem cacheStep_of_tended (he : e.maySweep = true) (h : Cache.Tended s.cache d) : CacheStep s e d := by
  obtain ⟨p, hentries⟩ := h.exists_filter
  cases h with
  | idle => exact .thinned (.inr he) hentries rfl rfl rfl
  | swept => exact .thinned (.inr he) hentries rfl rfl rfl

theorem LookedUp.counts (h : LookedUp s e c) :
    c.hits + c.misses = s.cache.hits + s.cache.misses + (if e.isLookUp then 1 else 0) ∧
      s.cache.hits ≤ c.hits ∧ s.cache.misses ≤ c.misses := by
  cases h with
  | read he => simpa [he] using s.cache.get_counts s.now _
  | unread he => simp [he]

theorem LookedUp.readOnly (h : LookedUp s e c) :
    ∃ hits misses, c = { s.cache with hits := hits, misses := misses } := by
  cases h with
  | read => exact s.cache.get_eq s.now _
  | unread => exact ⟨_, _, rfl⟩

theorem isLookUp_of_thins (h : e.isDelete = true ∨ e.maySweep = true) : e.isLookUp = false := by
  cases e <;> simp [Event.isDelete, Event.maySweep, Event.isLookUp] at h ⊢

theorem CacheStep.lookUps (h : CacheStep s e d) :
    d.hits + d.misses = s.cache.hits + s.cache.misses + if e.isLookUp then 1 else 0 := by
  cases h with
  | kept hc => exact hc.counts.1
  | @written c token o hc =>
    obtain ⟨hhits, hmisses, -⟩ := c.set_counts s.now token o
    rw [hhits, hmisses]
    exact hc.counts.1
  | thinned he _ hhits hmisses => simp [isLookUp_of_thins he, hhits, hmisses]
  | stopped he => simp [he, Event.isLookUp, Cache.stop]

theorem CacheStep.counts_le (h : CacheStep s e d) :
    s.cache.hits ≤ d.hits ∧ s.cache.misses ≤ d.misses ∧ s.cache.evictions ≤ d.evictions := by
  cases h with
  | kept hc =>
    obtain ⟨_, _, rfl⟩ := hc.readOnly
    exact ⟨hc.counts.2.1, hc.counts.2.2, Nat.le_refl _⟩
  | @written c token o hc =>
    obtain ⟨hhits, hmisses, hevictions⟩ := c.set_counts s.now token o
    obtain ⟨_, _, rfl⟩ := hc.readOnly
    rw [hhits, hmisses]
    exact ⟨hc.counts.2.1, hc.counts.2.2, hevictions⟩
  | thinned _ _ hhits hmisses hevictions => rw [hhits, hmisses, hevictions]; simp
  | stopped => exact ⟨Nat.le_refl _, Nat.le_refl _, Nat.le_refl _⟩

/-- Entries that are added are there afterwards or have been evicted, and those that are there no longer have been
deleted or swept. -/
theorem CacheStep.balance (h : CacheStep s e d) (ho : Cache.Ordered s.cache s.now) :
    d.size + d.evictions + e.deleted s.cache d + e.swept s.cache d =
      s.cache.size + s.cache.evictions + e.added s.cache d := by
  have hsame (hd : d.entries = s.cache.entries) (hevictions : d.evictions = s.cache.evictions) :
      d.size + d.evictions + e.deleted s.cache d + e.swept s.cache d =
        s.cache.size + s.cache.evictions + e.added s.cache d := by
    have hgained : s.cache.gained d = 0 := Cache.gained_eq_zero (by rw [hd]; exact List.Subset.refl _)
    have hlost : d.gained s.cache = 0 := Cache.gained_eq_zero (by rw [hd]; exact List.Subset.refl _)
    simp only [Event.deleted, Event.swept, Event.added, hgained, hlost, ite_self, Nat.add_zero, Cache.size, hd,
      hevictions]
  cases h with
  | kept hc =>
    obtain ⟨_, _, rfl⟩ := hc.readOnly
    exact hsame rfl rfl
  | stopped => exact hsame rfl rfl
  | @written c token o hc hwrites =>
    have hnot : e.isDelete = false ∧ e.maySweep = false := by
      cases e <;> simp [Event.mayWrite, Event.isDelete, Event.maySweep] at hwrites ⊢
    obtain ⟨hits, misses, rfl⟩ := hc.readOnly
    have hordered : Cache.Ordered { s.cache with hits := hits, misses := misses } s.now :=
      ho.of_sublist (.refl _) rfl rfl rfl
    have hbalance := hordered.size_add_evictions_set s.now token o
    simp only [Event.deleted, Event.swept, Event.added, hnot, hwrites, if_true, Bool.false_eq_true, if_false,
      Nat.add_zero]
    exact hbalance
  | thinned hthins hd _ _ hevictions =>
    have hbalance := Cache.gained_add_size_of_filter ho.keys hd
    rcases hthins with hdelete | hsweep
    · have hnot : e.maySweep = false ∧ e.mayWrite = false := by
        cases e <;> simp [Event.isDelete, Event.maySweep, Event.mayWrite] at hdelete ⊢
      simp only [Event.deleted, Event.swept, Event.added, hdelete, hnot, if_true, hevictions]
      simp
      omega
    · have hnot : e.isDelete = false ∧ e.mayWrite = false := by
        cases e <;> simp [Event.isDelete, Event.maySweep, Event.mayWrite] at hsweep ⊢
      simp only [Event.deleted, Event.swept, Event.added, hsweep, hnot, if_true, hevictions]
      simp
      omega

end

/-! ## The counters in a step -/

section

variable {w : Wiring Answer} {s : Service Answer} {e : Event Answer}

theorem count_countQuestion (p : Provider Answer) (s : Service Answer) (q : Q) (endpoint : Endpoint) :
    (countQuestion p s q).calls.count endpoint =
      s.calls.count endpoint + if p.counted q = .some endpoint then 1 else 0 := by
  unfold countQuestion
  split
  next e hq => simp only [hq, Tally.count_bump, Option.some.injEq, eq_comm]
  next hq => simp [hq]

/-- What a step can be to the counters. -/
inductive Booked (w : Wiring Answer) (s : Service Answer) (e : Event Answer) :
    Service Answer × List (Notice Q) → Prop where
  | asks {s' : Service Answer} {id : Nat} {q : Q} : s'.validations = s.validations →
      s'.calls = (s.countQuestion w.provider q).calls → CacheStep s e s'.cache → Booked w s e (s', [.asked id q])
  | finishes {s' : Service Answer} {id : Nat} {result : Except ValidationError Identity} :
      s'.validations = s.validations.bump (.ofResult result) → s'.calls = s.calls → CacheStep s e s'.cache →
      Booked w s e (s', [.finished id result])
  | quiet {s' : Service Answer} : s'.validations = s.validations → s'.calls = s.calls → CacheStep s e s'.cache →
      Booked w s e (s', [])

/-- A turn that is taken with the counters as they were. -/
theorem booked_proceed {s' : Service Answer} (hnow : s'.now = s.now) (hvalidations : s'.validations = s.validations)
    (hcalls : s'.calls = s.calls) (hcache : LookedUp s e s'.cache) (hwrites : e.mayWrite = true) (id : Nat)
    (token : String) (cancelAt : Option Nat) (x : Exchange Answer Resolution) :
    Booked w s e (s'.proceed w id token cancelAt x) := by
  cases x with
  | ask q resume =>
    refine .asks ?_ ?_ ?_
    · unfold countQuestion; split <;> exact hvalidations
    · unfold countQuestion; split <;> simp only [hcalls]
    · rw [countQuestion_cache]
      exact .kept hcache
  | done r =>
    cases hmemo : r.memo with
    | some o =>
      simp only [proceed, finish, hmemo, memorize, hvalidations, hnow]
      exact .finishes rfl hcalls (.written hcache hwrites)
    | none =>
      simp only [proceed, finish, hmemo, memorize, hvalidations]
      exact .finishes rfl hcalls (.kept hcache)

/-- Every result is of one class. -/
theorem countP_verdicts (notices : List (Notice Q)) :
    let count (v : Verdict) := notices.countP fun n => n.verdict? == .some v
    count .success + count .unauthorized + count .forbidden + count .rateLimited + count .cancelled + count .error =
      notices.countP fun n => n.verdict?.isSome := by
  induction notices with
  | nil => rfl
  | cons n notices ih =>
    simp only [List.countP_cons] at ih ⊢
    cases hv : n.verdict? with
    | none => simpa using ih
    | some v =>
      rw [← ih]
      cases v <;> simp <;> omega

variable [DecidableEq Q]

theorem booked_step (w : Wiring Answer) (s : Service Answer) (e : Event Answer) : Booked w s e (s.step w e) := by
  cases e with
  | begin id token cancelAt =>
    have hget : LookedUp s (.begin id token cancelAt) (s.cache.get s.now token).2 := .read rfl
    simp only [step, begin]
    split
    next o cache heq =>
      rw [heq] at hget
      exact .finishes rfl rfl (.kept hget)
    next cache heq =>
      rw [heq] at hget
      split
      next => exact .finishes rfl rfl (.kept hget)
      next =>
        refine booked_proceed ?_ ?_ ?_ ?cache ?_ id token cancelAt _
        case cache => exact hget
        all_goals rfl
  | answer id q a =>
    simp only [step, answer]
    split
    next f hf =>
      split
      next hq =>
        split
        next => exact .finishes rfl rfl (.kept (.unread rfl))
        next =>
          refine booked_proceed ?_ ?_ ?_ ?cache ?_ id f.token f.cancelAt _
          case cache => exact .unread rfl
          all_goals rfl
      next => exact .quiet rfl rfl (.kept (.unread rfl))
    next => exact .quiet rfl rfl (.kept (.unread rfl))
  | cancel id =>
    simp only [step, cancel]
    split
    next => exact .finishes rfl rfl (.kept (.unread rfl))
    next => exact .quiet rfl rfl (.kept (.unread rfl))
  | pass d => exact .quiet rfl rfl (cacheStep_of_tended rfl (Cache.tended_await ..))
  | settle => exact .quiet rfl rfl (cacheStep_of_tended rfl (Cache.tended_flow ..))
  | jump d => exact .quiet rfl rfl (cacheStep_of_tended rfl (Cache.tended_jump ..))
  | tick => exact .quiet rfl rfl (cacheStep_of_tended rfl (Cache.tended_tick ..))
  | stall d => exact .quiet rfl rfl (.kept (.unread rfl))
  | lookUp token => exact .quiet rfl rfl (.kept (.read rfl))
  | remember token o => exact .quiet rfl rfl (.written (.unread rfl) rfl)
  | forget token => exact .quiet rfl rfl (.thinned (.inl rfl) rfl rfl rfl rfl)
  | report hs => exact .quiet rfl rfl (.kept (.unread rfl))
  | stop => exact .quiet rfl rfl (.stopped rfl)

/-- Each validation that is finished is counted once, under the class of its result. -/
theorem count_validations_step (v : Verdict) :
    (s.step w e).1.validations.count v =
      s.validations.count v + (s.step w e).2.countP fun n => n.verdict? == .some v := by
  have hbooked := booked_step w s e
  generalize s.step w e = p at hbooked ⊢
  cases hbooked with
  | asks hvalidations => simp [hvalidations, Notice.verdict?]
  | finishes hvalidations => simp [hvalidations, Tally.count_bump, Notice.verdict?, List.countP_cons, @eq_comm _ v]
  | quiet hvalidations => simp [hvalidations]

/-- Each question is counted once, under the endpoint that the provider says. -/
theorem count_calls_step (endpoint : Endpoint) :
    (s.step w e).1.calls.count endpoint =
      s.calls.count endpoint +
        (s.step w e).2.countP fun n => n.question?.bind w.provider.counted == .some endpoint := by
  have hbooked := booked_step w s e
  generalize s.step w e = p at hbooked ⊢
  cases hbooked with
  | asks _ hcalls => simp [hcalls, count_countQuestion, Notice.question?, List.countP_cons]
  | finishes _ hcalls => simp [hcalls, Notice.question?]
  | quiet _ hcalls => simp [hcalls]

theorem cacheStep_step (w : Wiring Answer) (s : Service Answer) (e : Event Answer) :
    CacheStep s e (s.step w e).1.cache := by
  have hbooked := booked_step w s e
  generalize s.step w e = p at hbooked ⊢
  cases hbooked with
  | asks _ _ hcache => exact hcache
  | finishes _ _ hcache => exact hcache
  | quiet _ _ hcache => exact hcache

/-! ## The counters in a run -/

/-- No counter of `s` is above that of `s'`. -/
structure CountedLe (s s' : Service Answer) : Prop where
  hits : s.cache.hits ≤ s'.cache.hits
  misses : s.cache.misses ≤ s'.cache.misses
  evictions : s.cache.evictions ≤ s'.cache.evictions
  validations : ∀ v, s.validations.count v ≤ s'.validations.count v
  calls : ∀ endpoint, s.calls.count endpoint ≤ s'.calls.count endpoint

omit [DecidableEq Q] in
theorem CountedLe.trans {s₁ s₂ s₃ : Service Answer} (h : CountedLe s₁ s₂) (h' : CountedLe s₂ s₃) :
    CountedLe s₁ s₃ where
  hits := Nat.le_trans h.hits h'.hits
  misses := Nat.le_trans h.misses h'.misses
  evictions := Nat.le_trans h.evictions h'.evictions
  validations v := Nat.le_trans (h.validations v) (h'.validations v)
  calls endpoint := Nat.le_trans (h.calls endpoint) (h'.calls endpoint)

theorem countedLe_step : CountedLe s (s.step w e).1 := by
  obtain ⟨hhits, hmisses, hevictions⟩ := (cacheStep_step w s e).counts_le
  refine ⟨hhits, hmisses, hevictions, fun v => ?_, fun endpoint => ?_⟩
  · rw [count_validations_step]
    exact Nat.le_add_right ..
  · rw [count_calls_step]
    exact Nat.le_add_right ..

theorem countedLe_run (events : List (Event Answer)) : CountedLe s (s.run w events) := by
  induction events using List.reverseRecOn with
  | nil => exact ⟨Nat.le_refl _, Nat.le_refl _, Nat.le_refl _, fun _ => Nat.le_refl _, fun _ => Nat.le_refl _⟩
  | append_singleton past e ih =>
    rw [run_concat]
    exact ih.trans countedLe_step

section

variable {ttl maxSize : Nat} {events : List (Event Answer)}

theorem hits_add_misses_run :
    ((start ttl maxSize).run w events).cache.hits + ((start ttl maxSize).run w events).cache.misses =
      events.countP Event.isLookUp := by
  induction events using List.reverseRecOn with
  | nil => rfl
  | append_singleton past e ih =>
    rw [run_concat, (cacheStep_step w _ e).lookUps, ih]
    simp [List.countP_append, List.countP_cons]

theorem count_validations_run (v : Verdict) :
    ((start ttl maxSize).run w events).validations.count v =
      ((start ttl maxSize).notices w events).countP fun n => n.verdict? == .some v := by
  induction events using List.reverseRecOn with
  | nil => rfl
  | append_singleton past e ih => rw [run_concat, count_validations_step, ih, notices_concat, List.countP_append]

theorem count_calls_run (endpoint : Endpoint) :
    ((start ttl maxSize).run w events).calls.count endpoint =
      ((start ttl maxSize).notices w events).countP fun n =>
        n.question?.bind w.provider.counted == .some endpoint := by
  induction events using List.reverseRecOn with
  | nil => rfl
  | append_singleton past e ih => rw [run_concat, count_calls_step, ih, notices_concat, List.countP_append]

/-- The entries that have been added are those that are there, and those that have been evicted, deleted or swept. -/
theorem balance_run :
    ((start ttl maxSize).run w events).cache.size + ((start ttl maxSize).run w events).cache.evictions +
        (start ttl maxSize).total w Event.deleted events + (start ttl maxSize).total w Event.swept events =
      (start ttl maxSize).total w Event.added events := by
  induction events using List.reverseRecOn with
  | nil => rfl
  | append_singleton past e ih =>
    have hreach : Cache.Reachable ttl maxSize _ _ := reachable_start w past
    have hstep := (cacheStep_step w _ e).balance (Cache.kept_of_reachable hreach).toOrdered
    rw [run_concat, total_concat, total_concat, total_concat]
    omega

end

end

/-- **The accounts balance.** Whatever happens to a service that asks a forge, in whatever order: every look-up in the
cache, by a validation that begins or directly, is counted as a hit or a miss; every validation that is finished is
counted under the class of its result, however it has come to it, and so the classes add up; every request is counted
under its endpoint when it is made, whatever comes of it; and the entries that writes have added to the cache are those
that are in it and those that have been evicted, deleted or swept. No counter ever decreases. -/
theorem accounts_balance (l : Launch) (events : List (Event Forge.Answer)) :
    let s := l.service.run l.wiring events
    let notices := l.service.notices l.wiring events
    s.cache.hits + s.cache.misses = events.countP Event.isLookUp ∧
    (∀ v, s.validations.count v = notices.countP fun n => n.verdict? == .some v) ∧
    s.validations.count .success + s.validations.count .unauthorized + s.validations.count .forbidden +
        s.validations.count .rateLimited + s.validations.count .cancelled + s.validations.count .error =
      (notices.countP fun n => n.verdict?.isSome) ∧
    (∀ endpoint, s.calls.count endpoint =
      notices.countP fun n => n.question?.map Forge.Request.endpoint == .some endpoint) ∧
    l.service.total l.wiring Event.added events =
      s.cache.size + s.cache.evictions + l.service.total l.wiring Event.deleted events +
        l.service.total l.wiring Event.swept events ∧
    ∀ n, CountedLe (l.service.run l.wiring (events.take n)) s := by
  intro s notices
  refine ⟨hits_add_misses_run, count_validations_run, ?_, fun endpoint => ?_, balance_run.symm, fun n => ?_⟩
  · have hcount (v : Verdict) : s.validations.count v = notices.countP fun n => n.verdict? == .some v :=
      count_validations_run v
    simp only [hcount]
    exact countP_verdicts notices
  · rw [show s.calls.count endpoint = _ from count_calls_run endpoint]
    refine List.countP_congr fun n _ => ?_
    cases n <;> rfl
  · have hrun : s = (l.service.run l.wiring (events.take n)).run l.wiring (events.drop n) := by
      rw [run, run, ← List.foldl_append, List.take_append_drop]
      rfl
    rw [hrun]
    exact countedLe_run _

end Service

end TokenGate
