/-
What becomes of a validation whose caller gives it up.

What the cache knows is told even to such a caller. Otherwise a validation that has been given up does nothing more but
be finished as cancelled (`Standing.idle_or_cancelled`), so it asks nothing and leaves nothing in the cache. No
resolution is a cancellation (`Resolved.result_ne_cancelled`), and where only validations write, no entry is one either
(`decisive_of_mem_entries`): who is told that a validation was cancelled has cancelled it.
-/
import TokenGate.Proofs.Service.Standing

namespace TokenGate

variable {Q : Type} {Answer : Q → Type}

namespace Validation

variable {p : Provider Answer} {policy : Policy} {token : String} {log : List (Answered Answer)} {r : Resolution}

theorem Resolved.decisive {o : Outcome} (h : Resolved p policy token log r) (hmemo : r.memo = .some o) :
    o.Decisive := by
  cases h.backs hmemo with
  | authorized => exact .authorized _
  | rejected => exact .unauthorized

theorem Resolved.result_ne_cancelled (h : Resolved p policy token log r) : r.result ≠ .error .cancelled := by
  intro hresult
  cases h with
  | @owner _ reply _ _ howner =>
    cases reply with
    | ok owner =>
      simp only [acceptOwner] at howner
      split at howner
      next => cases howner; cases hresult
      next => cases howner
    | error e => cases e <;> cases howner <;> cases hresult
  | @membership _ _ _ _ reply _ _ _ _ hmember =>
    cases reply with
    | ok => cases hmember
    | error e => cases e <;> cases hmember <;> cases hresult
  | @roster _ _ _ _ _ _ reply =>
    cases reply with
    | ok teams => cases hresult
    | error e => cases e <;> cases hresult

end Validation

theorem Outcome.Decisive.result_ne_cancelled {o : Outcome} (h : o.Decisive) : o.result ≠ .error .cancelled := by
  cases h <;> simp [Outcome.result, ValidationError.ofDenial]

namespace Service

variable [DecidableEq Q] {w : Wiring Answer}

/-! ## What the cache knows -/

section

variable {ttl maxSize id : Nat} {events : List (Event Answer)}

omit [DecidableEq Q] in
theorem Turn.exists_leads {s : Service Answer} {e : Event Answer} {token : String} {cancelAt : Option Nat}
    {x : Exchange Answer Resolution} (h : Turn w s e id token cancelAt x)
    (hflights : ∀ id f, (id, f) ∈ s.flights →
      ∃ log, (Validation.resolve w.provider w.policy f.token).Leads log (.ask f.question f.resume)) :
    ∃ log, (Validation.resolve w.provider w.policy token).Leads log x := by
  cases h with
  | begin => exact ⟨[], .nil⟩
  | @answer _ f q a hq hf =>
    obtain ⟨log, hleads⟩ := hflights id f (mem_of_lookup_flights hf)
    subst hq
    exact ⟨_, hleads.snoc a⟩

/-- Whatever happens, each validation under way is one of its own token. -/
theorem exists_leads_of_mem_flights (id : Nat) (f : Flight Answer)
    (h : (id, f) ∈ ((start ttl maxSize).run w events).flights) :
    ∃ log, (Validation.resolve w.provider w.policy f.token).Leads log (.ask f.question f.resume) := by
  induction events using List.reverseRecOn generalizing id f with
  | nil => cases h
  | append_singleton past e ih =>
    rw [run_concat] at h
    rcases mem_flights_step h with ⟨hold, -⟩ | hturn
    · exact ih id f hold
    · exact hturn.exists_leads ih

/-- Where only validations write, the cache holds decisions alone. -/
theorem decisive_of_mem_entries (hwrites : ∀ token o, .remember token o ∉ events) {y : Fingerprint × Entry}
    (hy : y ∈ ((start ttl maxSize).run w events).cache.entries) : y.2.outcome.Decisive := by
  induction events using List.reverseRecOn with
  | nil => cases hy
  | append_singleton past e ih =>
    rw [run_concat] at hy
    rcases mem_entries_step hy with hold | ⟨id, token, cancelAt, r, hturn, hmemo, -⟩ | ⟨token, o, rfl⟩
    · exact ih (fun token o hm => hwrites token o (List.mem_append_left _ hm)) hold
    · obtain ⟨log, hleads⟩ := hturn.exists_leads exists_leads_of_mem_flights
      exact (Validation.resolved_of_yields hleads).decisive hmemo
    · exact absurd (List.mem_append_right past (List.mem_singleton_self _)) (hwrites token o)

end

/-! ## Validations that have been given up -/

section

variable {s : Service Answer} {events : List (Event Answer)} {e : Event Answer} {id : Nat} {token : String}
  {cancelAt : Option Nat}

theorem mem_noticesOf {n : Notice Q} : n ∈ s.noticesOf w id events ↔ n ∈ s.notices w events ∧ n.subject = id := by
  simp [noticesOf]

/-- Where the last that is known of a validation is a question, it waits for the answer. -/
theorem Standing.lookup_of_asked (h : Standing w s events id token cancelAt) {q : Q}
    (hlast : (s.noticesOf w id events).getLast? = .some (.asked id q)) :
    .cancel id ∉ events ∧
      ∃ resume, (s.run w events).flights.lookup id = .some ⟨token, q, resume, cancelAt⟩ := by
  cases h with
  | hit _ _ _ hnotices => simp [hnotices] at hlast
  | waits _ hf hkept _ hnotices =>
    obtain rfl : _ = q := by simpa [hnotices] using hlast
    exact ⟨hkept, _, hf⟩
  | resolved _ _ _ hnotices => simp [hnotices] at hlast
  | givenUp _ _ _ hnotices => simp [hnotices] at hlast

/-- With an event at which a validation has been given up, nothing comes about for it, or it is finished as
cancelled. -/
theorem Standing.idle_or_cancelled (h : Standing w s events id token cancelAt)
    (honce : ∀ token' cancelAt', e ≠ .begin id token' cancelAt')
    (hgiven : GivenUp (events ++ [e]) (s.run w events) id cancelAt) :
    Idle w (s.run w events) e id ∨
      ∃ s' : Service Answer, (s.run w events).step w e = s'.finish id (.error .cancelled) ∧
        s'.cache = (s.run w events).cache := by
  by_cases hid : e.subject? = .some id
  case neg => exact .inl (.of_ne hid)
  have hover (hover : (s.run w events).flights.lookup id = .none) : Idle w (s.run w events) e id :=
    .of_step_eq (step_of_lookup_eq_none hover hid honce) (heard?_of_lookup_eq_none hover)
  cases h with
  | hit _ hover' => exact .inl (hover hover')
  | resolved _ hover' => exact .inl (hover hover')
  | givenUp _ hover' => exact .inl (hover hover')
  | @waits q resume _ hf hkept =>
    cases e with
    | begin id' token' cancelAt' => cases hid; exact absurd rfl (honce _ _)
    | cancel id' => cases hid; exact .inr ⟨_, step_cancel_of_lookup hf, rfl⟩
    | answer id' q' a =>
      cases hid
      by_cases hq : q' = q
      case neg => exact .inl (.of_step_eq (step_answer_of_ne hf hq) (heard?_answer_of_ne hf hq))
      subst hq
      -- An answer does not give up a validation, so it is the time that has.
      have htime : isGivenUp cancelAt (s.run w events).now = true := hgiven.resolve_left (by simpa using hkept)
      exact .inr ⟨_, step_answer_givenUp hf htime, rfl⟩
    | _ => cases hid

theorem Standing.not_writes_of_cancelled (h : Standing w s events id token cancelAt)
    (hcancelled : .finished id (.error .cancelled) ∈ s.notices w events) : ¬ s.Writes w events id := by
  have hmem : .finished id (.error .cancelled) ∈ s.noticesOf w id events := mem_noticesOf.2 ⟨hcancelled, rfl⟩
  cases h with
  | hit _ _ _ _ hreads => exact hreads
  | waits _ _ _ _ _ hreads => exact hreads
  | @resolved r _ _ hyields hnotices =>
    have hresult : .error .cancelled = r.result := by simpa [hnotices, Notice.asking] using hmem
    exact absurd hresult.symm (Validation.resolved_of_yields hyields).result_ne_cancelled
  | givenUp _ _ _ _ hreads => exact hreads

theorem Standing.givenUp_of_cancelled (h : Standing w s events id token cancelAt)
    (hdecisive : ∀ o, (s.cache.get s.now token).1 = .some o → o.Decisive)
    (hcancelled : .finished id (.error .cancelled) ∈ s.notices w events) :
    GivenUp events (s.run w events) id cancelAt := by
  have hmem : .finished id (.error .cancelled) ∈ s.noticesOf w id events := mem_noticesOf.2 ⟨hcancelled, rfl⟩
  cases h with
  | @hit o hget _ _ hnotices =>
    have hresult : .error .cancelled = o.result := by simpa [hnotices] using hmem
    exact absurd hresult.symm (hdecisive _ hget).result_ne_cancelled
  | waits _ _ _ _ hnotices => simp [hnotices, Notice.asking] at hmem
  | @resolved r _ _ hyields hnotices =>
    have hresult : .error .cancelled = r.result := by simpa [hnotices, Notice.asking] using hmem
    exact absurd hresult.symm (Validation.resolved_of_yields hyields).result_ne_cancelled
  | givenUp _ _ hgiven => exact hgiven

/-- A validation that waits when it has been given up is finished as cancelled, whether it is told so or the answer
comes. -/
theorem Standing.cancelled_of_asked (h : Standing w s events id token cancelAt) {q : Q}
    (hlast : (s.noticesOf w id events).getLast? = .some (.asked id q))
    (he : e = .cancel id ∨ ∃ a, e = .answer id q a)
    (hgiven : GivenUp (events ++ [e]) (s.run w events) id cancelAt) :
    .finished id (.error .cancelled) ∈ ((s.run w events).step w e).2 := by
  obtain ⟨hkept, resume, hf⟩ := h.lookup_of_asked hlast
  rcases he with rfl | ⟨a, rfl⟩
  · rw [step_cancel_of_lookup hf]
    exact List.mem_singleton_self _
  · have htime : isGivenUp cancelAt (s.run w events).now = true := hgiven.resolve_left (by simpa using hkept)
    rw [step_answer_givenUp hf htime]
    exact List.mem_singleton_self _

/-- **A validation is given up safely.** Let a validation begin at any state of the cache and of the others under way,
and let anything happen after that. What the cache knows of its token is its result, without a question, even if its
caller has given it up. Otherwise, with each event from the one on by which it has been given up, be this before it
begins, while it waits or at the very instant of an answer, it asks nothing and writes nothing, and if it is not
finished by then, it is finished as cancelled and as nothing else. One that is finished as cancelled has written nothing
at all, and where only validations have written into the cache, it has been given up. -/
theorem cancellation_safe {rest : List (Event Answer)} (hfresh : s.flights.lookup id = .none)
    (honce : ∀ token' cancelAt', .begin id token' cancelAt' ∉ rest) :
    let events := .begin id token cancelAt :: rest
    (∀ o, (s.cache.get s.now token).1 = .some o → s.noticesOf w id events = [.finished id o.result]) ∧
    ((s.cache.get s.now token).1 = .none → ∀ past e, past ++ [e] <+: events →
      GivenUp (past ++ [e]) (s.run w past) id cancelAt →
        (∀ n ∈ ((s.run w past).step w e).2, n.subject = id → n = .finished id (.error .cancelled)) ∧
        (e.subject? = .some id → Cache.ReadOnly (s.run w past).cache ((s.run w past).step w e).1.cache) ∧
        (past = [] → .finished id (.error .cancelled) ∈ ((s.run w past).step w e).2) ∧
        ∀ q, (s.noticesOf w id past).getLast? = .some (.asked id q) → (e = .cancel id ∨ ∃ a, e = .answer id q a) →
          .finished id (.error .cancelled) ∈ ((s.run w past).step w e).2) ∧
    (.finished id (.error .cancelled) ∈ s.notices w events → ¬ s.Writes w events id) ∧
    ∀ ttl maxSize before, s = (start ttl maxSize).run w before → (∀ token' o, .remember token' o ∉ before) →
      .finished id (.error .cancelled) ∈ s.notices w events → GivenUp events (s.run w events) id cancelAt := by
  intro events
  have hstanding : Standing w s events id token cancelAt := standing_of_begin hfresh honce
  refine ⟨fun o hget => (hstanding.of_get hget).2, fun hmiss past e hpast hgiven => ?_,
    hstanding.not_writes_of_cancelled, ?_⟩
  · rcases standing_of_isPrefix hfresh honce hpast with ⟨rfl, rfl⟩ | ⟨hbegun, hpast, hother⟩
    · have htime : isGivenUp cancelAt s.now = true := hgiven.resolve_left (by simp)
      rw [run_nil, step_begin_givenUp hmiss htime]
      refine ⟨?_, fun _ => s.cache.readOnly_get s.now token, ?_, by simp [noticesOf, notices]⟩
      · simp [finish]
      · simp [finish]
    · refine ⟨fun n hn hsubject => ?_, fun hid => ?_, fun hnil => absurd hnil hbegun, fun q hlast he => ?_⟩
      · rcases hpast.idle_or_cancelled hother hgiven with hidle | ⟨s', hstep, -⟩
        · have hnone := List.filter_eq_nil_iff.1 hidle.silent n hn
          simp [hsubject] at hnone
        · simpa [hstep, finish] using hn
      · rcases hpast.idle_or_cancelled hother hgiven with hidle | ⟨s', hstep, hcache⟩
        · exact hidle.reads hid
        · rw [hstep, ← hcache]
          exact .refl _
      · exact hpast.cancelled_of_asked hlast he hgiven
  · rintro ttl maxSize before rfl hwrites
    refine hstanding.givenUp_of_cancelled fun o hget => ?_
    obtain ⟨e, he, rfl, -⟩ := Cache.exists_mem_of_get_eq_some hget
    exact decisive_of_mem_entries hwrites he

/-- A validation whose caller gives it up at an instant, and which is answered at that very instant, is cancelled, while
another of the same token goes on and leaves an entry. -/
theorem cancellation_safe_tied :
    let w : Wiring Call.Reply := ⟨.direct, ⟨"acme", true⟩⟩
    let alice : Owner := ⟨⟨"alice", 42, .none⟩, false⟩
    let s : Service Call.Reply := (start 10 2).run w [.begin 2 "t" .none, .answer 2 (.whoAmI "t") (.ok alice)]
    let rest : List (Event Call.Reply) :=
      [.answer 1 (.whoAmI "t") (.ok alice), .pass 5, .answer 2 (.checkMembership "t" "acme" "alice") (.ok ()),
       .answer 2 (.listGroups "t" "acme") (.ok []), .answer 1 (.checkMembership "t" "acme" "alice") (.ok ())]
    let events := .begin 1 "t" (.some 5) :: rest
    s.flights.lookup 1 = .none ∧ (∀ token' cancelAt', .begin 1 token' cancelAt' ∉ rest) ∧
      (s.cache.get s.now "t").1 = .none ∧ (s.run w events).cache.size = 1 ∧
      s.noticesOf w 1 events =
        [.asked 1 (.whoAmI "t"), .asked 1 (.checkMembership "t" "acme" "alice"), .finished 1 (.error .cancelled)] ∧
      ¬ s.Writes w events 1 ∧ GivenUp events (s.run w events) 1 (.some 5) := by
  intro w alice s rest events
  have hfresh : s.flights.lookup 1 = .none := by decide
  have honce : ∀ token' cancelAt', .begin 1 token' cancelAt' ∉ rest := by simp [rest]
  have hnotices : s.noticesOf w 1 events =
      [.asked 1 (.whoAmI "t"), .asked 1 (.checkMembership "t" "acme" "alice"), .finished 1 (.error .cancelled)] := by
    decide
  have hcancelled : .finished 1 (.error .cancelled) ∈ s.notices w events := by
    have hmem : .finished 1 (.error .cancelled) ∈ s.noticesOf w 1 events := by rw [hnotices]; simp
    exact (mem_noticesOf.1 hmem).1
  obtain ⟨-, -, hreads, hgiven⟩ := cancellation_safe hfresh honce
  exact ⟨hfresh, honce, by decide, by decide, hnotices, hreads hcancelled,
    hgiven 10 2 _ rfl (by simp) hcancelled⟩

end

end Service

end TokenGate
