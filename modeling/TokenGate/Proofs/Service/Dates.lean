/-
How old the decisions of the service are.

Time does not run backwards (`now_le_run`), so what a validation asks it asks after it began (`AskedAt.beganAt`). An
entry is dated by the turn at which its validation was resolved: it expires one lifetime later
(`exists_turn_of_mem_entries`). If no validation is under way for longer than a limit, then what a validation is
finished with goes back to questions that were asked no longer ago than one lifetime and that limit
(`recentlyBacked_of_finished`), however many validations of one token there are and in whatever order they write.
-/
import TokenGate.Proofs.Service.Capacity
import TokenGate.Proofs.Service.Provenance

namespace TokenGate

variable {Q : Type} {Answer : Q → Type}

/-! ## Decisions -/

/-- The outcomes that are remembered: an identity, or that the credential is not valid. -/
inductive Outcome.Decisive : Outcome → Prop where
  | authorized (i : Identity) : Decisive (.authorized i)
  | unauthorized : Decisive (.denied .unauthorized)

theorem Outcome.Decisive.eq_of_result_eq {o o' : Outcome} (ho : o.Decisive) (h : o'.result = o.result) : o' = o := by
  cases ho with
  | authorized i =>
    cases o' with
    | authorized i' => cases h; rfl
    | denied d => cases h
  | unauthorized =>
    cases o' with
    | authorized i' => cases h
    | denied d => cases d <;> first | rfl | cases h

namespace Validation

variable {p : Provider Answer} {policy : Policy} {token : String} {log : List (Answered Answer)} {r : Resolution}

/-- What is decided is remembered. -/
theorem Resolved.memo_of_result {o : Outcome} (h : Resolved p policy token log r) (ho : o.Decisive)
    (hresult : r.result = o.result) : r.memo = .some o := by
  cases h with
  | @owner _ reply _ _ howner =>
    cases reply with
    | ok owner =>
      simp only [acceptOwner] at howner
      split at howner
      next => cases howner; cases ho <;> cases hresult
      next => cases howner
    | error e => cases e <;> cases howner <;> cases ho <;> (cases hresult; try rfl)
  | @membership _ _ _ _ reply _ _ _ _ hmember =>
    cases reply with
    | ok => cases hmember
    | error e => cases e <;> cases hmember <;> cases ho <;> cases hresult
  | @roster _ _ _ _ _ _ reply =>
    cases reply with
    | ok teams => cases ho <;> (cases hresult; try rfl)
    | error e => cases e <;> cases ho <;> cases hresult

end Validation

namespace Service

variable [DecidableEq Q] {w : Wiring Answer} {s₀ : Service Answer}

/-! ## Time -/

omit [DecidableEq Q] in
@[simp] theorem proceed_now (s : Service Answer) (id : Nat) (token : String) (cancelAt : Option Nat)
    (x : Exchange Answer Resolution) : (s.proceed w id token cancelAt x).1.now = s.now := by
  cases x with
  | done r => simp only [proceed, finish, memorize]; split <;> rfl
  | ask q resume => simp only [proceed, countQuestion]; split <;> rfl

@[simp] theorem step_now (s : Service Answer) (e : Event Answer) : (s.step w e).1.now = s.now + e.elapsed := by
  cases e with
  | begin id token cancelAt =>
    simp only [step, begin]
    split
    next => rfl
    next =>
      split
      next => rfl
      next => exact proceed_now ..
  | answer id q a =>
    simp only [step, answer]
    split
    next =>
      split
      next =>
        split
        next => rfl
        next => exact proceed_now ..
      next => rfl
    next => rfl
  | cancel id => simp only [step, cancel]; split <;> rfl
  | _ => rfl

/-- Nothing comes of the passing of time. -/
theorem elapsed_eq_zero_of_mem {s : Service Answer} {e : Event Answer} {n : Notice Q} (h : n ∈ (s.step w e).2) :
    e.elapsed = 0 := by
  cases e with
  | pass | jump | stall => cases h
  | _ => rfl

theorem now_le_run {l events : List (Event Answer)} (h : l <+: events) : (s₀.run w l).now ≤ (s₀.run w events).now := by
  obtain ⟨l', rfl⟩ := h
  induction l' using List.reverseRecOn with
  | nil => simp
  | append_singleton l' e ih =>
    rw [← List.append_assoc, run_concat, step_now]
    exact Nat.le_trans ih (Nat.le_add_right ..)

/-! ## Beginnings -/

section

variable {events l : List (Event Answer)} {id : Nat} {token : String} {t : Nat}

theorem BeganAt.of_isPrefix (h : s₀.BeganAt w l id token t) (hl : l <+: events) : s₀.BeganAt w events id token t := by
  obtain ⟨past, cancelAt, rest, rfl, ht⟩ := h
  obtain ⟨l', rfl⟩ := hl
  exact ⟨past, cancelAt, rest ++ l', by simp, ht⟩

theorem AskedAt.of_isPrefix {q : Q} (h : s₀.AskedAt w l id q t) (hl : l <+: events) : s₀.AskedAt w events id q t := by
  obtain ⟨past, e, rest, rfl, hasked, ht⟩ := h
  obtain ⟨l', rfl⟩ := hl
  exact ⟨past, e, rest ++ l', by simp, hasked, ht⟩

/-- What has begun by an event began no later than at that instant. -/
theorem exists_beganAt {past : List (Event Answer)} {e : Event Answer} {cancelAt : Option Nat}
    (h : .begin id token cancelAt ∈ past ++ [e]) :
    ∃ t, s₀.BeganAt w (past ++ [e]) id token t ∧ t ≤ (s₀.run w past).now := by
  rcases List.mem_append.1 h with h | h
  · obtain ⟨l, l', rfl⟩ := List.append_of_mem h
    exact ⟨_, ⟨l, cancelAt, l' ++ [e], by simp, rfl⟩, now_le_run (List.prefix_append ..)⟩
  · exact ⟨_, ⟨past, cancelAt, [], by rw [List.mem_singleton.1 h], rfl⟩, Nat.le_refl _⟩

/-- A validation begins once. -/
theorem BeganAt.unique (ho : Event.Orderly events) {token' : String} {t' : Nat} (h : s₀.BeganAt w events id token t)
    (h' : s₀.BeganAt w events id token' t') : t = t' := by
  obtain ⟨l, cancelAt, r, rfl, rfl⟩ := h
  obtain ⟨l', cancelAt', r', heq, rfl⟩ := h'
  obtain ⟨hnot, hnot'⟩ := ho.notMem_of_begin token' cancelAt'
  rcases List.append_eq_append_iff.1 heq with ⟨m, rfl, hm⟩ | ⟨m, rfl, hm⟩
  · cases m with
    | nil => rw [List.append_nil]
    | cons e m =>
      rw [List.cons_append, List.cons.injEq] at hm
      exact absurd (by rw [hm.2]; simp) hnot'
  · cases m with
    | nil => rw [List.append_nil]
    | cons e m =>
      rw [List.cons_append, List.cons.injEq] at hm
      exact absurd (by rw [← hm.1]; simp) hnot

end

/-! ## Questions -/

/-- A turn is a step of the validation that has it. -/
theorem Turn.step_eq {s : Service Answer} {e : Event Answer} {id : Nat} {token : String} {cancelAt : Option Nat}
    {x : Exchange Answer Resolution} (h : Turn w s e id token cancelAt x) :
    ∃ s' : Service Answer, s.step w e = s'.proceed w id token cancelAt x := by
  cases h with
  | begin hget hgiven =>
    simp only [step, Service.begin]
    split
    next heq => rw [heq] at hget; cases hget
    next => rw [hgiven, if_neg Bool.false_ne_true]; exact ⟨_, rfl⟩
  | answer hq hf hgiven =>
    subst hq
    simp only [step, Service.answer, hf, hgiven, dite_true, if_neg Bool.false_ne_true]
    exact ⟨_, rfl⟩

/-- What a validation waits for has been asked. -/
theorem exists_askedAt_of_mem_flights {events : List (Event Answer)} {ttl maxSize id : Nat} {f : Flight Answer}
    (h : (id, f) ∈ ((start ttl maxSize).run w events).flights) :
    ∃ t, (start ttl maxSize).AskedAt w events id f.question t := by
  induction events using List.reverseRecOn with
  | nil => cases h
  | append_singleton past e ih =>
    rw [run_concat] at h
    rcases mem_flights_step h with ⟨hold, -⟩ | hturn
    · obtain ⟨t, ht⟩ := ih hold
      exact ⟨t, ht.of_isPrefix (List.prefix_append ..)⟩
    · obtain ⟨s', hs'⟩ := hturn.step_eq
      refine ⟨_, past, e, [], rfl, ?_, rfl⟩
      rw [hs']
      exact List.mem_singleton_self _

theorem eq_of_heard? {s : Service Answer} {id : Nat} {e : Event Answer} {x : Answered Answer}
    (h : s.heard? id e = .some x) : ∃ f, (id, f) ∈ s.flights ∧ f.question = x.1 := by
  cases e with
  | answer id' q a =>
    simp only [heard?] at h
    split at h
    next f hf =>
      split at h
      next hcond =>
        cases h
        obtain ⟨rfl, rfl, -⟩ := hcond
        exact ⟨f, mem_of_lookup_flights hf, rfl⟩
      next => cases h
    next => cases h
  | _ => cases h

/-- What a validation has heard was asked. -/
theorem exists_askedAt_of_mem_heard {events : List (Event Answer)} {ttl maxSize id : Nat} {x : Answered Answer}
    (h : x ∈ (start ttl maxSize).heard w id events) : ∃ t, (start ttl maxSize).AskedAt w events id x.1 t := by
  induction events using List.reverseRecOn with
  | nil => cases h
  | append_singleton past e ih =>
    rw [heard_concat, List.mem_append, Option.mem_toList] at h
    rcases h with h | h
    · obtain ⟨t, ht⟩ := ih h
      exact ⟨t, ht.of_isPrefix (List.prefix_append ..)⟩
    · obtain ⟨f, hf, hq⟩ := eq_of_heard? h
      obtain ⟨t, ht⟩ := exists_askedAt_of_mem_flights hf
      rw [hq] at ht
      exact ⟨t, ht.of_isPrefix (List.prefix_append ..)⟩

section

variable {ttl maxSize : Nat} {events : List (Event Answer)} {id : Nat}

/-- A validation asks after it has begun. -/
theorem AskedAt.beganAt (ho : Event.Orderly events) {q : Q} {t : Nat}
    (h : (start ttl maxSize).AskedAt w events id q t) :
    ∃ token b, (start ttl maxSize).BeganAt w events id token b ∧ b ≤ t := by
  obtain ⟨past, e, rest, rfl, hasked, rfl⟩ := h
  rw [List.append_cons] at ho ⊢
  obtain ⟨token, cancelAt, resume, hturn⟩ := asked_step hasked
  obtain ⟨hbegin, -⟩ := (accounted_of_orderly ho.of_append.of_append).turn ho.of_append hturn
  obtain ⟨b, hb, hle⟩ := exists_beganAt hbegin
  exact ⟨token, b, hb.of_isPrefix (List.prefix_append ..), hle⟩

/-! ## Limits -/

/-- No validation is under way for longer than `limit`, at any time in the course of `events`. -/
def OnTime (w : Wiring Answer) (s : Service Answer) (limit : Nat) (events : List (Event Answer)) : Prop :=
  ∀ l, l <+: events → ∀ id f, (id, f) ∈ (s.run w l).flights →
    ∃ t, s.BeganAt w l id f.token t ∧ (s.run w l).now ≤ t + limit

/-- Some validation of `token` heard what backs `o`, and whatever it asked, it asked no earlier than `age` before
`now`. -/
def RecentlyBacked (w : Wiring Answer) (s : Service Answer) (events : List (Event Answer)) (token : String)
    (o : Outcome) (age now : Nat) : Prop :=
  ∃ id l, l <+: events ∧ Validation.Backs w.provider w.policy token (s.heard w id l) o ∧
    (∃ t, s.BeganAt w l id token t ∧ now ≤ t + age) ∧ (∀ x ∈ s.heard w id l, ∃ t, s.AskedAt w l id x.1 t) ∧
    ∀ q t, s.AskedAt w events id q t → now ≤ t + age

variable {limit : Nat} {past : List (Event Answer)} {e : Event Answer} {token : String} {cancelAt : Option Nat}

theorem OnTime.turn (h : (start ttl maxSize).OnTime w limit events) (hpast : past ++ [e] <+: events)
    {x : Exchange Answer Resolution} (hturn : Turn w ((start ttl maxSize).run w past) e id token cancelAt x) :
    ∃ b, (start ttl maxSize).BeganAt w (past ++ [e]) id token b ∧
      ((start ttl maxSize).run w past).now ≤ b + limit := by
  rcases hturn.begins_or_hears with rfl | ⟨⟨f, hf, rfl⟩, -⟩
  · exact ⟨_, ⟨past, cancelAt, [], rfl, rfl⟩, Nat.le_add_right ..⟩
  · obtain ⟨b, hb, hle⟩ := h past ((List.prefix_append ..).trans hpast) id f hf
    exact ⟨b, hb.of_isPrefix (List.prefix_append ..), hle⟩

/-- An entry was left at the turn at which its validation was resolved, and it expires one lifetime later. -/
theorem exists_turn_of_mem_entries (ho : Event.Orderly events) {y : Fingerprint × Entry}
    (hy : y ∈ ((start ttl maxSize).run w events).cache.entries) :
    ∃ past e id token cancelAt r, past ++ [e] <+: events ∧
      Turn w ((start ttl maxSize).run w past) e id token cancelAt (.done r) ∧ r.memo = .some y.2.outcome ∧
      y.1 = Fingerprint.ofToken token ∧ y.2.expiresAt = ((start ttl maxSize).run w past).now + ttl := by
  induction events using List.reverseRecOn with
  | nil => cases hy
  | append_singleton past e ih =>
    rw [run_concat] at hy
    rcases mem_entries_step hy with hold | ⟨id, token, cancelAt, r, hturn, hmemo, hk, hexpires⟩ | ⟨token, o, he⟩
    · obtain ⟨past', e', id, token, cancelAt, r, hpast, h⟩ := ih ho.of_append hold
      exact ⟨past', e', id, token, cancelAt, r, hpast.trans (List.prefix_append ..), h⟩
    · rw [(reachable_start w past).limits.1] at hexpires
      exact ⟨past, e, id, token, cancelAt, r, List.prefix_rfl, hturn, hmemo, hk, hexpires⟩
    · exact absurd (he ▸ List.mem_append_right past (List.mem_singleton_self e)) (ho.writes token o)

/-- What a validation remembers at its last turn is as old as the turn and the limit together. -/
theorem recentlyBacked_of_turn (ho : Event.Orderly events) (hlimit : (start ttl maxSize).OnTime w limit events)
    (hpast : past ++ [e] <+: events) {r : Resolution}
    (hturn : Turn w ((start ttl maxSize).run w past) e id token cancelAt (.done r)) {o : Outcome}
    (hmemo : r.memo = .some o) {age now : Nat} (hnow : now ≤ ((start ttl maxSize).run w past).now + age) :
    (start ttl maxSize).RecentlyBacked w events token o (age + limit) now := by
  have hsome : Event.Orderly (past ++ [e]) := by
    obtain ⟨rest, rfl⟩ := hpast
    exact ho.of_append
  obtain ⟨-, hyields⟩ := (accounted_of_orderly hsome.of_append).turn hsome hturn
  obtain ⟨b, hb, hle⟩ := hlimit.turn hpast hturn
  refine ⟨id, past ++ [e], hpast, (Validation.resolved_of_yields hyields).backs hmemo, ⟨b, hb, by omega⟩,
    fun x hx => exists_askedAt_of_mem_heard hx, fun q t hasked => ?_⟩
  obtain ⟨token', b', hb', hle'⟩ := hasked.beganAt ho
  have heq : b = b' := (hb.of_isPrefix hpast).unique ho hb'
  omega

/-- **Decisions are recent.** If no validation is under way for longer than a limit, then whatever decides a validation
of a token that is finished, the answer of the provider or the cache, goes back to a validation of that token which
asked all it asked within the lifetime of an entry and that limit. -/
theorem recentlyBacked_of_finished (ho : Event.Orderly (past ++ [e]))
    (hdigests : Event.DistinctDigests (past ++ [e])) (hlimit : (start ttl maxSize).OnTime w limit (past ++ [e]))
    {result : Except ValidationError Identity} {o : Outcome} (hdecisive : o.Decisive) (hresult : result = o.result)
    (hfinished : .finished id result ∈ (((start ttl maxSize).run w past).step w e).2) :
    ∃ token cancelAt, .begin id token cancelAt ∈ past ++ [e] ∧
      (start ttl maxSize).RecentlyBacked w (past ++ [e]) token o (ttl + limit)
        ((start ttl maxSize).run w past).now := by
  rcases finished_step hfinished with
    ⟨token, cancelAt, o', rfl, hget, rfl⟩ | ⟨rfl, -⟩ | ⟨token, cancelAt, r, hturn, rfl⟩
  · have hbegin : .begin id token cancelAt ∈ past ++ [.begin id token cancelAt] := by simp
    refine ⟨token, cancelAt, hbegin, ?_⟩
    obtain rfl := hdecisive.eq_of_result_eq hresult
    obtain ⟨y, hy, rfl, hlive⟩ := Cache.exists_mem_of_get_eq_some hget
    obtain ⟨past', e', id', token', cancelAt', r, hpast, hturn, hmemo, hk, hexpires⟩ :=
      exists_turn_of_mem_entries ho.of_append hy
    have hpast' := hpast.trans (List.prefix_append past [.begin id token cancelAt])
    obtain ⟨hbegin', -⟩ : .begin id' token' cancelAt' ∈ past' ++ [e'] ∧ _ := by
      obtain ⟨rest, rfl⟩ := hpast
      exact (accounted_of_orderly ho.of_append.of_append.of_append).turn ho.of_append.of_append hturn
    have hsame : token = token' :=
      hdigests _ (Event.mem_begun hbegin) _ (Event.mem_begun (hpast'.subset hbegin')) hk
    subst hsame
    rw [show y.expiresAt = _ from hexpires] at hlive
    exact recentlyBacked_of_turn ho hlimit hpast' hturn hmemo (Nat.le_of_lt hlive)
  · cases hdecisive <;> cases hresult
  · obtain ⟨hbegin, hyields⟩ := (accounted_of_orderly ho.of_append).turn ho hturn
    have hmemo := (Validation.resolved_of_yields hyields).memo_of_result hdecisive hresult
    exact ⟨token, cancelAt, hbegin,
      recentlyBacked_of_turn ho hlimit List.prefix_rfl hturn hmemo (Nat.le_add_right ..)⟩

end

end Service

end TokenGate
