/-
The cache is transparent.

Where the replies of the provider are foregone, so is what each validation comes to (`eq_foregone_of_yields`), and with
it what the cache gives back later (`Accounted.result_eq`). A validation is then finished with what it would have come
to without a cache, whichever of the two answers it, unless its caller has given it up (`finished_eq_foregone`).
-/
import TokenGate.Proofs.Service.Provenance

namespace TokenGate

variable {Q : Type} {Answer : Q → Type}

/-- Each call of the provider comes to the reply that is foregone, with whichever answers of the course `events`, and
to whichever validations these were given. -/
def Provider.Stable (p : Provider Answer) (events : List (Event Answer)) (replies : (c : Call) → c.Reply) : Prop :=
  ∀ (c : Call) (log : List (Answered Answer)) (reply : c.Reply), (∀ x ∈ log, ∃ id, .answer id x.1 x.2 ∈ events) →
    (p.call c).Yields log reply → reply = replies c

theorem Provider.Stable.of_append {p : Provider Answer} {l l' : List (Event Answer)} {replies : (c : Call) → c.Reply}
    (h : p.Stable (l ++ l') replies) : p.Stable l replies := fun c log reply hlog hy =>
  h c log reply (fun x hx => (hlog x hx).imp fun _ hm => List.mem_append_left _ hm) hy

/-- Where each call is answered as a whole, the replies are stable when no call is ever answered otherwise. -/
theorem stable_direct {events : List (Event Call.Reply)} {replies : (c : Call) → c.Reply}
    (h : ∀ id c reply, .answer id c reply ∈ events → reply = replies c) : Provider.direct.Stable events replies := by
  intro c log reply hlog hy
  have hone : log = [⟨c, reply⟩] := by
    cases c <;> obtain ⟨a, rest, rfl, hdone⟩ := Exchange.yields_ask.1 hy <;>
      obtain ⟨rfl, rfl⟩ := Exchange.yields_done.1 hdone <;> rfl
  obtain ⟨id, hm⟩ := hlog ⟨c, reply⟩ (by rw [hone]; exact List.mem_singleton_self _)
  exact h id c reply hm

namespace Service

open Event Validation

variable [DecidableEq Q] {w : Wiring Answer} {s₀ : Service Answer} {events : List (Event Answer)}
  {replies : (c : Call) → c.Reply}

/-- A validation that has heard enough is resolved as is foregone. -/
theorem eq_foregone_of_yields (hstable : w.provider.Stable events replies) {id : Nat} {token : String} {r : Resolution}
    (hy : (resolve w.provider w.policy token).Yields (s₀.heard w id events) r) :
    r = foregone w.policy replies token :=
  (resolved_of_yields hy).eq_foregone fun c l reply hl => hstable c l reply fun _ hx =>
    ⟨id, answer_mem_of_mem_heard (hl hx)⟩

/-- What the cache holds for a token that is validated gives the result that is foregone. -/
theorem Accounted.result_eq (h : Accounted w s₀ events) (hstable : w.provider.Stable events replies)
    {token : String} (hdigest : ∀ x ∈ begun events, Fingerprint.ofToken x.2 = Fingerprint.ofToken token → x.2 = token)
    {e : Entry} (he : (Fingerprint.ofToken token, e) ∈ (s₀.run w events).cache.entries) :
    e.outcome.result = (foregone w.policy replies token).result := by
  obtain ⟨id, token', cancelAt, r, hbegin, hk, hmemo, hy, -⟩ := h.entries _ he
  have hsame : token' = token := hdigest (id, token') (mem_begun hbegin) hk.symm
  subst hsame
  rw [← eq_foregone_of_yields hstable hy]
  exact (resolved_of_yields hy).result_memo hmemo

/-- **The cache is transparent.** Start with an empty cache, and let validations come, be answered and be given up in
any order, while time passes, sweeps come, and entries are evicted and deleted. If each call of the provider comes to
the same reply whenever it is made, then every validation that finishes does so with the result that its token would
have without a cache; only one that has been given up may be cancelled instead. -/
theorem finished_eq_foregone {ttl maxSize : Nat} {past : List (Event Answer)} {e : Event Answer}
    (ho : Orderly (past ++ [e])) (hdigests : DistinctDigests (past ++ [e]))
    (hstable : w.provider.Stable (past ++ [e]) replies) {id : Nat} {token : String} {cancelAt : Option Nat}
    (hbegin : .begin id token cancelAt ∈ past ++ [e]) {result : Except ValidationError Identity}
    (hfinished : .finished id result ∈ (((start ttl maxSize).run w past).step w e).2) :
    result = (foregone w.policy replies token).result ∨
      result = .error .cancelled ∧ GivenUp (past ++ [e]) ((start ttl maxSize).run w past) id cancelAt := by
  have h : Accounted w (start ttl maxSize) past := accounted_of_orderly ho.of_append
  rcases finished_cases ho hbegin hfinished with ⟨o, rfl, rfl, hget⟩ | hgiven | ⟨r, hyields, rfl⟩
  · left
    obtain ⟨y, hy, rfl, -⟩ := Cache.exists_mem_of_get_eq_some hget
    refine h.result_eq hstable.of_append (fun x hx hk => ?_) hy
    exact hdigests x (by rw [begun_append]; exact List.mem_append_left _ hx) (id, token) (mem_begun hbegin) hk
  · exact .inr hgiven
  · left
    rw [eq_foregone_of_yields hstable hyields]

/-- Of three validations of one token, the first is answered by the provider, the second is given up meanwhile, and the
third finds in the cache what the first has left there. -/
theorem finished_eq_foregone_overlapping :
    let w : Wiring Call.Reply := ⟨.direct, ⟨"acme", true⟩⟩
    let teams : List Team := [⟨"sre", "ACME"⟩, ⟨"ops", "other"⟩]
    let replies : (c : Call) → c.Reply := fun
      | .whoAmI _ => .ok ⟨⟨"alice", 42, .none⟩, false⟩
      | .checkMembership _ _ _ => .ok ()
      | .listGroups _ _ => .ok teams
    let ask (id : Nat) (c : Call) : Event Call.Reply := .answer id c (replies c)
    let past : List (Event Call.Reply) :=
      [.begin 1 "token" .none, ask 1 (.whoAmI "token"), .begin 2 "token" (.some 5),
       ask 1 (.checkMembership "token" "acme" "alice"), .pass 7, ask 2 (.whoAmI "token"),
       ask 1 (.listGroups "token" "acme")]
    let e : Event Call.Reply := .begin 3 "token" .none
    let s := (start 10 2).run w past
    let result : Except ValidationError Identity := .ok ⟨"alice", 42, .none, "acme", ["sre"]⟩
    Orderly (past ++ [e]) ∧ DistinctDigests (past ++ [e]) ∧ w.provider.Stable (past ++ [e]) replies ∧
      .finished 3 result ∈ (s.step w e).2 ∧
      (result = (foregone w.policy replies "token").result ∨
        result = .error .cancelled ∧ GivenUp (past ++ [e]) s 3 .none) := by
  intro w teams replies ask past e s result
  have ho : Orderly (past ++ [e]) := ⟨by decide, by intro token o h; simp [past, e, ask] at h⟩
  have hdigests : DistinctDigests (past ++ [e]) := by
    have hone : ∀ x ∈ begun (past ++ [e]), x.2 = "token" := by decide
    intro x hx y hy _
    rw [hone x hx, hone y hy]
  have hstable : w.provider.Stable (past ++ [e]) replies := by
    refine stable_direct ?_
    intro id c reply h
    simp only [past, e, ask, List.cons_append, List.nil_append, List.mem_cons, reduceCtorEq, answer.injEq,
      List.not_mem_nil, or_self, or_false, false_or] at h
    rcases h with ⟨rfl, rfl, rfl⟩ | ⟨rfl, rfl, rfl⟩ | ⟨rfl, rfl, rfl⟩ | ⟨rfl, rfl, rfl⟩ <;> rfl
  have hfinished : .finished 3 result ∈ (s.step w e).2 := by decide +kernel
  exact ⟨ho, hdigests, hstable, hfinished,
    finished_eq_foregone ho hdigests hstable (by simp [e]) hfinished⟩

end Service

end TokenGate
