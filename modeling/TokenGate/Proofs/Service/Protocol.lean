/-
Validations keep to the protocol.

Where a provider answers whole calls, the replies of a transcript lead a validation to exactly the move that the
protocol has for them (`protocol_iff`). In the service each validation goes its own way, whatever others do meanwhile,
so it makes the calls of the protocol for the replies that it has heard, ends with the result of the protocol, and
changes the cache as the protocol says (`protocol_followed`).
-/
import TokenGate.Proofs.Service.Standing
import TokenGate.Validation.Protocol

namespace TokenGate

namespace Exchange

variable {Q : Type} {Answer : Q → Type} {R : Type}

theorem leads_done {r : R} {log : List (Answered Answer)} {y : Exchange Answer R} :
    (done r).Leads log y ↔ log = [] ∧ y = done r := by
  constructor
  · intro h; cases h; exact ⟨rfl, rfl⟩
  · rintro ⟨rfl, rfl⟩; exact .nil

theorem leads_ask {q : Q} {resume : Answer q → Exchange Answer R} {log : List (Answered Answer)}
    {y : Exchange Answer R} :
    (ask q resume).Leads log y ↔
      log = [] ∧ y = ask q resume ∨ ∃ a rest, log = ⟨q, a⟩ :: rest ∧ (resume a).Leads rest y := by
  constructor
  · intro h
    cases h with
    | nil => exact .inl ⟨rfl, rfl⟩
    | cons h => exact .inr ⟨_, _, rfl, h⟩
  · rintro (⟨rfl, rfl⟩ | ⟨a, rest, rfl, h⟩)
    · exact .nil
    · exact .cons h

theorem Leads.unique {x y z : Exchange Answer R} {log : List (Answered Answer)} (h : x.Leads log y)
    (h' : x.Leads log z) : y = z := by
  induction h with
  | nil => cases h'; rfl
  | cons _ ih => cases h' with | cons h' => exact ih h'

end Exchange

namespace Validation

variable {policy : Policy} {token : String} {log : List (Answered Call.Reply)}

/-! ## The moves of a validation -/

/-- The move that an exchange is about to make. -/
def Move.of : Exchange Call.Reply Resolution → Move
  | .ask c _ => .call c
  | .done r => .stop r.result r.memo

/-- How a validation ends when a call has failed. -/
def resolutionOf : Call → ProviderError → Resolution
  | .whoAmI _, .unauthorized => ⟨.error .unauthorized, .some (.denied .unauthorized)⟩
  | .checkMembership _ _ _, .notMember => .refuse .notMember
  | _, .rateLimited => .refuse .rateLimited
  | c, e => .fail c.endpoint e

/-- How a validation goes on from the reply to its second call. -/
def afterMembership (policy : Policy) (token : String) (user : UserProfile) :
    (Call.checkMembership token policy.org user.login).Reply → Exchange Call.Reply Resolution := fun reply =>
  match acceptMembership reply with
  | .error r => .done r
  | .ok () => .ask (.listGroups token policy.org) fun reply => .done (acceptRoster policy user reply)

/-- How a validation goes on from the reply to its first call. -/
def afterOwner (policy : Policy) (token : String) : (Call.whoAmI token).Reply → Exchange Call.Reply Resolution :=
  fun reply =>
    match acceptOwner policy reply with
    | .error r => .done r
    | .ok user => .ask (.checkMembership token policy.org user.login) (afterMembership policy token user)

theorem resolve_direct (policy : Policy) (token : String) :
    resolve Provider.direct policy token = .ask (.whoAmI token) (afterOwner policy token) := rfl

section

variable {owner : Owner} {user : UserProfile}

theorem afterOwner_accepted (h : ¬ (policy.rejectClassicPats = true ∧ owner.isClassic = true)) :
    afterOwner policy token (.ok owner) =
      .ask (.checkMembership token policy.org owner.profile.login) (afterMembership policy token owner.profile) := by
  simp only [afterOwner, acceptOwner]
  rw [if_neg (by simpa using h)]

theorem afterOwner_classic (h : policy.rejectClassicPats = true ∧ owner.isClassic = true) :
    afterOwner policy token (.ok owner) = .done (.refuse .classicPat) := by
  simp only [afterOwner, acceptOwner, h, Bool.and_self, if_true]

theorem afterOwner_error (e : ProviderError) :
    afterOwner policy token (.error e) = .done (resolutionOf (.whoAmI token) e) := by
  cases e <;> rfl

theorem afterMembership_error (e : ProviderError) :
    afterMembership policy token user (.error e) =
      .done (resolutionOf (.checkMembership token policy.org user.login) e) := by
  cases e <;> rfl

theorem acceptRoster_error (token : String) (e : ProviderError) :
    acceptRoster policy user (.error e) = resolutionOf (.listGroups token policy.org) e := by
  cases e <;> rfl

/-! ## The rows of the protocol -/

theorem leads_membership (h : ¬ (policy.rejectClassicPats = true ∧ owner.isClassic = true)) :
    (resolve Provider.direct policy token).Leads [⟨.whoAmI token, .ok owner⟩]
      (.ask (.checkMembership token policy.org owner.profile.login) (afterMembership policy token owner.profile)) := by
  refine .cons ?_
  change (afterOwner policy token (.ok owner)).Leads [] _
  rw [afterOwner_accepted h]
  exact .nil

end

/-- A validation that makes a call by the protocol makes it, and how it ends when the call fails does not depend on
anything else. -/
theorem Protocol.leads_call {c : Call} (h : Protocol policy token log (.call c)) :
    ∃ resume, (resolve Provider.direct policy token).Leads log (.ask c resume) ∧
      ∀ e, resume (c.failed e) = .done (resolutionOf c e) := by
  cases h with
  | owner => exact ⟨_, .nil, afterOwner_error⟩
  | membership haccepted => exact ⟨_, leads_membership haccepted, afterMembership_error⟩
  | roster haccepted =>
    exact ⟨_, (leads_membership haccepted).snoc _, fun e => congrArg _ (acceptRoster_error token e)⟩

theorem resolutionOf_of_not_expects {c : Call} {e : ProviderError} (h : ¬ c.Expects e) :
    resolutionOf c e = .fail c.endpoint e := by
  cases c with
  | whoAmI =>
    cases e with
    | unauthorized => exact absurd .rejection h
    | rateLimited => exact absurd .limit h
    | notMember | other => rfl
  | checkMembership =>
    cases e with
    | notMember => exact absurd .stranger h
    | rateLimited => exact absurd .limit h
    | unauthorized | other => rfl
  | listGroups =>
    cases e with
    | rateLimited => exact absurd .limit h
    | unauthorized | notMember | other => rfl

/-- A call that the protocol makes ends the validation when it fails. -/
theorem Protocol.stop_of_call {c : Call} (h : Protocol policy token log (.call c)) (e : ProviderError) :
    Protocol policy token (log ++ [⟨c, c.failed e⟩]) (.of (.done (resolutionOf c e))) := by
  by_cases hexpects : c.Expects e
  · cases hexpects with
    | rejection => cases h with | owner => exact .rejected
    | stranger => cases h with | membership haccepted => exact .stranger (.membership haccepted)
    | limit =>
      have hlimited := Protocol.limited h
      cases c <;> exact hlimited
  · rw [resolutionOf_of_not_expects hexpects]
    exact .failed h hexpects

/-- **The protocol is that of a validation.** With the replies of a transcript, a validation makes a move exactly if
the protocol has it for them. -/
theorem protocol_iff {next : Move} :
    Protocol policy token log next ↔ ∃ y, (resolve Provider.direct policy token).Leads log y ∧ .of y = next := by
  constructor
  case mp =>
    intro h
    cases h with
    | owner => exact ⟨_, .nil, rfl⟩
    | membership haccepted => exact ⟨_, leads_membership haccepted, rfl⟩
    | roster haccepted => exact ⟨_, (leads_membership haccepted).snoc _, rfl⟩
    | grant haccepted hi =>
      subst hi
      exact ⟨_, ((leads_membership haccepted).snoc (.ok ())).snoc (.ok _), rfl⟩
    | classic hpolicy hclassic =>
      refine ⟨.done (.refuse .classicPat), .cons ?_, rfl⟩
      change (afterOwner policy token (.ok _)).Leads [] _
      rw [afterOwner_classic ⟨hpolicy, hclassic⟩]
      exact .nil
    | rejected => exact ⟨_, .cons .nil, rfl⟩
    | stranger hcall =>
      obtain ⟨resume, hleads, hfailed⟩ := hcall.leads_call
      exact ⟨_, hleads.snoc _, congrArg Move.of (hfailed .notMember)⟩
    | @limited _ c hcall =>
      obtain ⟨resume, hleads, hfailed⟩ := hcall.leads_call
      refine ⟨_, hleads.snoc _, ?_⟩
      rw [hfailed]
      cases c <;> rfl
    | failed hcall hexpects =>
      obtain ⟨resume, hleads, hfailed⟩ := hcall.leads_call
      refine ⟨_, hleads.snoc _, ?_⟩
      rw [hfailed, resolutionOf_of_not_expects hexpects]
      rfl
  case mpr =>
    rintro ⟨y, hleads, rfl⟩
    rw [resolve_direct] at hleads
    rcases Exchange.leads_ask.1 hleads with ⟨rfl, rfl⟩ | ⟨e | owner, rest, rfl, h₁⟩
    · exact .owner
    · rw [afterOwner_error, Exchange.leads_done] at h₁
      obtain ⟨rfl, rfl⟩ := h₁
      exact Protocol.owner.stop_of_call e
    by_cases hclassic : policy.rejectClassicPats = true ∧ owner.isClassic = true
    · rw [afterOwner_classic hclassic, Exchange.leads_done] at h₁
      obtain ⟨rfl, rfl⟩ := h₁
      exact .classic hclassic.1 hclassic.2
    rw [afterOwner_accepted hclassic] at h₁
    rcases Exchange.leads_ask.1 h₁ with ⟨rfl, rfl⟩ | ⟨e | _, rest, rfl, h₂⟩
    · exact .membership hclassic
    · rw [afterMembership_error, Exchange.leads_done] at h₂
      obtain ⟨rfl, rfl⟩ := h₂
      exact (Protocol.membership hclassic).stop_of_call e
    rcases Exchange.leads_ask.1 h₂ with ⟨rfl, rfl⟩ | ⟨e | teams, rest, rfl, h₃⟩
    · exact .roster hclassic
    · rw [acceptRoster_error token, Exchange.leads_done] at h₃
      obtain ⟨rfl, rfl⟩ := h₃
      exact (Protocol.roster hclassic).stop_of_call e
    · obtain ⟨rfl, rfl⟩ := Exchange.leads_done.1 h₃
      exact .grant hclassic rfl

theorem Protocol.unique {next next' : Move} (h : Protocol policy token log next)
    (h' : Protocol policy token log next') : next = next' := by
  obtain ⟨y, hleads, rfl⟩ := protocol_iff.1 h
  obtain ⟨y', hleads', rfl⟩ := protocol_iff.1 h'
  rw [hleads.unique hleads']

/-- The notice of a move of the validation `id`. -/
def Move.notice (id : Nat) : Move → Notice Call
  | call c => .asked id c
  | stop result _ => .finished id result

end Validation

/-! ## Validations in the service -/

namespace Service

open Validation

variable {policy : Policy} {s : Service Call.Reply} {events : List (Event Call.Reply)} {e : Event Call.Reply} {id : Nat}
  {token : String} {cancelAt : Option Nat}

/-- A turn writes what its move has to be remembered. -/
theorem cache_proceed {w : Wiring Call.Reply} (x : Exchange Call.Reply Resolution) :
    (s.proceed w id token cancelAt x).1.cache =
      match (Move.of x).memo with
      | .some o => s.cache.set s.now token o
      | .none => s.cache := by
  cases x with
  | ask c resume => simp only [proceed, countQuestion_cache, Move.of, Move.memo]
  | done r =>
    simp only [proceed, finish, memorize, Move.of, Move.memo]
    cases r.memo <;> rfl

/-- A validation that the cache does not answer, and which is not given up, has made the moves of the protocol, and
hears whatever the reply to its call is. -/
theorem Standing.protocol (h : Standing ⟨.direct, policy⟩ s events id token cancelAt)
    (hmiss : (s.cache.get s.now token).1 = .none)
    (hkept : ¬ GivenUp events (s.run ⟨.direct, policy⟩ events) id cancelAt) :
    ∃ next, Protocol policy token (s.heard ⟨.direct, policy⟩ id events) next ∧
      s.noticesOf ⟨.direct, policy⟩ id events =
        Notice.asking id (s.heard ⟨.direct, policy⟩ id events) ++ [next.notice id] ∧
      ∀ c, next = .call c → ∀ reply, s.heard ⟨.direct, policy⟩ id (events ++ [.answer id c reply]) =
        s.heard ⟨.direct, policy⟩ id events ++ [⟨c, reply⟩] := by
  cases h with
  | hit hget => rw [hmiss] at hget; cases hget
  | waits _ hf _ hleads hnotices =>
    refine ⟨_, protocol_iff.2 ⟨_, hleads, rfl⟩, hnotices, ?_⟩
    rintro c hc reply
    cases hc
    have htime := Bool.eq_false_iff.2 fun htime => hkept (.inr htime)
    rw [heard_concat, heard?_answer hf htime, Option.toList_some]
  | resolved _ _ hyields hnotices =>
    refine ⟨_, protocol_iff.2 ⟨_, hyields, rfl⟩, hnotices, ?_⟩
    rintro c hc
    cases hc
  | givenUp _ _ hgiven => exact absurd hgiven hkept

/-- What is about a validation changes the cache only if it is a reply that it hears, and then as the protocol says. -/
theorem Standing.cache_step (h : Standing ⟨.direct, policy⟩ s events id token cancelAt)
    (honce : ∀ token' cancelAt', e ≠ .begin id token' cancelAt') (hid : e.subject? = .some id)
    (hkept : ¬ GivenUp (events ++ [e]) (s.run ⟨.direct, policy⟩ events) id cancelAt) :
    let w : Wiring Call.Reply := ⟨.direct, policy⟩
    let u := s.run w events
    u.heard? id e = .none ∧ (u.step w e).1.cache = u.cache ∨
      u.heard? id e ≠ .none ∧ ∃ next, Protocol policy token (s.heard w id (events ++ [e])) next ∧
        (u.step w e).1.cache =
          match next.memo with
          | .some o => u.cache.set u.now token o
          | .none => u.cache := by
  intro w u
  have hover (hover : u.flights.lookup id = .none) :
      u.heard? id e = .none ∧ (u.step w e).1.cache = u.cache :=
    ⟨heard?_of_lookup_eq_none hover, by rw [step_of_lookup_eq_none hover hid honce]⟩
  cases h with
  | hit _ hover' => exact .inl (hover hover')
  | resolved _ hover' => exact .inl (hover hover')
  | givenUp _ hover' => exact .inl (hover hover')
  | @waits q resume _ hf _ hleads =>
    cases e with
    | begin id' token' cancelAt' => cases hid; exact absurd rfl (honce _ _)
    | cancel id' => cases hid; exact absurd (.inl (by simp)) hkept
    | answer id' c reply =>
      cases hid
      by_cases hc : c = q
      case neg => exact .inl ⟨heard?_answer_of_ne hf hc, by rw [step_answer_of_ne hf hc]⟩
      subst hc
      have htime := Bool.eq_false_iff.2 fun htime => hkept (.inr htime)
      have hheard : u.heard? id (.answer id c reply) = .some ⟨c, reply⟩ := heard?_answer hf htime
      refine .inr ⟨by rw [hheard]; simp, _, protocol_iff.2 ⟨resume reply, ?_, rfl⟩, ?_⟩
      · rw [heard_concat, hheard]
        exact hleads.snoc reply
      · rw [step_answer_turn hf htime, cache_proceed]
        rfl
    | _ => cases hid

/-- **Validations keep to the protocol.** Let a validation begin at any state of the cache and of the others under way,
and let anything happen after that but that it is given up. If the cache knows its token, then what the cache knows is
its result, and nothing is asked. Otherwise the protocol has exactly one move for the replies that it has heard: it has
asked for each of them in turn, and then made this move and no other; where the move is a call, it hears the reply to
it, whatever that is. It reads the cache once, when it begins, and it writes what the protocol has it remember, with
the reply that decides. -/
theorem protocol_followed {rest : List (Event Call.Reply)} (hfresh : s.flights.lookup id = .none)
    (honce : ∀ token' cancelAt', .begin id token' cancelAt' ∉ rest)
    (hkept : ¬ GivenUp (.begin id token cancelAt :: rest)
      (s.run ⟨.direct, policy⟩ (.begin id token cancelAt :: rest)) id cancelAt) :
    let w : Wiring Call.Reply := ⟨.direct, policy⟩
    let events := .begin id token cancelAt :: rest
    let log := s.heard w id events
    (∀ o, (s.cache.get s.now token).1 = .some o →
      log = [] ∧ ∃ result, s.noticesOf w id events = [.finished id result] ∧
        (∀ i, o = .authorized i → result = .ok i) ∧
        ∀ k, o = .denied k → ∃ error, result = .error error ∧ error.denial = k) ∧
    ((s.cache.get s.now token).1 = .none →
      ∃ next, Protocol policy token log next ∧ (∀ next', Protocol policy token log next' → next' = next) ∧
        s.noticesOf w id events = Notice.asking id log ++ [next.notice id] ∧
        ∀ c, next = .call c → ∀ reply, s.heard w id (events ++ [.answer id c reply]) = log ++ [⟨c, reply⟩]) ∧
    (s.step w (.begin id token cancelAt)).1.cache = (s.cache.get s.now token).2 ∧
    ∀ past e, past ≠ [] → past ++ [e] <+: events → e.subject? = .some id →
      (s.run w past).heard? id e = .none ∧ ((s.run w past).step w e).1.cache = (s.run w past).cache ∨
        (s.run w past).heard? id e ≠ .none ∧ ∃ next, Protocol policy token (s.heard w id (past ++ [e])) next ∧
          ((s.run w past).step w e).1.cache =
            match next.memo with
            | .some o => (s.run w past).cache.set (s.run w past).now token o
            | .none => (s.run w past).cache := by
  intro w events log
  have hstanding : Standing w s events id token cancelAt := standing_of_begin hfresh honce
  refine ⟨fun o hget => ?_, fun hmiss => ?_, ?_, fun past e hbegun hpast hid => ?_⟩
  · obtain ⟨hheard, hnotices⟩ := hstanding.of_get hget
    refine ⟨hheard, o.result, hnotices, ?_, ?_⟩
    · rintro i rfl; rfl
    · rintro k rfl; exact ⟨_, rfl, ValidationError.denial_ofDenial k⟩
  · obtain ⟨next, hnext, hnotices, hhears⟩ := hstanding.protocol hmiss hkept
    exact ⟨next, hnext, fun next' hnext' => hnext'.unique hnext, hnotices, hhears⟩
  · cases hget : (s.cache.get s.now token).1 with
    | some o => rw [step_begin_hit hget]; rfl
    | none =>
      cases htime : isGivenUp cancelAt s.now with
      | true => rw [step_begin_givenUp hget htime]; rfl
      | false => rw [step_begin_turn hget htime, cache_proceed]; rfl
  · rcases standing_of_isPrefix hfresh honce hpast with ⟨rfl, -⟩ | ⟨-, hstanding, hother⟩
    · exact absurd rfl hbegun
    · refine hstanding.cache_step hother hid fun hgiven => hkept ?_
      refine hgiven.imp (fun h => hpast.subset h) fun h => isGivenUp_mono h ?_
      exact now_le_run ((List.prefix_append ..).trans hpast)

/-- While another validation of the same token is under way, one is answered that its caller is unauthorized where it
asks for the membership, which is an internal failure, and it leaves the cache to the other. -/
theorem protocol_followed_unexpected :
    let policy : Policy := ⟨"acme", true⟩
    let w : Wiring Call.Reply := ⟨.direct, policy⟩
    let alice : Owner := ⟨⟨"alice", 42, .none⟩, false⟩
    let s : Service Call.Reply := (start 10 2).run w [.begin 2 "t" .none]
    let rest : List (Event Call.Reply) :=
      [.answer 1 (.whoAmI "t") (.ok alice), .answer 2 (.whoAmI "t") (.error .unauthorized),
       .answer 1 (.checkMembership "t" "acme" "alice") (.error .unauthorized)]
    let events := .begin 1 "t" (.some 5) :: rest
    let log : List (Answered Call.Reply) :=
      [⟨.whoAmI "t", .ok alice⟩, ⟨.checkMembership "t" "acme" "alice", .error .unauthorized⟩]
    let result : Except ValidationError Identity := .error (.internal [.whileAsking .membership, .tokenRejected])
    s.flights.lookup 1 = .none ∧ (∀ token' cancelAt', .begin 1 token' cancelAt' ∉ rest) ∧
      ¬ GivenUp events (s.run w events) 1 (.some 5) ∧ (s.cache.get s.now "t").1 = .none ∧
      s.heard w 1 events = log ∧ Protocol policy "t" log (.stop result .none) ∧
      s.noticesOf w 1 events =
        [.asked 1 (.whoAmI "t"), .asked 1 (.checkMembership "t" "acme" "alice"), .finished 1 result] := by
  intro policy w alice s rest events log result
  have hfresh : s.flights.lookup 1 = .none := by decide
  have honce : ∀ token' cancelAt', .begin 1 token' cancelAt' ∉ rest := by simp [rest]
  have hkept : ¬ GivenUp events (s.run w events) 1 (.some 5) := by
    rintro (h | h)
    · simp [events, rest] at h
    · revert h; decide
  have hmiss : (s.cache.get s.now "t").1 = .none := by decide
  have hheard : s.heard w 1 events = log := rfl
  have hstop : Protocol policy "t" log (.stop result .none) := by
    have haccepted : ¬ (policy.rejectClassicPats = true ∧ alice.isClassic = true) := by decide
    exact Protocol.failed (e := .unauthorized) (.membership haccepted) (fun h => by cases h)
  obtain ⟨-, hprotocol, -⟩ := protocol_followed hfresh honce hkept
  obtain ⟨next, -, hunique, hnotices, -⟩ := hprotocol hmiss
  rw [hheard] at hunique hnotices
  obtain rfl := hunique _ hstop
  exact ⟨hfresh, honce, hkept, hmiss, hheard, hstop, hnotices⟩

end Service

end TokenGate
