/-
Responses that say that the budget is spent, and what is kept of them.

Two readers look at the headers of a response. One keeps the number of calls that remain, whichever of its two headers
tells it. The other decides whether the response ends the call, and looks at the older header only. They agree as far
as that header tells a number (`isExhausted_tracked`), and where it tells none, only the status counts
(`isExhausted_newer`).
-/
import TokenGate.Proofs.Service.Health
import TokenGate.Proofs.Forge.Classification
import TokenGate.Validation.Protocol

namespace TokenGate

/-! ## What is kept -/

namespace Budget

variable {hs : Http.Headers} {n : Nat}

/-- The number in the older header is kept, whatever was before. -/
theorem remaining_observe_eq_zero_iff (h : Tells hs "x-ratelimit-remaining" n) (b : Budget) :
    (b.observe hs).remaining = .some 0 ↔ n = 0 := by
  have hreported : (b.observe hs).reported = .some n := by
    rw [observe_reported, reportedRemaining, headerWord_eq_some_iff.2 h]
    rfl
  unfold remaining
  rw [hreported, Option.filter_eq_some_iff, Option.some.injEq]
  constructor
  · intro hzero
    exact hzero.1
  · intro hzero
    exact ⟨hzero, by decide⟩

theorem isExhausted_eq_true_iff {status : Nat} :
    isExhausted status hs = true ↔ status = 429 ∨ Tells hs "x-ratelimit-remaining" 0 := by
  rw [isExhausted, Bool.or_eq_true, beq_iff_eq, beq_iff_eq, headerWord_eq_some_iff]

end Budget

namespace Forge

open Budget

/-! ## Calls -/

/-- What holds of each request of a call: a response to it fails the call as limited exactly if it says that the budget
is spent. -/
def Request.Guarded {α : Type} (_ : Request) (resume : Delivery → Talk α) : Prop :=
  ∀ r : Response, resume (.received r) = .done (.error .rateLimited) ↔ isExhausted r.status r.headers = true

theorem accept_received (e : Endpoint) (r : Response) :
    (Delivery.received r).accept e = .error .rateLimited ∧ isExhausted r.status r.headers = true ∨
      (Delivery.received r).accept e = .ok r ∧ isExhausted r.status r.headers = false := by
  by_cases h : r.Limited
  · exact .inl ⟨accept_of_limited h, isExhausted_iff.2 h⟩
  · exact .inr ⟨accept_of_not_limited h, by rwa [← isExhausted_iff, Bool.not_eq_true] at h⟩

section

variable {α : Type} {read : Response → Except ProviderError α}

theorem withUrl_throughout_guarded {e : Endpoint} {token : String} {url : Except Account Url}
    (hread : ∀ r, read r ≠ .error .rateLimited) :
    (Talk.withUrl url fun u => (ask e u token).andThen fun r => .done (read r)).Throughout Request.Guarded := by
  cases url with
  | error a => trivial
  | ok url =>
    rw [withUrl_ask]
    refine ⟨fun r => ?_, fun d => trivial⟩
    rw [Exchange.done.injEq]
    rcases accept_received e r with ⟨haccept, hexhausted⟩ | ⟨haccept, hexhausted⟩
    · simp [haccept, hexhausted, Except.bind]
    · simp [haccept, hexhausted, Except.bind, hread r]

end

theorem decodeBody_ne_rateLimited {α : Type} {e : Endpoint} {r : Response} {read : Json → Option α} :
    decodeBody e r read ≠ .error .rateLimited := by
  intro h
  obtain ⟨a, ha⟩ := eq_other_of_decodeBody h
  cases ha

theorem readOwner_ne_rateLimited (r : Response) : readOwner r ≠ .error .rateLimited := by
  unfold readOwner
  split
  next => simp
  next =>
    split
    next => simp [unexpected]
    next =>
      cases h : decodeBody .user r UserProfile.ofJson? with
      | ok user => simp [Except.map]
      | error e =>
        intro heq
        obtain rfl : e = .rateLimited := Except.error.inj heq
        exact decodeBody_ne_rateLimited h

theorem readMembership_ne_rateLimited (r : Response) : readMembership r ≠ .error .rateLimited := by
  unfold readMembership unexpected
  split
  next => simp
  next =>
    split
    next => simp
    next => split <;> simp

variable {api : Api} {token : String}

/-- No listing begins with a failure as limited. -/
theorem readPages_ne_rateLimited (left : Nat) (soFar : List Team) (url : Url) :
    readPages api token left soFar url ≠ .done (.error .rateLimited) := by
  cases left with
  | zero => simp [readPages, Talk.fail]
  | succ left =>
    unfold readPages
    split
    next => simp [Talk.fail]
    next =>
      rw [ask_andThen]
      simp

theorem readPages_throughout_guarded (left : Nat) (soFar : List Team) (url : Url) :
    (readPages api token left soFar url).Throughout Request.Guarded := by
  induction left generalizing soFar url with
  | zero => trivial
  | succ left ih =>
    unfold readPages
    split
    next => trivial
    next =>
      rw [ask_andThen]
      refine ⟨fun r => ?guarded, fun d => ?pages⟩
      case guarded =>
        rcases accept_received .teams r with ⟨haccept, hexhausted⟩ | ⟨haccept, hexhausted⟩
        · simp [haccept, hexhausted]
        · simp only [haccept, hexhausted, Bool.false_eq_true, iff_false]
          split
          next e he => simp [ne_rateLimited_of_readPage he]
          next => simp
          next teams next _ => exact readPages_ne_rateLimited left (soFar ++ teams) next
      case pages =>
        dsimp only
        split
        next =>
          split
          next => trivial
          next => trivial
          next => exact ih ..
        next => trivial

theorem listGroups_throughout_guarded (api : Api) (token : String) :
    (listGroups api token).Throughout Request.Guarded := by
  unfold listGroups Talk.withUrl
  split
  next => exact readPages_throughout_guarded ..
  next => trivial

/-- **Spent budgets are told by what is kept.** A response says that the budget is spent exactly if its status is 429, or
a budget that knows nothing keeps from it that no call remains and its older header tells a number. If that header does,
then whatever was known before, the check of the budget does not fail after the response unless the response says so
itself. To each request of a provider, a response fails the call as limited exactly if it says so; and a validation
that hears such a response, behind deliveries that pass, is denied as limited. -/
theorem isExhausted_tracked (r : Response) :
    (isExhausted r.status r.headers = true ↔
      r.status = 429 ∨ (initial.observe r.headers).remaining = .some 0 ∧
        ∃ n, Tells r.headers "x-ratelimit-remaining" n) ∧
    (∀ (b : Budget) (now n : Nat), Tells r.headers "x-ratelimit-remaining" n →
      (Health.checkBudget (b.observe r.headers) now).ok = false → isExhausted r.status r.headers = true) ∧
    (∀ (api : Api) (isCounted : Bool) (c : Call) (log : List (Answered Answer)) (q : Request)
      (resume : Delivery → Exchange Answer c.Reply), ((provider api isCounted).call c).Leads log (.ask q resume) →
      (resume (.received r) = .done (c.failed .rateLimited) ↔ isExhausted r.status r.headers = true)) ∧
    ∀ (apiUrl : String) (api : Api) (isCounted : Bool) (policy : Policy) (token : String) (ds : Nat → Delivery) (k : Nat),
      Api.ofUrl apiUrl = .ok api → Url.isWebScheme api.base.scheme = true ∨ ds 0 = .failed →
      (∀ j < k, (ds j).Passes api policy j) → ds k = .received r → isExhausted r.status r.headers = true →
      Validation.denial? ((Validation.resolve (provider api isCounted) policy token).resultFrom ds).result =
        .some .rateLimited := by
  refine ⟨?agree, fun b now n h hfails => ?kept, fun api isCounted c log q resume hlead => ?call,
    fun apiUrl api isCounted policy token ds k hapi hsend hpass hr hexhausted => ?validation⟩
  case agree =>
    rw [isExhausted_eq_true_iff]
    refine or_congr_right ⟨fun h => ⟨(remaining_observe_eq_zero_iff h _).2 rfl, 0, h⟩, ?_⟩
    rintro ⟨hzero, n, h⟩
    exact (remaining_observe_eq_zero_iff h _).1 hzero ▸ h
  case kept =>
    have hzero := (Health.checkBudget_eq_false_iff.1 hfails).1
    exact isExhausted_eq_true_iff.2 (.inr ((remaining_observe_eq_zero_iff h b).1 hzero ▸ h))
  case call =>
    cases c with
    | whoAmI token => exact ((withUrl_throughout_guarded readOwner_ne_rateLimited).of_leads hlead).1 r
    | checkMembership token org login =>
      exact ((withUrl_throughout_guarded readMembership_ne_rateLimited).of_leads hlead).1 r
    | listGroups token org => exact ((listGroups_throughout_guarded api token).of_leads hlead).1 r
  case validation =>
    refine (denial_resultFrom_iff hapi hsend isCounted).2 ⟨k, hpass, ?_⟩
    rw [hr]
    exact .limited (isExhausted_iff.1 hexhausted)

/-- A forge that tells the calls that remain in the newer header only: the zero is kept, and the check of the budget
fails, but the response does not say that the budget is spent, and the validation ends as a failure of the service. -/
theorem isExhausted_newer :
    let github : Api := ⟨⟨"https".toList, [], [], .some (.name "api.github.com".toList), .none, .segments [[]], .none,
      .none⟩⟩
    let r : Response := ⟨403, [.ofText "RateLimit-Remaining" "0"], .none⟩
    ¬ (isExhausted r.status r.headers = true ↔
        r.status = 429 ∨ (initial.observe r.headers).remaining = .some 0) ∧
      (initial.observe r.headers).remaining = .some 0 ∧
      Health.checkBudget (initial.observe r.headers) 1000 = ⟨false, "rate limit exhausted"⟩ ∧
      isExhausted r.status r.headers = false ∧
      Validation.denial? ((Validation.resolve (provider github true) ⟨"acme", true⟩ "t").resultFrom
        fun _ => .received r).result = .some .internal := by
  decide

end Forge

end TokenGate
