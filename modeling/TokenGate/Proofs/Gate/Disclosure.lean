/-
A denial discloses its kind and nothing else.

Whatever a denial is due to, it is answered with the refusal of its kind (`respond_of_endsIn`, `Denied.eq_refusal`).
A response that tells seconds is the answer to a denial (`Given.denied_of_retryAfter`). So two denials of one kind are
answered alike, whatever is different about the requests, the tokens, the services and the outsides (`denied_alike`).
-/
import TokenGate.Gate.Disclosure
import TokenGate.Proofs.Server.Admission

namespace TokenGate

variable {Q : Type} {Answer : Q → Type}

namespace Gate

variable {d : Denial} {resetAt now : Nat} {headOnly : Bool} {r : Http.Response}

/-! ## Heads -/

theorem headers_head {c : Prop} [Decidable c] (r : Http.Response) : (if c then r.head else r).headers = r.headers := by
  split <;> rfl

theorem status_head {c : Prop} [Decidable c] (r : Http.Response) : (if c then r.head else r).status = r.status := by
  split <;> rfl

/-! ## Refusals -/

instance (result : Except ValidationError Identity) (d : Denial) : Decidable (EndsIn result d) :=
  match result with
  | .error e => decidable_of_iff (e.denial = d) ⟨fun h => h ▸ .failed e, fun h => by cases h; rfl⟩
  | .ok i => decidable_of_iff (¬ ((told i).all fun h => isWritable h.2) = true ∧ d = .internal)
      ⟨fun h => h.2 ▸ .untold (mt canTell_iff.1 h.1), fun h => by cases h; exact ⟨mt canTell_iff.2 ‹_›, rfl⟩⟩

/-- The refusal of a kind. -/
def refusal (d : Denial) (resetAt now : Nat) : Refusal :=
  .denied d (if d = .rateLimited then Budget.retryAfter { Budget.initial with resetAt } now else .none)

/-- What a denial is due to makes no difference. -/
theorem respond_of_endsIn {result : Except ValidationError Identity} (h : EndsIn result d) (b : Budget) (now : Nat) :
    respond b now result = (refusal d b.resetAt now).response := by
  cases h with
  | failed e => rfl
  | untold hnot =>
    rw [respond, answer, identityHeaders?_of_not_canTell hnot]
    rfl

/-- A denial is answered with the refusal of its kind. -/
theorem Denied.eq_refusal (h : Denied d resetAt now headOnly r) :
    r = if headOnly then (refusal d resetAt now).response.head else (refusal d resetAt now).response := by
  cases h with
  | @finished _ _ _ w limit epoch t i e opened s' id result r heffect hfinished hends hafter hresponse =>
    simp only [Traffic.step_eq heffect] at hafter hresponse
    obtain rfl := hafter
    -- The result that is responded to is the one with which the denial ended.
    obtain ⟨n, hn⟩ := t.service.exists_notices_step w e
    rw [hn, Option.mem_toList] at hfinished
    obtain rfl : n = .some (.finished id result) := hfinished
    rw [hn, Option.toList_some, List.map_singleton, List.mem_singleton] at hresponse
    rw [(Traffic.Output.responded.inj hresponse).2, respond_of_endsIn hends]
    rfl
  | @served _ _ _ w outside timeout epoch s s' request peer token r hroute hasks hclaims hbears hends hafter
      hresponse =>
    have hpassed : (Server.passGate w outside s timeout epoch request.headers).1 = s' :=
      (Server.serve_validate hroute).1.symm.trans hafter
    rw [← hpassed, ← hresponse, (Server.serve_validate hroute).2.1,
      Server.passGate_of_screen (screen_of_bears hclaims hbears) hasks, respond_of_endsIn hends]
    simp only [beq_iff_eq]

/-- The parts of the response to a refused request. -/
theorem Refusal.response_eq (r : Refusal) :
    r.response = ⟨r.status, ("content-type", "application/json") ::
        (r.retryAfter.map fun secs => ("retry-after", String.ofList (Text.decimal secs))).toList,
      (Json.object [Json.member "error" (.ofText r.message)]).text⟩ := by
  unfold Refusal.response
  cases r.retryAfter <;> rfl

/-- Seconds are told where the calls are spent and a renewal is known, and nowhere else. -/
theorem retryAfter?_refusal (d : Denial) (resetAt now : Nat) :
    retryAfter? (refusal d resetAt now).response =
      if d = .rateLimited ∧ resetAt ≠ 0 then .some (toString (max 0 ((resetAt : Int) - now))) else .none := by
  have hsecs : String.ofList (Text.decimal (resetAt - now)) = toString (max 0 ((resetAt : Int) - now)) := by
    rw [← ofList_decimalInt, show max 0 ((resetAt : Int) - now) = .ofNat (resetAt - now) by simp; omega]
    rfl
  have hlookup (r : Refusal) :
      retryAfter? r.response = r.retryAfter.map fun secs => String.ofList (Text.decimal secs) := by
    rw [retryAfter?, Refusal.response_eq]
    cases r.retryAfter <;> rfl
  rw [hlookup, refusal, Refusal.retryAfter]
  by_cases hd : d = .rateLimited
  · by_cases hreset : resetAt = 0
    · simp [hd, hreset, Budget.retryAfter]
    · simp [hd, hreset, Budget.retryAfter, hsecs]
  · simp [hd]

/-- What is said of a kind does not depend on the budget, the seconds apart. -/
theorem refusal_alike (d : Denial) (resetAt now resetAt' now' : Nat) :
    let r := (refusal d resetAt now).response
    let r' := (refusal d resetAt' now').response
    r.status = r'.status ∧ r.body = r'.body ∧
      (r.headers.filter fun h => h.1 ≠ "retry-after") = r'.headers.filter fun h => h.1 ≠ "retry-after" := by
  intro r r'
  have hstatus : (refusal d resetAt now).status = (refusal d resetAt' now').status := by cases d <;> rfl
  have hmessage : (refusal d resetAt now).message = (refusal d resetAt' now').message := by cases d <;> rfl
  have hheaders (r : Refusal) : (r.response.headers.filter fun h => h.1 ≠ "retry-after") =
      [("content-type", "application/json")] := by
    rw [Refusal.response_eq]
    cases r.retryAfter <;> rfl
  refine ⟨?_, ?_, (hheaders _).trans (hheaders _).symm⟩
  · simp only [r, r', Refusal.response_eq, hstatus]
  · simp only [r, r', Refusal.response_eq, hmessage]

theorem refusal_eq_of_ne (h : d ≠ .rateLimited) (resetAt now resetAt' now' : Nat) :
    refusal d resetAt now = refusal d resetAt' now' := by
  rw [refusal, refusal, if_neg h, if_neg h]

/-- A response at the gate that tells seconds is a denial because the calls are spent. -/
theorem endsIn_of_retryAfter {b : Budget} {now : Nat} {result : Except ValidationError Identity}
    (h : ∃ x ∈ (respond b now result).headers, x.1 = "retry-after") : EndsIn result .rateLimited := by
  have hplain {r : Refusal} (hr : r.retryAfter = .none) : ¬ ∃ x ∈ r.response.headers, x.1 = "retry-after" := by
    simp [Refusal.response_eq, hr]
  cases result with
  | ok i =>
    refine absurd h ?_
    by_cases htell : CanTell i
    · rw [respond, answer, identityHeaders?_of_canTell htell]
      cases hemail : i.email <;> simp [told, hemail]
    · rw [respond, answer, identityHeaders?_of_not_canTell htell]
      exact hplain rfl
  | error e =>
    by_cases hlimited : e.denial = .rateLimited
    · exact hlimited ▸ .failed e
    · refine absurd h (hplain ?_)
      simp [Refusal.retryAfter, hlimited]

/-- A page tells no seconds. -/
theorem page_retryAfter {s : Service Answer} {unixTime : Nat} (route : Http.Route) :
    ¬ ∃ x ∈ (Server.page s unixTime route).headers, x.1 = "retry-after" := by
  cases route <;> simp [Server.page, Http.Response.empty, Http.Response.ofJson, Http.Response.ofText]

/-- A response that tells seconds is a denial because the calls are spent. -/
theorem Given.denied_of_retryAfter (hgiven : Given resetAt now headOnly r)
    (h : ∃ x ∈ r.headers, x.1 = "retry-after") : Denied .rateLimited resetAt now headOnly r := by
  have hrefused {refused : Refusal} {hs : Http.Headers} (hscreen : screen hs = .error refused) :
      ¬ ∃ x ∈ refused.response.headers, x.1 = "retry-after" := by
    rcases refusal_eq_of_screen hscreen with ⟨name, rfl⟩ | rfl <;> simp [Refusal.response_eq, Refusal.retryAfter]
  cases hgiven with
  | responded hafter hresponse =>
    rcases Traffic.response_cases hresponse with
      ⟨hs, refused, -, hscreen, rfl⟩ | ⟨e, opened, result, budget, now, heffect, hfinished, rfl⟩
    · exact absurd h (hrefused hscreen)
    · exact .finished heffect hfinished (endsIn_of_retryAfter h) hafter hresponse
  | @served _ _ _ w outside timeout epoch s s' request peer r hasks hafter hresponse =>
    cases hroute : Http.Route.ofPath? (Http.Route.pathOf request.target) with
    | none =>
      simp only [Server.serve, hroute] at hresponse
      simp [← hresponse, Http.notFound, Http.Response.empty] at h
    | some route =>
      by_cases hgate : route = .validate
      · subst hgate
        rw [← hresponse, (Server.serve_validate hroute).2.1, headers_head] at h
        cases hscreen : screen request.headers with
        | error refused =>
          rw [Server.passGate_of_refusal hscreen] at h
          exact absurd h (hrefused hscreen)
        | ok token =>
          obtain ⟨hclaims, hbears⟩ := of_screen_eq_ok hscreen
          rw [Server.passGate_of_screen hscreen (hasks token)] at h
          exact .served hroute (hasks token) hclaims hbears (endsIn_of_retryAfter h) hafter hresponse
      · simp only [Server.serve, hroute, hgate, if_false] at hresponse
        refine absurd h ?_
        rw [← hresponse]
        split
        next => simp [Http.methodNotAllowed]
        next =>
          rw [headers_head]
          exact page_retryAfter route

/-! ## Denials -/

/-- **A denial discloses its kind and nothing else.** Two denials of one kind have the same status, the same headers and
the same body, whatever the requests, the tokens, the services, the providers and their answers are, and whichever
internal failure an internal one is. What can be different is that only the head is given, without the body, and where
the calls are spent, the seconds after which to try again: these are told if a renewal is known, and they depend on the
time and the renewal alone. No other response tells any seconds. -/
theorem denied_alike :
    (∀ {d : Denial} {resetAt now resetAt' now' : Nat} {headOnly headOnly' : Bool} {r r' : Http.Response},
      Denied d resetAt now headOnly r → Denied d resetAt' now' headOnly' r' →
        r.status = r'.status ∧ (headOnly = headOnly' → r.body = r'.body) ∧
        (r.headers.filter fun h => h.1 ≠ "retry-after") = (r'.headers.filter fun h => h.1 ≠ "retry-after") ∧
        (d ≠ .rateLimited ∨ resetAt = resetAt' ∧ now = now' → r.headers = r'.headers)) ∧
    (∀ {d : Denial} {resetAt now : Nat} {headOnly : Bool} {r : Http.Response}, Denied d resetAt now headOnly r →
      (headOnly = true → r.body = "") ∧ retryAfter? r =
        if d = .rateLimited ∧ resetAt ≠ 0 then .some (toString (max 0 ((resetAt : Int) - now))) else .none) ∧
    ∀ {resetAt now : Nat} {headOnly : Bool} {r : Http.Response}, Given resetAt now headOnly r →
      (∃ h ∈ r.headers, h.1 = "retry-after") → Denied .rateLimited resetAt now headOnly r := by
  refine ⟨fun {d resetAt now resetAt' now' headOnly headOnly' r r'} h h' => ?_,
    fun {d resetAt now headOnly r} h => ?_, fun hgiven h => hgiven.denied_of_retryAfter h⟩
  · obtain ⟨hstatus, hbody, hheaders⟩ := refusal_alike d resetAt now resetAt' now'
    have hsame (hrenewal : d ≠ .rateLimited ∨ resetAt = resetAt' ∧ now = now') :
        refusal d resetAt now = refusal d resetAt' now' := by
      rcases hrenewal with hne | ⟨rfl, rfl⟩
      · exact refusal_eq_of_ne hne ..
      · rfl
    rw [h.eq_refusal, h'.eq_refusal]
    simp only [status_head, headers_head]
    refine ⟨hstatus, ?_, hheaders, fun hrenewal => by rw [hsame hrenewal]⟩
    rintro rfl
    cases headOnly with
    | true => rfl
    | false => exact hbody
  · rw [h.eq_refusal]
    refine ⟨?_, ?_⟩
    · rintro rfl
      rfl
    · rw [retryAfter?, headers_head]
      exact retryAfter?_refusal d resetAt now

/-- Two internal failures and a spent budget. One of the failures has an account of its own, at a gate where another
request waits; the other is a broken page of a forge, which a server gets to hear that asks for somebody else. -/
theorem denied_alike_internal :
    let hs : Http.Headers := [.ofText "Authorization" "Bearer tok"]
    let w : Wiring Call.Reply := ⟨.direct, ⟨"acme", true⟩⟩
    let t : Traffic Call.Reply := (Traffic.ofService (Service.start 60 10)).run w Clock.second 30
      [.request 1 hs, .request 2 hs, .report [.ofText "X-RateLimit-Reset" "40"]]
    let secret : Call.Reply (.whoAmI "tok") := .error (.other [.reported "secret"])
    let failed := t.step w Clock.second 30 (.answer 1 (.whoAmI "tok") secret)
    let limited := t.step w Clock.second 30 (.answer 2 (.whoAmI "tok") (.error .rateLimited))
    let github : Forge.Api := ⟨⟨"https".toList, [], [], .some (.name "api.github.com".toList), .none, .segments [[]],
      .none, .none⟩⟩
    let w' : Wiring Forge.Answer := ⟨Forge.provider github true, ⟨"other", false⟩⟩
    let request : Http.Request := ⟨"POST", "/validate?next=/", [.ofText "authorization" "Bearer another"]⟩
    let outside : Outside Forge.Answer := fun _ => .some (Clock.second, .received ⟨500, [], .some [0x62, 0x6F, 0x6F]⟩)
    let served := Server.serve w' outside (Service.start 0 1) (10 * Clock.second) 7 request .none
    (∀ r, .responded 1 r ∈ failed.2 → Denied .internal 40 30 false r ∧ r.status = served.2.1.response.status ∧
      r.body = served.2.1.response.body ∧ r.headers = served.2.1.response.headers ∧ retryAfter? r = .none) ∧
    Denied .internal 0 8 false served.2.1.response ∧
    ∃ r, .responded 2 r ∈ limited.2 ∧ Denied .rateLimited 40 30 false r ∧ retryAfter? r = .some "10" := by
  intro hs w t secret failed limited github w' request outside served
  obtain ⟨halike, hseconds, hgiven⟩ := denied_alike
  have hserved : Denied .internal 0 8 false served.2.1.response := by
    have hroute : Http.Route.ofPath? (Http.Route.pathOf request.target) = .some .validate := by decide
    have hclaims : ¬ ClaimsIdentity request.headers := injected?_eq_none_iff.1 (by decide)
    have hbears : Bears request.headers "another" := bearer?_eq_some_iff.1 (by decide)
    have hasks := Forge.resolve_asksAtMost github true w'.policy "another"
    have hends : EndsIn ((Service.start 0 1).validated w' outside (10 * Clock.second) "another") .internal := by
      decide
    have hserved : Denied .internal served.1.budget.resetAt (served.1.unixTime 7) (request.method == "HEAD")
        served.2.1.response := .served hroute hasks hclaims hbears hends rfl rfl
    have hafter : served.1.budget.resetAt = 0 ∧ served.1.unixTime 7 = 8 := by decide
    rwa [hafter.1, hafter.2, show (request.method == "HEAD") = false by decide] at hserved
  have hfailed : t.step w Clock.second 30 (.answer 1 (.whoAmI "tok") secret) = failed := rfl
  have hlimited : t.step w Clock.second 30 (.answer 2 (.whoAmI "tok") (.error .rateLimited)) = limited := rfl
  have heffect : t.effect? Clock.second (.answer 1 (.whoAmI "tok") secret) =
      .some (.answer 1 (.whoAmI "tok") secret, []) := rfl
  obtain ⟨result, hfinished, hends⟩ : ∃ result, .finished 1 result ∈
      (t.service.step w (.answer 1 (.whoAmI "tok") secret)).2 ∧ EndsIn result .internal := by
    have hany : ((t.service.step w (.answer 1 (.whoAmI "tok") secret)).2.any fun
        | .finished id result => id = 1 ∧ EndsIn result .internal
        | .asked _ _ => false) = true := by decide
    obtain ⟨n, hn, hfinished⟩ := List.any_eq_true.1 hany
    cases n with
    | finished id result =>
      obtain ⟨rfl, hends⟩ := of_decide_eq_true hfinished
      exact ⟨result, hn, hends⟩
    | asked => cases hfinished
  have hafter : failed.1.service.budget.resetAt = 40 ∧ failed.1.service.unixTime 30 = 30 ∧
      limited.1.service.budget.resetAt = 40 ∧ limited.1.service.unixTime 30 = 30 := by
    decide
  obtain ⟨hresetAt, hnow, hresetAt', hnow'⟩ := hafter
  refine ⟨fun r hr => ?_, hserved, ?_⟩
  · have hinternal : Denied .internal failed.1.service.budget.resetAt (failed.1.service.unixTime 30) false r :=
      .finished heffect hfinished hends (by rw [hfailed]) hr
    rw [hresetAt, hnow] at hinternal
    obtain ⟨hstatus, hbody, -, hheaders⟩ := halike hinternal hserved
    exact ⟨hinternal, hstatus, hbody rfl, hheaders (.inl nofun), (hseconds hinternal).2⟩
  · let r : Http.Response := ⟨429, [("content-type", "application/json"), ("retry-after", "10")],
      "\x7b\"error\":\"rate limit exceeded, try again later\"\x7d"⟩
    have hr : .responded 2 r ∈ limited.2 := by decide
    have hspent : Denied .rateLimited limited.1.service.budget.resetAt (limited.1.service.unixTime 30) false r :=
      hgiven (.responded (by rw [hlimited]) hr) ⟨("retry-after", "10"), by decide, rfl⟩
    rw [hresetAt', hnow'] at hspent
    exact ⟨r, hr, hspent, (hseconds hspent).2⟩

/-- Not even the body is the same if only the head is asked for: one unknown token is refused twice. -/
theorem denied_headless :
    let w : Wiring Call.Reply := ⟨.direct, ⟨"acme", true⟩⟩
    let outside : Outside Call.Reply := fun
      | .whoAmI _ => .some (0, .error .unauthorized)
      | .checkMembership _ _ _ => .none
      | .listGroups _ _ => .none
    let hs : Http.Headers := [.ofText "Authorization" "Bearer tok"]
    let request (method : String) : Http.Request := ⟨method, "/validate", hs⟩
    let get := Server.serve w outside (Service.start 0 1) (10 * Clock.second) 0 (request "GET") .none
    let head := Server.serve w outside (Service.start 0 1) (10 * Clock.second) 0 (request "HEAD") .none
    Denied .unauthorized 0 0 false get.2.1.response ∧ Denied .unauthorized 0 0 true head.2.1.response ∧
      get.2.1.response.body = "\x7b\"error\":\"access denied\"\x7d" ∧ head.2.1.response.body = "" ∧
      ¬ ∀ {d resetAt now headOnly headOnly' r r'}, Denied d resetAt now headOnly r →
        Denied d resetAt now headOnly' r' → r.status = r'.status ∧ r.body = r'.body ∧ r.headers = r'.headers := by
  intro w outside hs request get head
  have hdenied (method : String) : Denied .unauthorized 0 0 (method == "HEAD")
      (Server.serve w outside (Service.start 0 1) (10 * Clock.second) 0 (request method) .none).2.1.response := by
    have hroute : Http.Route.ofPath? (Http.Route.pathOf (request method).target) = .some .validate :=
      show Http.Route.ofPath? (Http.Route.pathOf "/validate") = .some .validate by decide
    have hclaims : ¬ ClaimsIdentity hs := injected?_eq_none_iff.1 (by decide)
    have hbears : Bears hs "tok" := bearer?_eq_some_iff.1 (by decide)
    have hasks := (Validation.direct_asksAtMost w.policy "tok").mono (by decide : 3 ≤ Simulation.tasksPerJob)
    have hends : EndsIn ((Service.start 0 1).validated w outside (10 * Clock.second) "tok") .unauthorized := by
      decide
    let served := Server.serve w outside (Service.start 0 1) (10 * Clock.second) 0 (request method) .none
    have hdenied : Denied .unauthorized served.1.budget.resetAt (served.1.unixTime 0) (method == "HEAD")
        served.2.1.response := .served hroute hasks hclaims hbears hends rfl rfl
    have hafter : served.1 = (Server.passGate w outside (Service.start 0 1) (10 * Clock.second) 0 hs).1 :=
      (Server.serve_validate hroute).1
    have hnow : served.1.budget.resetAt = 0 ∧ served.1.unixTime 0 = 0 := by
      rw [hafter]
      decide
    rwa [hnow.1, hnow.2] at hdenied
  have hget : Denied .unauthorized 0 0 false get.2.1.response := hdenied "GET"
  have hhead : Denied .unauthorized 0 0 true head.2.1.response := hdenied "HEAD"
  have hbody : get.2.1.response.body = "\x7b\"error\":\"access denied\"\x7d" := by decide
  have hnone : head.2.1.response.body = "" := by decide
  refine ⟨hget, hhead, hbody, hnone, fun halike => ?_⟩
  have hsame := (halike hget hhead).2.1
  rw [hbody, hnone] at hsame
  exact absurd hsame (by decide)

end Gate

end TokenGate
