/-
Who is let through, and what anybody else is told.

The one request that is attended to goes from question to question until it comes to a resolution or its time is over
(`attend_proceed`), so it is answered with what the validation of its token comes to within that time
(`passGate_of_screen`). With what the gate owes to each result, this settles every response to a request for the gate
(`validate_answered`).
-/
import TokenGate.Proofs.Forge.Listing
import TokenGate.Proofs.Gate.Screening
import TokenGate.Proofs.Service.Standing
import TokenGate.Simulation.Solo

namespace TokenGate

variable {Q : Type} {Answer : Q → Type}

/-! ## How much is asked -/

/-- A validation asks no more than the three calls of its provider together. -/
theorem Validation.resolve_asksAtMost {p : Provider Answer} {policy : Policy} {token : String} {k m n : Nat}
    (howner : (p.whoAmI token).AsksAtMost k)
    (hmember : ∀ login, (p.checkMembership token policy.org login).AsksAtMost m)
    (hteams : (p.listGroups token policy.org).AsksAtMost n) :
    (Validation.resolve p policy token).AsksAtMost (k + (m + n)) := by
  refine howner.bind fun reply => ?_
  split
  next => exact Exchange.asksAtMost_done _ _
  next =>
    refine (hmember _).bind fun reply => ?_
    split
    next => exact Exchange.asksAtMost_done _ _
    next => exact hteams.bind fun reply => Exchange.asksAtMost_done 0 _

theorem Forge.resolve_asksAtMost (api : Api) (isCounted : Bool) (policy : Policy) (token : String) :
    (Validation.resolve (provider api isCounted) policy token).AsksAtMost Simulation.tasksPerJob := by
  have howner : (whoAmI api token).AsksAtMost 1 := withUrl_asksAtMost fun url =>
    andThen_asksAtMost (ask_asksAtMost .user url token) fun r => Exchange.asksAtMost_done 0 _
  have hmember (login : String) : (checkMembership api token policy.org login).AsksAtMost 1 :=
    withUrl_asksAtMost fun url =>
      andThen_asksAtMost (ask_asksAtMost .membership url token) fun r => Exchange.asksAtMost_done 0 _
  have hresolve := Validation.resolve_asksAtMost (p := provider api isCounted) howner hmember
    (listGroups_asksAtMost api token)
  exact hresolve.mono (by decide)

theorem Validation.direct_asksAtMost (policy : Policy) (token : String) :
    (resolve .direct policy token).AsksAtMost (1 + (1 + 1)) :=
  resolve_asksAtMost (p := .direct) (fun _ => Exchange.asksAtMost_done 0 _) (fun _ _ => Exchange.asksAtMost_done 0 _)
    fun _ => Exchange.asksAtMost_done 0 _

variable [DecidableEq Q]

namespace Server

variable {w : Wiring Answer} {outside : Outside Answer} {limit epoch fuel : Nat} {t : Traffic Answer}

/-! ## The request that is attended to -/

theorem attend_responded {id : Nat} {r : Http.Response} {rest : List (Traffic.Output Q)} :
    attend w outside limit epoch fuel t (.responded id r :: rest) = (t, .some r, []) := by
  cases fuel <;> rfl

theorem attend_asked {id due : Nat} {q : Q} {rest : List (Traffic.Output Q)} {i : Traffic.Input Answer}
    {u : Traffic Answer} (h : upcoming outside t id q = .some (due, i))
    (hwait : (if t.service.now < due then (t.step w limit epoch (.pass (due - t.service.now))).1 else t) = u) :
    attend w outside limit epoch (fuel + 1) t (.asked id q :: rest) =
      let p := u.step w limit epoch i
      let next := attend w outside limit epoch fuel p.1 p.2
      (next.1, next.2.1, q :: next.2.2) := by
  simp only [attend, h, hwait]

/-- The gate where the time of the one request is over at `due`, and what has come of an event for the service. -/
def after (due epoch : Nat) (p : Service Answer × List (Notice Q)) : Traffic Answer × List (Traffic.Output Q) :=
  (⟨p.1, [(0, due)].filter fun x => !Traffic.isFinished p.2 x.1⟩, p.2.map (.ofNotice p.1 epoch))

theorem step_eq_after {i : Traffic.Input Answer} {e : Event Answer} {opened : List (Nat × Nat)} {due : Nat}
    (h : t.effect? limit i = .some (e, opened)) (hdeadlines : opened ++ t.deadlines = [(0, due)]) :
    t.step w limit epoch i = after due epoch (t.service.step w e) := by
  rw [Traffic.step_eq h, hdeadlines]
  rfl

/-- A request whose validation is finished is responded to. -/
theorem attend_finished {s : Service Answer} {due : Nat} (result : Except ValidationError Identity) :
    attend w outside limit epoch fuel (after due epoch (s.finish 0 result)).1
        (after due epoch (s.finish 0 result)).2 =
      (⟨(s.finish (Q := Q) 0 result).1, []⟩,
        .some (Gate.respond s.budget (s.unixTime epoch) result), []) :=
  attend_responded

section

variable {s : Service Answer} {token : String} {q : Q} {resume : Answer q → Exchange Answer Resolution} {due : Nat}

variable (w limit epoch) in
/-- The one request waits until `next`. -/
theorem step_wait {next : Nat}
    (hwait : (⟨s, [(0, due)]⟩ : Traffic Answer).mayWait (next - s.now) = true) :
    (if s.now < next then ((⟨s, [(0, due)]⟩ : Traffic Answer).step w limit epoch (.pass (next - s.now))).1
      else ⟨s, [(0, due)]⟩) = ⟨s.wait (next - s.now), [(0, due)]⟩ := by
  unfold Service.wait
  by_cases hlater : s.now < next
  · have heffect : (⟨s, [(0, due)]⟩ : Traffic Answer).effect? limit (.pass (next - s.now)) =
        .some (.pass (next - s.now), []) := if_pos hwait
    rw [if_pos hlater, if_neg (Nat.sub_ne_zero_of_lt hlater), step_eq_after heffect rfl]
    rfl
  · rw [if_neg hlater, if_pos (Nat.sub_eq_zero_of_le (Nat.le_of_not_lt hlater))]

omit [DecidableEq Q] in
/-- The one request may wait for what comes before its timer goes off. -/
theorem mayWait_of_isBefore {d : Nat} (h : Timer.isBefore s.now (s.now + d) due = true) :
    (⟨s, [(0, due)]⟩ : Traffic Answer).mayWait d = true := by
  by_cases hdue : s.now ≤ due
  · rcases Timer.lt_or_isFar_of_isBefore (Nat.le_add_right s.now d) hdue h with hin | hfar
    · simp [Traffic.mayWait, Traffic.allows, Nat.le_of_lt hin]
    · simp [Traffic.mayWait, hfar]
  · simp [Traffic.mayWait, Traffic.isOverdue, Nat.lt_of_not_le hdue]

omit [DecidableEq Q] in
/-- The one request may wait until its timer goes off. -/
theorem mayWait_goesOff : (⟨s, [(0, due)]⟩ : Traffic Answer).mayWait (Timer.goesOff s.now due - s.now) = true := by
  by_cases hdue : s.now ≤ due
  · simp [Traffic.mayWait, Traffic.allows, Timer.goesOff_eq hdue, Nat.add_sub_cancel' hdue]
  · simp [Traffic.mayWait, Traffic.isOverdue, Nat.lt_of_not_le hdue]

variable (hflight : s.flights.lookup 0 = .some ⟨token, q, resume, .none⟩)

include hflight

/-- An answer that comes in time is gone on with. -/
theorem attend_answered {d : Nat} {a : Answer q} (ha : outside q = .some (d, a))
    (hin : Timer.isBefore s.now (s.now + d) due = true) :
    attend w outside limit epoch (fuel + 1) ⟨s, [(0, due)]⟩ [.asked 0 q] =
      let p := after due epoch ((s.hear w d q a).proceed w 0 token .none (resume a))
      let next := attend w outside limit epoch fuel p.1 p.2
      (next.1, next.2.1, q :: next.2.2) := by
  have hnext : upcoming outside ⟨s, [(0, due)]⟩ 0 q = .some (s.now + d, .answer 0 q a) := by
    simp [upcoming, ha, hin]
  have hlasts : s.now + d - s.now = d := Nat.add_sub_cancel_left ..
  have hwait := step_wait w limit epoch (hlasts.symm ▸ mayWait_of_isBefore hin)
  have hflight : (s.wait d).flights.lookup 0 = .some ⟨token, q, resume, .none⟩ := by rwa [Service.wait_flights]
  rw [attend_asked hnext (congrArg s.wait hlasts ▸ hwait), step_eq_after rfl rfl]
  simp only [Service.step_answer_turn hflight rfl]
  rfl

/-- Where no answer comes in time, the request is given up when its timer goes off. -/
theorem attend_unanswered
    (hlate : ∀ d a, outside q = .some (d, a) → Timer.isBefore s.now (s.now + d) due = false) :
    attend w outside limit epoch (fuel + 1) ⟨s, [(0, due)]⟩ [.asked 0 q] =
      let s' := (s.wait (Timer.goesOff s.now due - s.now)).land 0
      (⟨(s'.finish (Q := Q) 0 (.error .cancelled)).1, []⟩,
        .some (Gate.respond s'.budget (s'.unixTime epoch) (.error .cancelled)), [q]) := by
  have hnext : upcoming outside ⟨s, [(0, due)]⟩ 0 q = .some (Timer.goesOff s.now due, .expire 0) := by
    unfold upcoming
    simp only [List.lookup_cons, beq_self_eq_true, Option.map_some]
    split
    next d a ha => rw [if_neg (Bool.eq_false_iff.1 (hlate d a ha))]
    next => rfl
  have hnow : s.now ≤ Timer.goesOff s.now due := Timer.now_le_goesOff ..
  have hflight : (s.wait (Timer.goesOff s.now due - s.now)).flights.lookup 0 =
      .some ⟨token, q, resume, .none⟩ := by
    rwa [Service.wait_flights]
  have heffect : (⟨s.wait (Timer.goesOff s.now due - s.now), [(0, due)]⟩ : Traffic Answer).effect? limit (.expire 0) =
      .some (.cancel 0, []) := by
    simp [Traffic.effect?, Nat.add_sub_cancel' hnow, Timer.le_goesOff]
  rw [attend_asked hnext (step_wait w limit epoch mayWait_goesOff), step_eq_after heffect rfl]
  simp only [Service.step_cancel_of_lookup hflight, attend_finished]

end

variable (w outside limit epoch) in
/-- The one request that waits is answered with what its exchange comes to before its timer goes off. -/
theorem attend_proceed (token : String) {x : Exchange Answer Resolution} {s : Service Answer} {due : Nat}
    (hasks : x.AsksAtMost fuel) :
    ∃ t' asked, attend w outside limit epoch fuel (after due epoch (s.proceed w 0 token .none x)).1
        (after due epoch (s.proceed w 0 token .none x)).2 =
      (t', .some (Gate.respond t'.service.budget (t'.service.unixTime epoch)
        (Validation.resultOf (x.within outside s.now due))), asked) := by
  induction x generalizing s fuel with
  | done r => exact ⟨_, _, attend_finished (s := s.memorize token r.memo) r.result⟩
  | ask q resume ih =>
    cases fuel with
    | zero => cases hasks
    | succ fuel =>
      obtain ⟨asking, hasking⟩ : ∃ asking, s.proceed w 0 token .none (.ask q resume) = (asking, [.asked 0 q]) :=
        ⟨_, rfl⟩
      have hnow : asking.now = s.now := by
        rw [← Service.proceed_now s 0 token .none (.ask q resume), hasking]
      have hflight : asking.flights.lookup 0 = .some ⟨token, q, resume, .none⟩ := by
        rw [← congrArg (fun p => p.1.flights.lookup 0) hasking]
        simp [Service.proceed]
      rw [hasking]
      by_cases hanswer : ∃ d a, outside q = .some (d, a) ∧ Timer.isBefore s.now (s.now + d) due = true
      · obtain ⟨d, a, ha, hin⟩ := hanswer
        have hnow' : (asking.hear w d q a).now = s.now + d := (Service.wait_now asking d).trans (by rw [hnow])
        rw [Exchange.within_of_isBefore ha hin, ← hnow']
        obtain ⟨t', asked, hrest⟩ := ih a (s := asking.hear w d q a) (hasks a)
        have hattend : attend w outside limit epoch (fuel + 1) ⟨asking, [(0, due)]⟩ [.asked 0 q] = _ :=
          attend_answered hflight ha (hnow ▸ hin)
        simp only [hrest] at hattend
        exact ⟨t', q :: asked, hattend⟩
      · have hlate (d : Nat) (a : Answer q) (ha : outside q = .some (d, a)) :
            Timer.isBefore s.now (s.now + d) due = false :=
          Bool.eq_false_iff.2 fun hin => hanswer ⟨d, a, ha, hin⟩
        rw [Exchange.within_of_late hlate]
        have hattend : attend w outside limit epoch (fuel + 1) ⟨asking, [(0, due)]⟩ [.asked 0 q] = _ :=
          attend_unanswered hflight (hnow ▸ hlate)
        exact ⟨_, _, hattend⟩

/-- A request that is let in has its token validated, if the clock can tell when its time is over. -/
theorem step_request {s : Service Answer} {hs : Http.Headers} {token : String} {due : Nat}
    (hscreen : Gate.screen hs = .ok token) (hdue : Timer.set? s.now limit = .some due) :
    (Traffic.ofService s).step w limit epoch (.request 0 hs) = after due epoch (s.step w (.begin 0 token .none)) := by
  have heffect : (Traffic.ofService s).effect? limit (.request 0 hs) =
      .some (.begin 0 token .none, [(0, due)]) := by
    simp only [Traffic.effect?, hscreen, Traffic.due?, Traffic.ofService, hdue]
  exact step_eq_after heffect rfl

/-- A request that is let in is answered as it is attended to. -/
theorem passGate_of_attend {s : Service Answer} {hs : Http.Headers} {token : String} {due : Nat} {t' : Traffic Answer}
    {r : Http.Response} {asked : List Q} (hscreen : Gate.screen hs = .ok token)
    (hdue : Timer.set? s.now limit = .some due)
    (h : attend w outside limit epoch Simulation.tasksPerJob (after due epoch (s.step w (.begin 0 token .none))).1
      (after due epoch (s.step w (.begin 0 token .none))).2 = (t', .some r, asked)) :
    passGate w outside s limit epoch hs = (t'.service.settle, r, asked) := by
  simp only [passGate, hscreen, step_request hscreen hdue, h]
  rfl

/-- A request that is let in is answered with what the validation of its token comes to in time, and if that is a
refusal, with what the service knows of the budget then. -/
theorem passGate_of_screen {s : Service Answer} {hs : Http.Headers} {token : String}
    (hscreen : Gate.screen hs = .ok token)
    (hasks : (Validation.resolve w.provider w.policy token).AsksAtMost Simulation.tasksPerJob) :
    let gate := passGate w outside s limit epoch hs
    gate.2.1 = Gate.respond gate.1.budget (gate.1.unixTime epoch) (s.validated w outside limit token) := by
  intro gate
  cases hdue : Timer.set? s.now limit with
  | none =>
    have hstep : (Traffic.ofService s).step w limit epoch (.request 0 hs) = (Traffic.ofService s, []) := by
      simp only [Traffic.step, Traffic.effect?, hscreen, Traffic.due?, Traffic.ofService, hdue, Traffic.refusals]
    have hgate : gate = (s.settle, Gate.respond s.budget (s.unixTime epoch) (.error .cancelled), []) := by
      simp only [gate, passGate, hscreen, hstep]
      rfl
    rw [hgate, Service.validated, hdue]
    rfl
  | some due =>
    obtain ⟨t', asked, hattend⟩ : ∃ t' asked, attend w outside limit epoch Simulation.tasksPerJob
        (after due epoch (s.step w (.begin 0 token .none))).1 (after due epoch (s.step w (.begin 0 token .none))).2 =
          (t', .some (Gate.respond t'.service.budget (t'.service.unixTime epoch)
            (s.validated w outside limit token)), asked) := by
      rw [Service.validated, hdue]
      cases hget : (s.cache.get s.now token).1 with
      | some o =>
        rw [Service.step_begin_hit hget]
        exact ⟨_, _, attend_finished (s := { s with cache := (s.cache.get s.now token).2 }) o.result⟩
      | none =>
        rw [Service.step_begin_turn hget rfl]
        exact attend_proceed w outside limit epoch token hasks
    have hgate : gate = _ := passGate_of_attend hscreen hdue hattend
    rw [hgate]
    rfl

theorem passGate_of_refusal {s : Service Answer} {hs : Http.Headers} {r : Gate.Refusal}
    (hscreen : Gate.screen hs = .error r) : passGate w outside s limit epoch hs = (s, r.response, []) := by
  rw [passGate, hscreen]

theorem passGate_answers {s : Service Answer} {hs : Http.Headers}
    (hasks : ∀ token, (Validation.resolve w.provider w.policy token).AsksAtMost Simulation.tasksPerJob) :
    Gate.Answers hs (s.validated w outside limit) (passGate w outside s limit epoch hs).2.1 := by
  by_cases hclaims : Gate.ClaimsIdentity hs
  · obtain ⟨name, hscreen⟩ := Gate.screen_of_claims hclaims
    rw [passGate_of_refusal hscreen]
    exact Gate.answers_of_claims hclaims name
  by_cases hbears : ∃ token, Gate.Bears hs token
  · obtain ⟨token, hbears⟩ := hbears
    rw [passGate_of_screen (Gate.screen_of_bears hclaims hbears) (hasks token)]
    exact Gate.answers_respond hclaims hbears _ _
  · have htokenless (token : String) : ¬ Gate.Bears hs token := fun h => hbears ⟨token, h⟩
    rw [passGate_of_refusal (Gate.screen_of_tokenless hclaims htokenless)]
    exact Gate.answers_of_tokenless hclaims htokenless

/-! ## Every request for the gate -/

section

variable {s : Service Answer} {timeout : Nat} {request : Http.Request} {peer : Option Net.SocketAddress}

/-- The gate takes every method. -/
theorem serve_validate (hroute : Http.Route.ofPath? (Http.Route.pathOf request.target) = .some .validate) :
    (serve w outside s timeout epoch request peer).1 = (passGate w outside s timeout epoch request.headers).1 ∧
      (serve w outside s timeout epoch request peer).2.1.response =
        (if request.method = "HEAD" then (passGate w outside s timeout epoch request.headers).2.1.head
          else (passGate w outside s timeout epoch request.headers).2.1) ∧
      (serve w outside s timeout epoch request peer).2.2 =
        (passGate w outside s timeout epoch request.headers).2.2 := by
  simp [serve, hroute, Http.Route.takes]

/-- **The gate answers as it owes.** Whatever the headers of a request for the gate are, whichever state the service is
in and however the outside answers, a caller is let through exactly where the request claims no identity, bears a token,
and the validation of that token comes in time to an identity that can be told. The response then has the headers that
tell this identity and no others, and every other response has none of them. A request that claims an identity or bears
no token leaves everything as it was, and nothing is asked for it. The provider may be any that asks as little as a
forge does at most (`Forge.resolve_asksAtMost`). -/
theorem validate_answered (hroute : Http.Route.ofPath? (Http.Route.pathOf request.target) = .some .validate)
    (hasks : ∀ token, (Validation.resolve w.provider w.policy token).AsksAtMost Simulation.tasksPerJob) :
    Gate.Answers request.headers (s.validated w outside timeout)
        (serve w outside s timeout epoch request peer).2.1.response ∧
      (Gate.ClaimsIdentity request.headers ∨ (∀ token, ¬ Gate.Bears request.headers token) →
        (serve w outside s timeout epoch request peer).1 = s ∧
          (serve w outside s timeout epoch request peer).2.2 = []) := by
  obtain ⟨hafter, hresponse, hasked⟩ := serve_validate (w := w) (s := s) hroute
  rw [hafter, hresponse, hasked]
  constructor
  · split
    next => exact (passGate_answers hasks).head
    next => exact passGate_answers hasks
  · intro hrefused
    have hscreen : ∃ r, Gate.screen request.headers = .error r := by
      by_cases hclaims : Gate.ClaimsIdentity request.headers
      · exact (Gate.screen_of_claims hclaims).imp' _ fun _ => id
      · exact ⟨_, Gate.screen_of_tokenless hclaims (hrefused.resolve_left hclaims)⟩
    obtain ⟨r, hscreen⟩ := hscreen
    rw [passGate_of_refusal hscreen]
    exact ⟨rfl, rfl⟩

end

/-- A member whose team is told and who bears a token in the first of two Authorization headers. The forge takes six of
the ten seconds. -/
theorem validate_answered_member :
    let github : Forge.Api := ⟨⟨"https".toList, [], [], .some (.name "api.github.com".toList), .none, .segments [[]],
      .none, .none⟩⟩
    let ok (status : Nat) (body : String) : Forge.Delivery :=
      .received ⟨status, [], .some (Text.Utf8.encode body.toList)⟩
    let outside : Outside Forge.Answer := fun q =>
      match q.endpoint with
      | .user => .some (3 * Clock.second, ok 200 "\x7b\"login\":\"alice\",\"id\":-42,\"email\":\"a@b.org\"\x7d")
      | .membership => .some (2 * Clock.second, ok 204 "")
      | .teams => .some (Clock.second, ok 200
          "[\x7b\"slug\":\"ops\",\"organization\":\x7b\"login\":\"ACME\"\x7d\x7d]")
    let w : Wiring Forge.Answer := ⟨Forge.provider github true, ⟨"acme", true⟩⟩
    let request : Http.Request := ⟨"HEAD", "/validate?next=/",
      [.ofText "AUTHORIZATION" "Bearer \t tok ", ⟨"authorization", [0xFF]⟩]⟩
    let s : Service Forge.Answer := Service.start 60 10
    let served := serve w outside s (10 * Clock.second) 0 request .none
    Http.Route.ofPath? (Http.Route.pathOf request.target) = .some .validate ∧
      (∀ token, (Validation.resolve w.provider w.policy token).AsksAtMost Simulation.tasksPerJob) ∧
      Gate.Answers request.headers (s.validated w outside (10 * Clock.second)) served.2.1.response ∧
      served.2.1.response = ⟨200, [("x-auth-user-login", "alice"), ("x-auth-user-id", "-42"),
        ("x-auth-user-org", "acme"), ("x-auth-user-teams", "ops"), ("x-auth-user-email", "a@b.org")], ""⟩ := by
  intro github ok outside w request s served
  have hroute : Http.Route.ofPath? (Http.Route.pathOf request.target) = .some .validate := by decide +kernel
  have hasks (token : String) : (Validation.resolve w.provider w.policy token).AsksAtMost Simulation.tasksPerJob :=
    Forge.resolve_asksAtMost ..
  exact ⟨hroute, hasks, (validate_answered hroute hasks).1, by decide +kernel⟩

/-- What is told need not be ASCII: an organization with an umlaut in its name is told as it is. -/
theorem lets_through_beyond_ascii :
    let c : Config := { Config.preset with org := "äcme" }
    let isAscii (value : String) : Prop := ∀ b ∈ Text.Utf8.encode value.toList, 0x20 ≤ b ∧ b ≤ 0x7E ∨ b = 0x09
    let outside : Outside Call.Reply := fun
      | .whoAmI _ => .some (0, .ok ⟨⟨"alice", 42, .some "alice@example.com"⟩, false⟩)
      | .checkMembership _ _ _ => .some (0, .ok ())
      | .listGroups _ _ => .some (0, .ok [⟨"a", "Äcme"⟩, ⟨"b", "äCME"⟩])
    let w : Wiring Call.Reply := ⟨.direct, c.policy⟩
    let request : Http.Request := ⟨"GET", "/validate", [.ofText "Authorization" "Bearer tok"]⟩
    let s : Service Call.Reply := .ofConfig c
    let served := serve w outside s (10 * Clock.second) 0 request .none
    ¬ (served.2.1.response.status = 200 ↔ ¬ Gate.ClaimsIdentity request.headers ∧
      ∃ token i, Gate.Bears request.headers token ∧ s.validated w outside (10 * Clock.second) token = .ok i ∧
        isAscii i.login ∧ isAscii i.org ∧ isAscii (",".intercalate i.teams) ∧ ∀ e, i.email = .some e → isAscii e) := by
  intro c isAscii outside w request s served hiff
  have hstatus : served.2.1.response.status = 200 := by decide
  have hbearer : Gate.bearer? request.headers = .some "tok" := by decide
  have horg : (s.validated w outside (10 * Clock.second) "tok").toOption.map Identity.org = .some "äcme" := by
    decide
  obtain ⟨-, token, i, hbears, hi, -, hascii, -⟩ := hiff.1 hstatus
  obtain rfl : token = "tok" := Option.some.inj ((Gate.bearer?_eq_some_iff.2 hbears).symm.trans hbearer)
  rw [hi] at horg
  have hname : i.org = "äcme" := Option.some.inj horg
  rw [hname] at hascii
  exact absurd hascii (by decide +kernel)

end Server

end TokenGate
