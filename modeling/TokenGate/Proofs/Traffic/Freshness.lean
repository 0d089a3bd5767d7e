/-
How old the decisions are that the gate responds with.

`Punctual` says that each validation under way has a deadline that has not passed, and that the deadline is no later
than the first whole millisecond at which the time of a request is over. Every input keeps it (`Punctual.step`): time
does not pass a deadline, and only the end of the validation takes it away. So no validation is under way for longer
than a request may take (`punctual_run`), and what a response says is no older than that and the lifetime of an entry
together (`response_recent`). At its deadline a request can always be given up (`step_expire`), so that time is never
stuck there (`exists_allows`).

A timer that is far holds up the deadlines, and a deadline within a millisecond is late: then a response may be older
(`response_stale`).
-/
import TokenGate.Proofs.Service.Standing
import TokenGate.Proofs.Traffic.Courses
import TokenGate.Server

namespace TokenGate

variable {Q : Type} {Answer : Q → Type}

namespace Traffic

/-! ## Deadlines -/

section

variable {limit : Nat} {t : Traffic Answer} {i : Input Answer} {e : Event Answer} {opened : List (Nat × Nat)}

/-- The effect of an input does not pass a deadline, the one that it sets included. -/
theorem now_le_of_effect? (h : t.effect? limit i = .some (e, opened)) (hreach : ∀ d, i = .pass d → d ≤ Timer.reach)
    (hahead : ∀ x ∈ t.deadlines, t.service.now ≤ x.2) {x : Nat × Nat} (hx : x ∈ opened ++ t.deadlines) :
    t.service.now + e.elapsed ≤ x.2 := by
  have hallows {d : Nat} (h : t.allows d = true) (hx : x ∈ t.deadlines) : t.service.now + d ≤ x.2 :=
    of_decide_eq_true (List.all_eq_true.1 h x hx)
  cases i with
  | request id hs =>
    simp only [effect?] at h
    split at h <;> cases h
    next _ hdue =>
      rcases List.mem_cons.1 hx with rfl | hx
      · exact (Timer.set?_bounds hdue).1
      · exact hahead x hx
  | expire id => simp only [effect?] at h; split at h <;> cases h; exact hahead x hx
  | pass d =>
    simp only [effect?] at h
    split at h <;> cases h
    next hwait =>
      have hintime : t.isOverdue = false := List.any_eq_false.2 fun y hy => by simpa using hahead y hy
      rw [mayWait, Timer.isFar_eq_false (hreach d rfl), hintime, Bool.or_false, Bool.or_false] at hwait
      exact hallows hwait hx
  | stall d =>
    simp only [effect?] at h
    split at h <;> cases h
    next hwait => exact hallows hwait hx
  | jump d =>
    simp only [effect?] at h
    split at h <;> cases h
    next hempty => rw [List.nil_append, List.isEmpty_iff.1 hempty] at hx; cases hx
  | answer | settle | tick | report | stop => cases h; exact hahead x hx

end

section

variable [DecidableEq Q] {w : Wiring Answer} {limit epoch : Nat} {t : Traffic Answer} {is : List (Input Answer)}
  {i : Input Answer} {e : Event Answer} {opened : List (Nat × Nat)}

/-- After the course `events`, each validation under way has a deadline that its beginning allows, each deadline is that
of a validation under way, and no deadline has passed. -/
structure Punctual (w : Wiring Answer) (s₀ : Service Answer) (limit : Nat) (events : List (Event Answer))
    (t : Traffic Answer) : Prop where
  flights : ∀ id f, (id, f) ∈ t.service.flights →
    ∃ due b, (id, due) ∈ t.deadlines ∧ s₀.BeganAt w events id f.token b ∧ due ≤ Clock.firing (b + limit)
  underway : ∀ x ∈ t.deadlines, ∃ f, (x.1, f) ∈ t.service.flights
  ahead : ∀ x ∈ t.deadlines, t.service.now ≤ x.2

theorem Punctual.start {ttl maxSize : Nat} :
    Punctual w (Service.start ttl maxSize) limit [] (.ofService (Service.start ttl maxSize)) where
  flights id f h := by cases h
  underway x h := by cases h
  ahead x h := by cases h

/-- A deadline that stays after an input is that of a validation that begins or has begun, and is not finished. -/
theorem underway_of_deadline (hunderway : ∀ x ∈ t.deadlines, ∃ f, (x.1, f) ∈ t.service.flights)
    (heffect : t.effect? limit i = .some (e, opened)) {x : Nat × Nat}
    (hx : x ∈ (t.step w limit epoch i).1.deadlines) : ∃ f, (x.1, f) ∈ (t.step w limit epoch i).1.service.flights := by
  rw [step_eq heffect] at hx ⊢
  obtain ⟨hx, hwaits⟩ := List.mem_filter.1 hx
  have hunfinished (result : Except ValidationError Identity) :
      .finished x.1 result ∉ (t.service.step w e).2 := fun hfinished => by
    rw [isFinished_iff.2 ⟨result, hfinished⟩] at hwaits
    cases hwaits
  refine Service.underway_step ?_ hunfinished
  rcases List.mem_append.1 hx with hx | hx
  · obtain ⟨token, he⟩ := effect?_opened heffect hx
    exact .inl ⟨token, .none, he⟩
  · exact .inr (hunderway x hx)

theorem Punctual.step {s₀ : Service Answer} {events : List (Event Answer)} (h : Punctual w s₀ limit events t)
    (hservice : t.service = s₀.run w events) (haccounted : Service.Accounted w s₀ events)
    (ho : Event.Orderly (events ++ [e])) (heffect : t.effect? limit i = .some (e, opened))
    (hreach : ∀ d, i = .pass d → d ≤ Timer.reach) :
    Punctual w s₀ limit (events ++ [e]) (t.step w limit epoch i).1 := by
  refine ⟨fun id f hf => ?flights, fun x hx => underway_of_deadline h.underway heffect hx, fun x hx => ?ahead⟩
  case flights =>
    rw [step_eq heffect] at hf ⊢
    -- Its deadline stays, because it is not finished.
    have hwaits : isFinished (t.service.step w e).2 id = false := by
      rw [Bool.eq_false_iff]
      intro hfinished
      obtain ⟨result, hfinished⟩ := isFinished_iff.1 hfinished
      obtain ⟨⟨token, cancelAt, rfl⟩, hold⟩ := Service.begins_of_finished hfinished hf
      rw [hservice] at hold
      exact (ho.notMem_of_begin _ _).1 (haccounted.flights id f hold).1
    have hstays {due : Nat} (hm : (id, due) ∈ opened ++ t.deadlines) :
        (id, due) ∈ (opened ++ t.deadlines).filter fun x => !isFinished (t.service.step w e).2 x.1 :=
      List.mem_filter.2 ⟨hm, by simp [hwaits]⟩
    have hold {f' : Flight Answer} (hf' : (id, f') ∈ t.service.flights) (htoken : f'.token = f.token) :
        ∃ due b, (id, due) ∈ opened ++ t.deadlines ∧ s₀.BeganAt w (events ++ [e]) id f.token b ∧
          due ≤ Clock.firing (b + limit) := by
      obtain ⟨due, b, hdue, hb, hle⟩ := h.flights id f' hf'
      rw [htoken] at hb
      exact ⟨due, b, List.mem_append_right _ hdue, hb.of_isPrefix (List.prefix_append ..), hle⟩
    have hnew : ∃ due b, (id, due) ∈ opened ++ t.deadlines ∧
        s₀.BeganAt w (events ++ [e]) id f.token b ∧ due ≤ Clock.firing (b + limit) := by
      rcases Service.mem_flights_step hf with ⟨hf, -⟩ | hturn
      · exact hold hf rfl
      · rcases hturn.begins_or_hears with rfl | ⟨⟨f', hf', htoken⟩, -⟩
        · obtain ⟨-, hs, due, rfl, -, hdue, rfl⟩ := effect?_begin heffect
          refine ⟨due, t.service.now, by simp, ⟨events, f.cancelAt, [], rfl, by rw [hservice]⟩, ?_⟩
          exact (Timer.set?_bounds hdue).2
        · exact hold hf' htoken
    obtain ⟨due, b, hdue, hb, hle⟩ := hnew
    exact ⟨due, b, hstays hdue, hb, hle⟩
  case ahead =>
    rw [step_eq heffect] at hx ⊢
    change (t.service.step w e).1.now ≤ x.2
    rw [Service.step_now]
    exact now_le_of_effect? heffect hreach h.ahead (List.mem_filter.1 hx).1

/-- Where nothing waits for a timer that is far, validations are on time at the gate, and this is why. -/
theorem punctual_run {ttl maxSize : Nat} (hdistinct : Distinct is) (hreach : ∀ d, .pass d ∈ is → d ≤ Timer.reach) :
    Punctual w (Service.start ttl maxSize) limit ((ofService (Service.start ttl maxSize)).course w limit epoch is)
        ((ofService (Service.start ttl maxSize)).run w limit epoch is) ∧
      (Service.start ttl maxSize).OnTime w (limit + (Clock.millisecond - 1))
        ((ofService (Service.start ttl maxSize)).course w limit epoch is) := by
  induction is using List.reverseRecOn with
  | nil =>
    refine ⟨.start, fun l hl id f hf => ?_⟩
    rw [List.prefix_nil.1 hl] at hf
    cases hf
  | append_singleton is i ih =>
    have hbefore : Distinct is := by
      unfold Distinct at hdistinct ⊢
      rw [List.filterMap_append, List.nodup_append] at hdistinct
      exact hdistinct.1
    have ho : Event.Orderly ((ofService (Service.start ttl maxSize)).course w limit epoch (is ++ [i])) :=
      orderly_course hdistinct
    have hservice : ((ofService (Service.start ttl maxSize)).run w limit epoch (is ++ [i])).service =
        (Service.start ttl maxSize).run w _ := service_run (is ++ [i])
    obtain ⟨hpunctual, hontime⟩ := ih hbefore fun d hd => hreach d (List.mem_append_left _ hd)
    rw [course_concat] at ho hservice ⊢
    rw [run_concat] at hservice ⊢
    cases heffect : ((ofService (Service.start ttl maxSize)).run w limit epoch is).effect? limit i with
    | none =>
      rw [Option.map_none, Option.toList_none, List.append_nil, step, heffect]
      exact ⟨hpunctual, hontime⟩
    | some x =>
      obtain ⟨e, opened⟩ := x
      rw [heffect, Option.map_some, Option.toList_some] at ho hservice
      rw [Option.map_some, Option.toList_some]
      have hnext : Punctual _ _ _ _
          (((ofService (Service.start ttl maxSize)).run w limit epoch is).step w limit epoch i).1 :=
        hpunctual.step (service_run is) (Service.accounted_of_orderly ho.of_append) ho heffect fun d hd =>
          hreach d (by simp [hd])
      refine ⟨hnext, fun l hl id f hf => ?_⟩
      rcases List.prefix_concat_iff.1 hl with rfl | hl
      · rw [← hservice] at hf ⊢
        obtain ⟨due, b, hdue, hb, hle⟩ := hnext.flights id f hf
        refine ⟨b, hb, Nat.le_trans (hnext.ahead _ hdue) (Nat.le_trans hle ?_)⟩
        exact Nat.le_trans (Clock.firing_le _) (Nat.le_of_eq (Nat.add_assoc ..))
      · exact hontime l hl id f hf

/-! ## Time goes on -/

/-- At its deadline a request is given up and responded to, and it has no deadline any more. -/
theorem step_expire {id due : Nat} (hdue : (id, due) ∈ t.deadlines) (hnow : due ≤ t.service.now)
    (hunderway : ∃ f, (id, f) ∈ t.service.flights) :
    t.effect? limit (.expire id) = .some (.cancel id, []) ∧
    (∃ response, (t.step w limit epoch (.expire id)).2 = [.responded id response] ∧ response.status = 504) ∧
      (t.step w limit epoch (.expire id)).1.deadlines = t.deadlines.filter fun x => x.1 != id := by
  obtain ⟨f, hf⟩ : ∃ f, t.service.flights.lookup id = .some f := by
    obtain ⟨f, hf⟩ := hunderway
    refine Option.ne_none_iff_exists'.1 fun hnone => ?_
    exact absurd (List.lookup_eq_none_iff.1 hnone _ hf) (by simp)
  have heffect : t.effect? limit (.expire id) = .some (.cancel id, []) :=
    if_pos (List.any_eq_true.2 ⟨(id, due), hdue, by simpa using hnow⟩)
  refine ⟨heffect, ?_, ?_⟩
  · rw [step_eq heffect, Service.step_cancel_of_lookup hf]
    exact ⟨_, rfl, rfl⟩
  · rw [step_eq heffect, Service.step_cancel_of_lookup hf]
    exact List.filter_congr fun x _ => by simp [Service.finish, isFinished, bne, eq_comm, beq_eq_decide]

omit [DecidableEq Q] in
theorem Distinct.append_expire {id : Nat} (h : Distinct is) : Distinct (is ++ [.expire id]) := by
  unfold Distinct at h ⊢
  simpa [Input.requestId?, List.filterMap_cons] using h

/-- Time is never stuck at a deadline: when the requests are given up whose time is over, it goes on. -/
theorem exists_allows {ttl maxSize : Nat} (hdistinct : Distinct is) (hreach : ∀ d, .pass d ∈ is → d ≤ Timer.reach) :
    ∃ ids : List Nat, ((ofService (Service.start ttl maxSize)).run w limit epoch (is ++ ids.map .expire)).allows 1 =
      true := by
  -- With every request that is given up there is one deadline less.
  induction hn : ((ofService (Service.start ttl maxSize)).run w limit epoch is).deadlines.length using
    Nat.strong_induction_on generalizing is with
  | h n ih =>
    by_cases hallows : ((ofService (Service.start ttl maxSize)).run w limit epoch is).allows 1 = true
    · exact ⟨[], by rwa [List.map_nil, List.append_nil]⟩
    · obtain ⟨⟨id, due⟩, hx, hpast⟩ := List.all_eq_false.1 (Bool.eq_false_iff.2 hallows)
      have hdue : due ≤ ((ofService (Service.start ttl maxSize)).run w limit epoch is).service.now := by
        simpa [Nat.lt_succ_iff] using hpast
      have hpunctual : Punctual w (Service.start ttl maxSize) limit _
          ((ofService (Service.start ttl maxSize)).run w limit epoch is) := (punctual_run hdistinct hreach).1
      have hless : ((ofService (Service.start ttl maxSize)).run w limit epoch (is ++ [.expire id])).deadlines = _ :=
        (congrArg deadlines (run_concat is (.expire id))).trans (step_expire hx hdue (hpunctual.underway _ hx)).2.2
      have hfewer : ((ofService (Service.start ttl maxSize)).run w limit epoch (is ++ [.expire id])).deadlines.length <
          n := by
        rw [hless, ← hn]
        exact List.length_filter_lt_length_iff_exists.2 ⟨_, hx, by simp⟩
      obtain ⟨ids, hids⟩ := ih _ hfewer hdistinct.append_expire (fun d hd => hreach d (by simpa using hd)) rfl
      exact ⟨id :: ids, by simpa using hids⟩

end

end Traffic

/-! ## Responses -/

namespace Gate

theorem refusal_eq_of_screen {hs : Http.Headers} {r : Refusal} (h : screen hs = .error r) :
    (∃ name, r = .injected name) ∨ r = .noCredentials := by
  unfold screen at h
  split at h
  next name _ => cases h; exact .inl ⟨name, rfl⟩
  next => split at h <;> cases h; exact .inr rfl

theorem status_response (r : Refusal) : r.response.status = r.status := by
  unfold Refusal.response
  split <;> rfl

/-- The response that lets a caller through tells an identity. -/
theorem respond_ok {b : Budget} {now : Nat} {result : Except ValidationError Identity}
    (h : (respond b now result).status = 200) :
    ∃ i, result = .ok i ∧ identityHeaders? i = .some (respond b now result).headers := by
  cases result with
  | ok i =>
    unfold respond answer at h ⊢
    cases hheaders : identityHeaders? i with
    | some headers => exact ⟨i, rfl, by simp only [hheaders]⟩
    | none => simp only [hheaders, status_response] at h; cases h
  | error e =>
    simp only [respond, answer, status_response] at h
    cases e <;> cases h

/-- A request that was let in is turned down because its credential is not accepted, and for nothing else. -/
theorem respond_unauthorized {b : Budget} {now : Nat} {result : Except ValidationError Identity}
    (h : (respond b now result).status = 401) : result = .error .unauthorized := by
  cases result with
  | ok i =>
    unfold respond answer at h
    cases hheaders : identityHeaders? i with
    | some headers => simp only [hheaders] at h; cases h
    | none => simp only [hheaders, status_response] at h; cases h
  | error e =>
    simp only [respond, answer, status_response] at h
    cases e <;> first | rfl | cases h

end Gate

/-! ## Freshness -/

/-- How long a request may take. -/
def Config.requestLimit (c : Config) : Nat :=
  c.requestTimeout * Clock.second

/-- How old a decision may be that is responded with. The timer of a request goes off on a whole millisecond. -/
def Config.maxAge (c : Config) : Nat :=
  c.cacheTtl * Clock.second + (c.requestLimit + (Clock.millisecond - 1))

namespace Traffic

/-- The gate with this configuration when it starts. -/
def ofConfig (c : Config) : Traffic Answer :=
  .ofService (Service.ofConfig c)

section

variable [DecidableEq Q] {p : Provider Answer} {c : Config} {epoch : Nat} {past : List (Input Answer)}
  {i : Input Answer} {id : Nat} {hs : Http.Headers}

/-- What decides a request that is let in is no older than the configuration allows. -/
theorem recentlyBacked_of_finished (hdistinct : Distinct (past ++ [i]))
    (hreach : ∀ d, .pass d ∈ past ++ [i] → d ≤ Timer.reach)
    (hdigests : Event.DistinctDigests ((ofConfig c).course ⟨p, c.policy⟩ c.requestLimit epoch (past ++ [i])))
    (hrequest : .request id hs ∈ past ++ [i]) {e : Event Answer} {opened : List (Nat × Nat)}
    (heffect : ((ofConfig c).run ⟨p, c.policy⟩ c.requestLimit epoch past).effect? c.requestLimit i =
      .some (e, opened))
    {result : Except ValidationError Identity} {o : Outcome} (hdecisive : o.Decisive) (hresult : result = o.result)
    (hfinished : .finished id result ∈
      (((ofConfig c).run ⟨p, c.policy⟩ c.requestLimit epoch past).service.step ⟨p, c.policy⟩ e).2) :
    ∃ token, Gate.screen hs = .ok token ∧
      (Service.ofConfig c).RecentlyBacked ⟨p, c.policy⟩
        ((ofConfig c).course ⟨p, c.policy⟩ c.requestLimit epoch (past ++ [i])) token o c.maxAge
        ((ofConfig c).run ⟨p, c.policy⟩ c.requestLimit epoch (past ++ [i])).service.now := by
  have ho : Event.Orderly ((ofConfig c).course ⟨p, c.policy⟩ c.requestLimit epoch (past ++ [i])) :=
    orderly_course hdistinct
  have hontime : (Service.ofConfig c).OnTime ⟨p, c.policy⟩ (c.requestLimit + (Clock.millisecond - 1))
      ((ofConfig c).course ⟨p, c.policy⟩ c.requestLimit epoch (past ++ [i])) :=
    (punctual_run hdistinct hreach).2
  have hservice : ((ofConfig c).run ⟨p, c.policy⟩ c.requestLimit epoch past).service =
      (Service.ofConfig c).run ⟨p, c.policy⟩ ((ofConfig c).course ⟨p, c.policy⟩ c.requestLimit epoch past) :=
    service_run past
  have hnow : ((ofConfig c).run ⟨p, c.policy⟩ c.requestLimit epoch (past ++ [i])).service.now =
      ((ofConfig c).run ⟨p, c.policy⟩ c.requestLimit epoch past).service.now := by
    rw [run_concat, step_eq heffect, Service.step_now, Service.elapsed_eq_zero_of_mem hfinished, Nat.add_zero]
  have hcourse : (ofConfig c).course ⟨p, c.policy⟩ c.requestLimit epoch (past ++ [i]) =
      (ofConfig c).course ⟨p, c.policy⟩ c.requestLimit epoch past ++ [e] := by
    rw [course_concat, heffect, Option.map_some, Option.toList_some]
  rw [hnow, hservice]
  rw [hservice] at hfinished
  rw [hcourse] at ho hontime hdigests ⊢
  obtain ⟨token, cancelAt, hbegin, hrecent⟩ :=
    Service.recentlyBacked_of_finished ho hdigests hontime hdecisive hresult hfinished
  rw [← hcourse] at hbegin
  obtain ⟨hs', hm, hscreen⟩ := exists_request_of_begin hbegin
  obtain rfl := hdistinct.request_unique hrequest hm
  exact ⟨token, hscreen, hrecent⟩

/-- **Decisions are fresh.** Any number of requests come to the gate and any validations are under way, whatever the
provider answers and however long it takes, but nothing waits for a timer farther ahead than timers reach. A response
that lets a caller through tells an identity that one validation of the caller's token has heard of, in all three calls
of the provider, and one that turns down the token goes back to a validation that heard it be rejected. All that this
validation asked, it asked no longer ago than the lifetime of an entry and the time of a request together, up to the
next whole millisecond. So what has changed at the provider since is believed no longer than that. -/
theorem response_recent (hdistinct : Distinct (past ++ [i])) (hreach : ∀ d, .pass d ∈ past ++ [i] → d ≤ Timer.reach)
    (hdigests : Event.DistinctDigests ((ofConfig c).course ⟨p, c.policy⟩ c.requestLimit epoch (past ++ [i])))
    (hrequest : .request id hs ∈ past ++ [i]) {response : Http.Response}
    (hresponse : .responded id response ∈
      (((ofConfig c).run ⟨p, c.policy⟩ c.requestLimit epoch past).step ⟨p, c.policy⟩ c.requestLimit epoch i).2) :
    let events := (ofConfig c).course ⟨p, c.policy⟩ c.requestLimit epoch (past ++ [i])
    let now := ((ofConfig c).run ⟨p, c.policy⟩ c.requestLimit epoch (past ++ [i])).service.now
    (response.status = 200 → ∃ token identity, Gate.screen hs = .ok token ∧
        Gate.identityHeaders? identity = .some response.headers ∧
        (Service.ofConfig c).RecentlyBacked ⟨p, c.policy⟩ events token (.authorized identity) c.maxAge now) ∧
      (response.status = 401 → response.body = (Gate.Refusal.denied .unauthorized .none).response.body →
        ∃ token, Gate.screen hs = .ok token ∧
          (Service.ofConfig c).RecentlyBacked ⟨p, c.policy⟩ events token (.denied .unauthorized) c.maxAge now) := by
  intro events now
  rcases response_cases hresponse with ⟨hs', r, rfl, hscreen, rfl⟩ |
    ⟨e, opened, result, budget, unixTime, heffect, hfinished, rfl⟩
  · -- A refusal at the gate neither lets through nor turns down a token.
    rcases Gate.refusal_eq_of_screen hscreen with ⟨name, rfl⟩ | rfl
    · constructor
      · intro h; rw [Gate.status_response] at h; cases h
      · intro h; rw [Gate.status_response] at h; cases h
    · constructor
      · intro h; rw [Gate.status_response] at h; cases h
      · intro _ hbody; exact absurd hbody (by decide)
  · constructor
    · intro h
      obtain ⟨identity, hresult, hheaders⟩ := Gate.respond_ok h
      obtain ⟨token, hscreen, hrecent⟩ :=
        recentlyBacked_of_finished hdistinct hreach hdigests hrequest heffect (.authorized identity) hresult hfinished
      exact ⟨token, identity, hscreen, hheaders, hrecent⟩
    · intro h _
      have hresult : result = (Outcome.denied .unauthorized).result := Gate.respond_unauthorized h
      exact recentlyBacked_of_finished hdistinct hreach hdigests hrequest heffect .unauthorized hresult hfinished

/-- What is asked at the gate is asked in the course that the inputs are for the service. -/
theorem askedAt_of_asked {w : Wiring Answer} {limit epoch : Nat} {t : Traffic Answer} {is rest : List (Input Answer)}
    {q : Q} (his : past ++ i :: rest = is)
    (h : .asked id q ∈ ((t.run w limit epoch past).step w limit epoch i).2) :
    t.service.AskedAt w (t.course w limit epoch is) id q (t.run w limit epoch past).service.now := by
  have hservice : (t.run w limit epoch past).service = t.service.run w (t.course w limit epoch past) := service_run past
  cases heffect : (t.run w limit epoch past).effect? limit i with
  | none =>
    simp only [step, heffect] at h
    cases i with
    | request id' hs =>
      simp only [refusals] at h
      split at h
      next => cases List.mem_singleton.1 h
      next => cases h
    | _ => cases h
  | some x =>
    obtain ⟨e, opened⟩ := x
    rw [step_eq heffect] at h
    obtain ⟨n, hn, heq⟩ := List.mem_map.1 h
    cases n with
    | finished id' result => cases heq
    | asked id' q' =>
      cases heq
      refine ⟨t.course w limit epoch past, e,
        ((t.run w limit epoch past).step w limit epoch i).1.course w limit epoch rest, ?_, ?_, ?_⟩
      · rw [← his, course_append, course, heffect]
        rfl
      · rwa [← hservice]
      · rw [hservice]

/-- If one validation begins and it asks something too early, then nothing is recently backed. -/
theorem not_recentlyBacked {s₀ : Service Answer} {w : Wiring Answer} {events : List (Event Answer)} {token : String}
    {q : Q} {t age now : Nat} (hone : Event.begun events = [(id, token)]) (hasked : s₀.AskedAt w events id q t)
    (hearly : t + age < now) (token' : String) (o : Outcome) : ¬ s₀.RecentlyBacked w events token' o age now := by
  rintro ⟨id', l, hl, -, ⟨b, hb, -⟩, -, hrecent⟩
  obtain ⟨past, cancelAt, rest, heq, -⟩ := hb.of_isPrefix hl
  have hbegin : .begin id' token' cancelAt ∈ events := by rw [heq]; simp
  have hbegun : (id', token') ∈ Event.begun events := Event.mem_begun hbegin
  rw [hone, List.mem_singleton] at hbegun
  cases hbegun
  exact Nat.not_le.2 hearly (hrecent q t hasked)

/-- Of two requests with one token, the second is answered from the cache, shortly before the entry expires. -/
theorem response_recent_cached :
    let c : Config := { Config.preset with org := "acme", cacheTtl := 60, requestTimeout := 10 }
    let hs : Http.Headers := [.ofText "Authorization" "Bearer t"]
    let alice : Owner := ⟨⟨"alice", 42, .none⟩, false⟩
    let past : List (Input Call.Reply) :=
      [.request 1 hs, .answer 1 (.whoAmI "t") (.ok alice), .pass (9 * Clock.second),
       .answer 1 (.checkMembership "t" "acme" "alice") (.ok ()), .answer 1 (.listGroups "t" "acme") (.ok []),
       .pass (59 * Clock.second)]
    let i : Input Call.Reply := .request 2 hs
    let events := (ofConfig c).course ⟨.direct, c.policy⟩ c.requestLimit 0 (past ++ [i])
    let now := ((ofConfig c).run ⟨.direct, c.policy⟩ c.requestLimit 0 (past ++ [i])).service.now
    let response : Http.Response :=
      ⟨200, [("x-auth-user-login", "alice"), ("x-auth-user-id", "42"), ("x-auth-user-org", "acme"),
        ("x-auth-user-teams", "")], ""⟩
    Distinct (past ++ [i]) ∧ (∀ d, .pass d ∈ past ++ [i] → d ≤ Timer.reach) ∧ Event.DistinctDigests events ∧
      .responded 2 response ∈
        (((ofConfig c).run ⟨.direct, c.policy⟩ c.requestLimit 0 past).step ⟨.direct, c.policy⟩ c.requestLimit 0 i).2 ∧
      now = 68 * Clock.second ∧ c.maxAge = 70 * Clock.second + 999999 ∧
      ∃ token identity, Gate.screen hs = .ok token ∧ Gate.identityHeaders? identity = .some response.headers ∧
        (Service.ofConfig c).RecentlyBacked ⟨.direct, c.policy⟩ events token (.authorized identity) c.maxAge now := by
  intro c hs alice past i events now response
  have hdistinct : Distinct (past ++ [i]) := by unfold Distinct; decide
  have hdigests : Event.DistinctDigests events := by
    have hone : ∀ x ∈ Event.begun events, x.2 = "t" := by decide
    intro x hx y hy _
    rw [hone x hx, hone y hy]
  have hresponse : .responded 2 response ∈
      (((ofConfig c).run ⟨.direct, c.policy⟩ c.requestLimit 0 past).step ⟨.direct, c.policy⟩ c.requestLimit 0 i).2 := by
    decide +kernel
  have hnow : now = 68 * Clock.second := by decide +kernel
  have hage : c.maxAge = 70 * Clock.second + 999999 := by decide
  have hrequest : .request 2 hs ∈ past ++ [i] := by simp [i]
  have hreach : ∀ d, .pass d ∈ past ++ [i] → d ≤ Timer.reach := by
    intro d hd
    have hd : d = 9 * Clock.second ∨ d = 59 * Clock.second := by simpa [past, i] using hd
    rcases hd with rfl | rfl <;> decide
  exact ⟨hdistinct, hreach, hdigests, hresponse, hnow, hage,
    (response_recent hdistinct hreach hdigests hrequest hresponse).1 rfl⟩

/-- The call of the provider for the profile takes so long that what it tells is older than the lifetime of an entry
and the time of a request together, and the caller is let through: after 31 years where the time is 30 years, and after
1000.4 milliseconds where it is a second, for a request that comes in the middle of a millisecond. -/
theorem response_stale :
    let c (limit : Nat) : Config := { Config.preset with org := "acme", cacheTtl := 0, requestTimeout := limit }
    let hs : Http.Headers := [.ofText "Authorization" "Bearer t"]
    let alice : Owner := ⟨⟨"alice", 42, .none⟩, false⟩
    let past (before wait : Nat) : List (Input Call.Reply) :=
      [.pass before, .request 1 hs, .pass wait, .answer 1 (.whoAmI "t") (.ok alice),
       .answer 1 (.checkMembership "t" "acme" "alice") (.ok ())]
    let i : Input Call.Reply := .answer 1 (.listGroups "t" "acme") (.ok [])
    let response : Http.Response :=
      ⟨200, [("x-auth-user-login", "alice"), ("x-auth-user-id", "42"), ("x-auth-user-org", "acme"),
        ("x-auth-user-teams", "")], ""⟩
    ∀ x ∈ [(946080000, 0, 977616000 * Clock.second), (1, 500000, 1000400000)],
      let events := (ofConfig (c x.1)).course ⟨.direct, (c x.1).policy⟩ (c x.1).requestLimit 0 (past x.2.1 x.2.2 ++ [i])
      let t := (ofConfig (c x.1)).run ⟨.direct, (c x.1).policy⟩ (c x.1).requestLimit 0 (past x.2.1 x.2.2)
      Distinct (past x.2.1 x.2.2 ++ [i]) ∧ Event.DistinctDigests events ∧
        .responded 1 response ∈ (t.step ⟨.direct, (c x.1).policy⟩ (c x.1).requestLimit 0 i).2 ∧
        (Service.ofConfig (c x.1)).AskedAt ⟨.direct, (c x.1).policy⟩ events 1 (.whoAmI "t") x.2.1 ∧
        ∀ token o, ¬ (Service.ofConfig (c x.1)).RecentlyBacked ⟨.direct, (c x.1).policy⟩ events token o
          ((c x.1).cacheTtl * Clock.second + (c x.1).requestLimit) t.service.now := by
  intro c hs alice past i response
  have hruns : ∀ x ∈ [(946080000, 0, 977616000 * Clock.second), (1, 500000, 1000400000)],
      let w : Wiring Call.Reply := ⟨.direct, (c x.1).policy⟩
      let before := (ofConfig (c x.1)).run w (c x.1).requestLimit 0 [.pass x.2.1]
      let t := (ofConfig (c x.1)).run w (c x.1).requestLimit 0 (past x.2.1 x.2.2)
      Event.begun ((ofConfig (c x.1)).course w (c x.1).requestLimit 0 (past x.2.1 x.2.2 ++ [i])) = [(1, "t")] ∧
        .responded 1 response ∈ (t.step w (c x.1).requestLimit 0 i).2 ∧
        x.2.1 + ((c x.1).cacheTtl * Clock.second + (c x.1).requestLimit) < t.service.now ∧
        before.service.now = x.2.1 ∧
        .asked 1 (.whoAmI "t") ∈ (before.step w (c x.1).requestLimit 0 (.request 1 hs)).2 := by
    decide
  intro x hx events t
  obtain ⟨hone, hresponse, hearly, hnow, hasks⟩ := hruns x hx
  have hasked : (Service.ofConfig (c x.1)).AskedAt ⟨.direct, (c x.1).policy⟩ events 1 (.whoAmI "t") x.2.1 := by
    have hsplit : [.pass x.2.1] ++ .request 1 hs :: ((past x.2.1 x.2.2).drop 2 ++ [i]) = past x.2.1 x.2.2 ++ [i] := rfl
    have h := askedAt_of_asked hsplit hasks
    rw [hnow] at h
    exact h
  have hdistinct : Distinct (past x.2.1 x.2.2 ++ [i]) := List.nodup_singleton 1
  have hdigests : Event.DistinctDigests events := by
    intro y hy z hz _
    rw [hone, List.mem_singleton] at hy hz
    rw [hy, hz]
  exact ⟨hdistinct, hdigests, hresponse, hasked, not_recentlyBacked hone hasked hearly⟩

end

end Traffic

end TokenGate
