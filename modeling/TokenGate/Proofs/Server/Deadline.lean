/-
The deadline of a request.

A validation that is alone takes the same course at the gate (`attend_of_arrival`) and where nobody waits for it
(`drain_of_arrival`), as long as it comes to its end before the deadline: both are `Service.solo`. If it does not, it is
given up at the very instant of the deadline, and what it leaves behind is the passing of time, the questions that it
has asked by then and one validation that is counted as cancelled (`attend_of_late`). The deadline is the first whole
millisecond at which the time of the request is over (`deadline_kept`), and it holds as far as timers reach
(`deadline_unkept`).
-/
import TokenGate.Proofs.Cache.Schedule
import TokenGate.Proofs.Server.Admission

namespace TokenGate

variable {Q : Type} {Answer : Q → Type} {w : Wiring Answer} {outside : Outside Answer} {token : String}

/-! ## The pieces of a course -/

namespace Service

variable {s : Service Answer} {t d : Nat}

@[simp] theorem hear_now (w : Wiring Answer) (s : Service Answer) (d : Nat) (q : Q) (a : Answer q) :
    (s.hear w d q a).now = s.now + d :=
  s.wait_now d

theorem flow_wait (h : s.now + d ≤ t) (hreach : Timer.isFar s.now (s.now + d) = false) :
    (s.wait d).cache.flow t = s.cache.flow t := by
  unfold wait
  split
  next => rfl
  next =>
    simp only [pass, Cache.await, hreach, Bool.false_eq_true, if_false]
    exact Cache.flow_flow (Nat.le_trans (Nat.sub_le _ _) h) s.cache

theorem proceed_ask (w : Wiring Answer) (s : Service Answer) (token : String) (q : Q)
    (resume : Answer q → Exchange Answer Resolution) :
    ∃ asking : Service Answer, s.proceed w 0 token .none (.ask q resume) = (asking, [.asked 0 q]) ∧
      asking.now = s.now ∧ asking.cache = s.cache ∧ asking.validations = s.validations ∧
      asking.flights.lookup 0 = .some ⟨token, q, resume, .none⟩ := by
  refine ⟨_, rfl, ?_, ?_, ?_, ?_⟩
  · unfold countQuestion; split <;> rfl
  · unfold countQuestion; split <;> rfl
  · unfold countQuestion; split <;> rfl
  · simp

end Service

variable [DecidableEq Q]

/-! ## A course in time -/

namespace Server

open Service

variable {limit epoch fuel due : Nat} {s : Service Answer} {x : Exchange Answer Resolution}

/-- What comes to its end before the deadline takes its course. -/
theorem attend_of_arrival {d : Nat} {r : Resolution} (h : x.arrival? outside = .some (d, r))
    (hasks : x.AsksAtMost fuel) (hin : s.now + d < due)
    (hreach : Timer.windowOf due < Timer.windowOf s.now + Timer.slots) :
    attend w outside limit epoch fuel (after due epoch (s.proceed w 0 token .none x)).1
        (after due epoch (s.proceed w 0 token .none x)).2 =
      let solo := s.solo w outside token x
      (⟨solo.1, []⟩, .some (Gate.respond solo.1.budget (solo.1.unixTime epoch) r.result), solo.2) := by
  induction x generalizing s fuel d with
  | done =>
    cases h
    exact attend_finished r.result
  | ask q resume ih =>
    obtain ⟨e, a, d', hanswer, hrest, rfl⟩ := Exchange.arrival?_ask_eq_some_iff.1 h
    cases fuel with
    | zero => cases hasks
    | succ fuel =>
      obtain ⟨asking, hasking, hnow, -, -, hflight⟩ := s.proceed_ask w token q resume
      have hfirst : Timer.isBefore asking.now (asking.now + e) due = true :=
        Timer.isBefore_of_lt (Nat.le_add_right ..) (by omega) (hnow ▸ hreach)
      have hattend : attend w outside limit epoch (fuel + 1) ⟨asking, [(0, due)]⟩ [.asked 0 q] = _ :=
        attend_answered hflight hanswer hfirst
      have hlater : Timer.windowOf s.now ≤ Timer.windowOf (asking.hear w e q a).now :=
        Timer.windowOf_mono (by rw [hear_now]; omega)
      have hrest := ih a (s := asking.hear w e q a) hrest (hasks a) (by rw [hear_now]; omega)
        (Nat.lt_of_lt_of_le hreach (Nat.add_le_add_right hlater _))
      simp only [hrest] at hattend
      simp only [Service.solo, hasking, hanswer]
      exact hattend

end Server

/-! ## A course without a deadline -/

namespace Simulation

open Service

variable {fuel : Nat} {s : Service Answer} {x : Exchange Answer Resolution}

omit [DecidableEq Q] in
/-- A question is on the agenda until it is answered. -/
theorem heed_asked {q : Q} {d : Nat} {a : Answer q} (hanswer : outside q = .some (d, a)) (asked : List Q) :
    heed outside ⟨s, [], asked, []⟩ (.asked 0 q) = ⟨s, [⟨s.now + d, 0, .deliver q a⟩], q :: asked, []⟩ := by
  cases d with
  | zero => simp only [heed, hanswer, Nat.add_zero]
  | succ d => simp only [heed, hanswer, schedule]

theorem drain_answered {q : Q} {resume : Answer q → Exchange Answer Resolution} {d : Nat} {a : Answer q}
    (hflight : s.flights.lookup 0 = .some ⟨token, q, resume, .none⟩) (hanswer : outside q = .some (d, a))
    (asked : List Q) :
    drain w outside (fuel + 1) (heed outside ⟨s, [], asked, []⟩ (.asked 0 q)) =
      let p := (s.hear w d q a).proceed w 0 token .none (resume a)
      drain w outside fuel (p.2.foldl (heed outside) ⟨p.1, [], q :: asked, []⟩) := by
  have hwait : (if s.now < s.now + d then s.pass (s.now + d - s.now) else s) = s.wait d := by
    unfold wait
    rw [Nat.add_sub_cancel_left]
    by_cases hzero : d = 0
    · rw [if_pos hzero, if_neg (by omega)]
    · rw [if_neg hzero, if_pos (by omega)]
  have hflight : (s.wait d).flights.lookup 0 = .some ⟨token, q, resume, .none⟩ := by rwa [wait_flights]
  have hstep : (s.wait d).step w (.answer 0 q a) = (s.hear w d q a).proceed w 0 token .none (resume a) :=
    step_answer_turn hflight rfl
  rw [heed_asked hanswer, drain]
  simp only [List.isEmpty_cons, Bool.false_eq_true, if_false, advance, next?,
    Timer.goesOff_eq (Nat.le_add_right s.now d), hwait, Task.event, hstep, bookCancel]

/-- A validation that comes to its end takes its course. -/
theorem drain_of_arrival {d : Nat} {r : Resolution} (h : x.arrival? outside = .some (d, r))
    (hasks : x.AsksAtMost fuel) (asked : List Q) :
    drain w outside fuel ((s.proceed w 0 token .none x).2.foldl (heed outside)
        ⟨(s.proceed w 0 token .none x).1, [], asked, []⟩) =
      let solo := s.solo w outside token x
      ⟨solo.1, [], solo.2.reverse ++ asked, [(0, r.result)]⟩ := by
  induction x generalizing s fuel d asked with
  | done =>
    cases h
    cases fuel <;> rfl
  | ask q resume ih =>
    obtain ⟨e, a, d', hanswer, hrest, rfl⟩ := Exchange.arrival?_ask_eq_some_iff.1 h
    cases fuel with
    | zero => cases hasks
    | succ fuel =>
      obtain ⟨asking, hasking, -, -, -, hflight⟩ := s.proceed_ask w token q resume
      rw [hasking, List.foldl_cons, List.foldl_nil, drain_answered hflight hanswer, ih a hrest (hasks a)]
      simp only [Service.solo, hasking, hanswer, List.reverse_cons, List.append_assoc, List.singleton_append]

/-- One job is a validation that begins now, and whatever comes of that. -/
theorem runJobs_single (s : Service Answer) :
    runJobs w outside s [⟨token, 0, .none⟩] =
      let p := s.step w (.begin 0 token .none)
      let sim := drain w outside (tasksPerJob - 1) (p.2.foldl (heed outside) ⟨p.1, [], [], []⟩)
      (sim.service.settle, [sim.results.lookup 0], sim.asked.reverse) := by
  have hdrain (sim : Simulation Answer) (h : sim.agenda.isEmpty = false) :
      drain w outside (tasksPerJob * 1) sim = drain w outside (tasksPerJob - 1) (sim.advance w outside) := by
    rw [show tasksPerJob * 1 = tasksPerJob - 1 + 1 from rfl, drain, h, if_neg Bool.false_ne_true]
  unfold runJobs
  simp only [List.zipIdx_cons, List.zipIdx_nil, List.foldl_cons, List.foldl_nil, List.length_singleton, schedule,
    List.map_cons, List.map_nil]
  rw [hdrain _ rfl]
  simp only [advance, next?, Nat.add_zero, Timer.goesOff_eq (Nat.le_refl s.now), Nat.lt_irrefl, if_false, Task.event,
    bookCancel, ofService, Option.map_none]

end Simulation

/-! ## A course that is cut off -/

namespace Server

open Service

variable {limit epoch fuel due : Nat} {s s' : Service Answer} {x : Exchange Answer Resolution}

/-- What is left at `due` of a validation that was under way from `s` on and has been given up. -/
structure Abandoned (s : Service Answer) (due : Nat) (s' : Service Answer) : Prop where
  now_eq : s'.now = due
  flow_eq : s'.cache.flow due = s.cache.flow due
  validations_eq : s'.validations = s.validations.bump .cancelled
  lookup_eq : s'.flights.lookup 0 = .none

omit [DecidableEq Q] in
theorem Abandoned.of_eq {t : Service Answer} (h : Abandoned t due s') (hflow : t.cache.flow due = s.cache.flow due)
    (hvalidations : t.validations = s.validations) : Abandoned s due s' :=
  { h with flow_eq := h.flow_eq.trans hflow, validations_eq := hvalidations ▸ h.validations_eq }

omit [DecidableEq Q] in
theorem abandoned_finish (h : s.now ≤ due) (hreach : Timer.isFar s.now due = false) :
    Abandoned s due (((s.wait (due - s.now)).land 0).finish (Q := Q) 0 (.error .cancelled)).1 where
  now_eq := (s.wait_now _).trans (Nat.add_sub_cancel' h)
  flow_eq := flow_wait (Nat.le_of_eq (Nat.add_sub_cancel' h)) (by rwa [Nat.add_sub_cancel' h])
  validations_eq := congrArg (fun t => t.bump Verdict.cancelled) (s.wait_validations _)
  lookup_eq := lookup_land_self

omit [DecidableEq Q] in
/-- What is asked when a question is not answered before `due` is that question. -/
theorem schedule_of_late {q : Q} {resume : Answer q → Exchange Answer Resolution} {t : Nat} (ht : t < due)
    (hlate : ∀ d a, outside q = .some (d, a) → due ≤ t + d) :
    (((Exchange.ask q resume).schedule outside t).filter fun y => y.1 < due).map Prod.snd = [q] := by
  rw [Exchange.schedule, List.filter_cons_of_pos (by simpa using ht), List.map_cons, List.cons.injEq]
  refine ⟨rfl, List.map_eq_nil_iff.2 (List.filter_eq_nil_iff.2 fun y hy => ?_)⟩
  split at hy
  next d a hanswer =>
    have hle := Nat.le_trans (hlate d a hanswer) (Exchange.le_of_mem_schedule hy)
    simpa using hle
  next => cases hy

/-- Whether the outside answers no later than timers reach, or the time is over that early that it does not matter. -/
def Reached (outside : Outside Answer) (now due : Nat) : Prop :=
  Timer.windowOf due = Timer.windowOf now ∨ ∀ q d a, outside q = .some (d, a) → d ≤ Timer.reach

omit [DecidableEq Q] in
theorem Reached.later {now t : Nat} (h : Reached outside now due) (hnow : now ≤ t) (hdue : t ≤ due) :
    Reached outside t due := by
  refine h.imp_left fun hsame => ?_
  exact Nat.le_antisymm (hsame ▸ Timer.windowOf_mono hnow) (Timer.windowOf_mono hdue)

omit [DecidableEq Q] in
/-- What does not come before the deadline does not come first. -/
theorem Reached.isBefore_eq_false {now d : Nat} {q : Q} {a : Answer q} (h : Reached outside now due)
    (hnow : now ≤ due) (hanswer : outside q = .some (d, a)) (hlate : due ≤ now + d) :
    Timer.isBefore now (now + d) due = false := by
  refine Timer.isBefore_eq_false hnow hlate (h.imp_right fun hreach => ?_)
  refine Timer.windowOf_lt_of_le_reach (Nat.le_trans ?_ (Clock.le_firing _))
  exact Nat.add_le_add_left (hreach q d a hanswer) now

/-- What does not come to its end before the deadline is given up then. -/
theorem attend_of_late (hlate : ∀ d r, x.arrival? outside = .some (d, r) → due ≤ s.now + d) (hnow : s.now < due)
    (hasks : x.AsksAtMost fuel) (hwhole : Clock.firing due = due)
    (hreach : Timer.windowOf due < Timer.windowOf s.now + Timer.slots) (hreached : Reached outside s.now due) :
    ∃ s' budget now, Abandoned s due s' ∧
      attend w outside limit epoch fuel (after due epoch (s.proceed w 0 token .none x)).1
          (after due epoch (s.proceed w 0 token .none x)).2 =
        (⟨s', []⟩, .some (Gate.respond budget now (.error .cancelled)),
          ((x.schedule outside s.now).filter fun y => y.1 < due).map Prod.snd) := by
  induction x generalizing s fuel with
  | done r => exact absurd (hlate 0 r rfl) (Nat.not_le.2 hnow)
  | ask q resume ih =>
    cases fuel with
    | zero => cases hasks
    | succ fuel =>
      obtain ⟨asking, hasking, hsame, hcache, hvalidations, hflight⟩ := s.proceed_ask w token q resume
      rw [hasking]
      by_cases hanswer : ∃ d a, outside q = .some (d, a) ∧ s.now + d < due
      · obtain ⟨d, a, hanswer, hin⟩ := hanswer
        have hfirst : Timer.isBefore asking.now (asking.now + d) due = true :=
          Timer.isBefore_of_lt (Nat.le_add_right ..) (hsame ▸ hin) (hsame ▸ hreach)
        have hattend : attend w outside limit epoch (fuel + 1) ⟨asking, [(0, due)]⟩ [.asked 0 q] = _ :=
          attend_answered hflight hanswer hfirst
        have hnow' : (asking.hear w d q a).now = s.now + d := by rw [hear_now, hsame]
        have hlater : Timer.windowOf s.now ≤ Timer.windowOf (s.now + d) := Timer.windowOf_mono (Nat.le_add_right ..)
        obtain ⟨s', budget, now, hleft, hrest⟩ := ih a (s := asking.hear w d q a)
          (fun d' r h => by
            have hle := hlate (d + d') r (Exchange.arrival?_ask_eq_some_iff.2 ⟨d, a, d', hanswer, h, rfl⟩)
            omega)
          (by omega) (hasks a) (hnow' ▸ Nat.lt_of_lt_of_le hreach (Nat.add_le_add_right hlater _))
          (hnow' ▸ hreached.later (Nat.le_add_right ..) (Nat.le_of_lt hin))
        have hnear : Timer.isFar asking.now (asking.now + d) = false :=
          Timer.isFar_eq_false_of_le hwhole (hsame ▸ Nat.le_of_lt hin) (hsame ▸ hreach)
        refine ⟨s', budget, now, hleft.of_eq ?_ ?_, ?_⟩
        · exact (flow_wait (by omega) hnear).trans (by rw [hcache])
        · exact (asking.wait_validations d).trans hvalidations
        · simp only [hrest, hnow'] at hattend
          rw [Exchange.schedule, List.filter_cons_of_pos (by simpa using hnow), List.map_cons, hanswer]
          exact hattend
      · have hunanswered (d : Nat) (a : Answer q) (ha : outside q = .some (d, a)) : due ≤ s.now + d :=
          Nat.le_of_not_lt fun hin => hanswer ⟨d, a, ha, hin⟩
        have hdue : asking.now ≤ due := hsame ▸ Nat.le_of_lt hnow
        have hattend : attend w outside limit epoch (fuel + 1) ⟨asking, [(0, due)]⟩ [.asked 0 q] = _ :=
          attend_unanswered hflight fun d a ha =>
            hsame ▸ hreached.isBefore_eq_false (Nat.le_of_lt hnow) ha (hunanswered d a ha)
        rw [Timer.goesOff_eq hdue] at hattend
        rw [schedule_of_late hnow hunanswered]
        have hnear : Timer.isFar asking.now due = false :=
          Timer.isFar_eq_false_of_le hwhole (Nat.le_refl due) (hsame ▸ hreach)
        exact ⟨_, _, _, (abandoned_finish hdue hnear).of_eq (by rw [hcache]) hvalidations, hattend⟩

/-! ## The deadline of a request -/

section

variable {hs : Http.Headers} {d : Nat}

omit [DecidableEq Q] in
theorem solo_now {r : Resolution} (h : x.arrival? outside = .some (d, r)) :
    (s.solo w outside token x).1.now = s.now + d := by
  induction x generalizing s d with
  | done =>
    cases h
    exact proceed_now ..
  | ask q resume ih =>
    obtain ⟨e, a, d', hanswer, hrest, rfl⟩ := Exchange.arrival?_ask_eq_some_iff.1 h
    obtain ⟨asking, hasking, hnow, -⟩ := s.proceed_ask w token q resume
    simp only [Service.solo, hasking, hanswer, ih a hrest, hear_now, hnow, Nat.add_assoc]

/-- The validation of a token that comes to its end takes the same course at the gate, before the deadline, and where it
has none. -/
theorem exists_course (h : s.duration? w outside token = .some d)
    (hasks : (Validation.resolve w.provider w.policy token).AsksAtMost (Simulation.tasksPerJob - 1)) :
    ∃ s' result asked, s'.now = s.now + d ∧
      Simulation.runJobs w outside s [⟨token, 0, .none⟩] = (s'.settle, [.some result], asked) ∧
      ∀ limit due epoch, s.now + d < due → Timer.windowOf due < Timer.windowOf s.now + Timer.slots →
        attend w outside limit epoch Simulation.tasksPerJob (after due epoch (s.step w (.begin 0 token .none))).1
            (after due epoch (s.step w (.begin 0 token .none))).2 =
          (⟨s', []⟩, .some (Gate.respond s'.budget (s'.unixTime epoch) result), asked) := by
  unfold duration? at h
  rw [Simulation.runJobs_single]
  split at h
  next o hget =>
    cases h
    rw [step_begin_hit hget]
    refine ⟨(finish (Q := Q) { s with cache := (s.cache.get s.now token).2 } 0 o.result).1, o.result, [], rfl, rfl, ?_⟩
    exact fun limit due epoch _ _ => attend_finished o.result
  next hget =>
    obtain ⟨⟨d, r⟩, harrival, rfl⟩ := Option.map_eq_some_iff.1 h
    rw [step_begin_turn hget rfl]
    generalize hreading : ({ s with cache := (s.cache.get s.now token).2 } : Service Answer) = reading
    have hnow : reading.now = s.now := by rw [← hreading]
    let solo := reading.solo w outside token (Validation.resolve w.provider w.policy token)
    refine ⟨solo.1, r.result, solo.2, hnow ▸ solo_now harrival, ?_,
      fun limit due epoch hin hreach => ?_⟩
    · simp only [Simulation.drain_of_arrival harrival hasks, List.append_nil, List.reverse_reverse]
      rfl
    · exact attend_of_arrival harrival (hasks.mono (by decide)) (hnow ▸ hin) (hnow ▸ hreach)

/-- The validation of a token that does not come to its end before the deadline is given up then. -/
theorem exists_abandoned (h : ∀ d, s.duration? w outside token = .some d → due ≤ s.now + d) (hnow : s.now < due)
    (hasks : (Validation.resolve w.provider w.policy token).AsksAtMost Simulation.tasksPerJob)
    (hwhole : Clock.firing due = due) (hreach : Timer.windowOf due < Timer.windowOf s.now + Timer.slots)
    (hreached : Reached outside s.now due) (limit epoch : Nat) :
    ∃ s' budget now, Abandoned { s with cache := (s.cache.get s.now token).2 } due s' ∧
      attend w outside limit epoch Simulation.tasksPerJob (after due epoch (s.step w (.begin 0 token .none))).1
          (after due epoch (s.step w (.begin 0 token .none))).2 =
        (⟨s', []⟩, .some (Gate.respond budget now (.error .cancelled)),
          ((s.schedule w outside token).filter fun y => y.1 < due).map Prod.snd) := by
  unfold duration? at h
  unfold Service.schedule
  cases hget : (s.cache.get s.now token).1 with
  | some o =>
    rw [hget] at h
    exact absurd (h 0 rfl) (Nat.not_le.2 hnow)
  | none =>
    rw [hget] at h
    rw [step_begin_turn hget rfl]
    refine attend_of_late (s := { s with cache := (s.cache.get s.now token).2 }) (fun d r harrival => ?_) hnow hasks
      hwhole hreach hreached
    exact h d (by simp only [harrival, Option.map_some])

end

/-- **Deadlines are kept.** A request that bears a token and may take some seconds has a deadline, the first whole
millisecond at which those seconds are over; they are no more than timers reach, and the clock can tell when they are
over. If the validation of the token would come to its end before the deadline, the request is answered as if there were
none: at the same instant and from the same result, with the same questions asked, and the service is left in the same
state. If it would take longer or never come to its end, the request is answered with the status 504 at the very instant
of the deadline. The questions asked are those that were due before that. To the cache nothing happens but the look-up
and the passing of time, one validation is counted as cancelled, and none is left under way. The outside may answer any
time before that, as far as timers reach, or later still where the deadline is in the present window. -/
theorem deadline_kept {policy : Policy} {outside : Outside Call.Reply} {s : Service Call.Reply} {hs : Http.Headers}
    {token : String} {secs : Nat} (hscreen : Gate.screen hs = .ok token) (hsecs : 0 < secs)
    (hreach : secs * Clock.second ≤ Timer.reach) (htell : s.now + secs * Clock.second < Clock.horizon) (epoch : Nat) :
    let w : Wiring Call.Reply := ⟨.direct, policy⟩
    let due := Clock.firing (s.now + secs * Clock.second)
    let gate := passGate w outside s (deadline s.now secs) epoch hs
    let free := Simulation.runJobs w outside s [⟨token, 0, .none⟩]
    (∀ d, s.duration? w outside token = .some d → s.now + d < due → ∃ result, free.2.1 = [.some result] ∧
      free.1.now = s.now + d ∧ gate = (free.1, Gate.respond free.1.budget (free.1.unixTime epoch) result, free.2.2)) ∧
    (Reached outside s.now due → (∀ d, s.duration? w outside token = .some d → due < s.now + d) →
      (gate.1.now = due ∧ gate.2.1.status = 504) ∧
      gate.1.cache = (s.cache.get s.now token).2.flow due ∧
      gate.1.validations = s.validations.bump .cancelled ∧ gate.1.flights.lookup 0 = .none ∧
      gate.2.2 = ((s.schedule w outside token).filter fun x => x.1 < due).map Prod.snd) := by
  intro w due gate free
  have hasks : (Validation.resolve w.provider w.policy token).AsksAtMost (1 + (1 + 1)) :=
    Validation.resolve_asksAtMost (p := .direct) (fun _ => Exchange.asksAtMost_done 0 _)
      (fun _ _ => Exchange.asksAtMost_done 0 _) fun _ => Exchange.asksAtMost_done 0 _
  have hlimit : deadline s.now secs = secs * Clock.second := (Clock.postponed_eq ..).trans (if_pos htell)
  have hdue : Timer.set? s.now (deadline s.now secs) = .some due := by rw [hlimit, Timer.set?_eq htell]
  have hnow : s.now < due :=
    Nat.lt_of_lt_of_le (Nat.lt_add_of_pos_right (Nat.mul_pos hsecs (by decide))) (Clock.le_firing _)
  have hin : Timer.windowOf due < Timer.windowOf s.now + Timer.slots :=
    Timer.windowOf_lt_of_le_reach (Clock.firing_mono (Nat.add_le_add_left hreach s.now))
  constructor
  · intro d hd hearly
    obtain ⟨s', result, asked, hnow', hfree, hattend⟩ := exists_course hd (hasks.mono (by decide))
    have hgate : gate = _ := passGate_of_attend hscreen hdue (hattend _ due epoch hearly hin)
    have hfree : free = _ := hfree
    rw [hfree, hgate]
    exact ⟨result, rfl, hnow', rfl⟩
  · intro hreached hlate
    obtain ⟨s', budget, now, hleft, hattend⟩ :=
      exists_abandoned (fun d hd => Nat.le_of_lt (hlate d hd)) hnow (hasks.mono (by decide))
        (Clock.firing_firing _) hin hreached (deadline s.now secs) epoch
    have hgate : gate = _ := passGate_of_attend hscreen hdue hattend
    rw [hgate]
    refine ⟨⟨hleft.now_eq, rfl⟩, ?_, hleft.validations_eq, hleft.lookup_eq, rfl⟩
    exact (congrArg s'.cache.flow hleft.now_eq).trans hleft.flow_eq

/-- A validation of nine seconds takes its course within ten, and is cut off in the middle of its second question after
four. -/
theorem deadline_kept_or_cut :
    let sec := Clock.second
    let outside : Outside Call.Reply := fun
      | .whoAmI _ => .some (3 * sec, .ok ⟨⟨"alice", 42, .none⟩, false⟩)
      | .checkMembership _ _ _ => .some (2 * sec, .ok ())
      | .listGroups _ _ => .some (4 * sec, .ok [⟨"sre", "acme"⟩])
    let w : Wiring Call.Reply := ⟨.direct, ⟨"acme", true⟩⟩
    let hs : Http.Headers := [.ofText "Authorization" "Bearer tok"]
    let s : Service Call.Reply := .start (60 * sec) 1000
    let kept := passGate w outside s (deadline s.now 10) 0 hs
    let cut := passGate w outside s (deadline s.now 4) 0 hs
    let free := Simulation.runJobs w outside s [⟨"tok", 0, .none⟩]
    (Gate.screen hs = .ok "tok" ∧ 0 < 4 ∧ 10 * sec ≤ Timer.reach ∧ s.now + 10 * sec < Clock.horizon ∧
        Reached outside s.now (4 * sec)) ∧
      s.duration? w outside "tok" = .some (9 * sec) ∧ kept.1 = free.1 ∧ kept.2.2 = free.2.2 ∧
      cut.1.now = 4 * sec ∧ cut.2.1.status = 504 ∧
      cut.2.2 = [.whoAmI "tok", .checkMembership "tok" "acme" "alice"] := by
  intro sec outside w hs s kept cut free
  have hscreen : Gate.screen hs = .ok "tok" := by
    have hbearer : Gate.bearer? hs = .some "tok" := by decide
    have hinjected : Gate.injected? hs = .none := by decide
    simp only [Gate.screen, hinjected, hbearer]
  have hreach : 10 * sec ≤ Timer.reach := by decide
  have htell : s.now + 10 * sec < Clock.horizon := by decide
  have hreached : Reached outside s.now (4 * sec) := .inl (by decide)
  have hduration : s.duration? w outside "tok" = .some (9 * sec) := by decide
  have hdue : Clock.firing (s.now + 4 * Clock.second) = 4 * sec := by decide
  have hlate (d : Nat) (hd : s.duration? w outside "tok" = .some d) :
      Clock.firing (s.now + 4 * Clock.second) < s.now + d := by
    obtain rfl := Option.some.inj (hduration.symm.trans hd)
    decide
  obtain ⟨hin, -⟩ := deadline_kept hscreen (show 0 < 10 by decide) hreach htell 0
  obtain ⟨result, -, -, hkept⟩ := hin (9 * sec) hduration (by decide)
  have htell' : s.now + 4 * sec < Clock.horizon := by decide
  have hreached' : Reached outside s.now (Clock.firing (s.now + 4 * Clock.second)) := by rwa [hdue]
  obtain ⟨-, hcut⟩ := deadline_kept hscreen (show 0 < 4 by decide) (by decide) htell' 0
  obtain ⟨⟨hnow, hstatus⟩, -, -, -, hasked⟩ := hcut hreached' hlate
  have hkept : kept = (free.1, _, free.2.2) := hkept
  have hcut : cut = passGate ⟨.direct, ⟨"acme", true⟩⟩ outside s (deadline s.now 4) 0 hs := rfl
  refine ⟨⟨hscreen, by decide, hreach, htell, hreached⟩, hduration, by rw [hkept], by rw [hkept], ?_,
    by rw [hcut, hstatus], ?_⟩
  · rw [hcut, hnow, hdue]
  · rw [hcut, hasked]
    decide

/-- A validation may take longer than the seconds of its request and be answered as if there were no deadline: where it
waits for thirty-one years and the request has thirty, because the timer of the answer comes first on its wheel, and
where it waits for 1000.4 milliseconds and the request has a second, because the time is over in the middle of a
millisecond. -/
theorem deadline_unkept :
    let outside (d : Nat) : Outside Call.Reply := fun
      | .whoAmI _ => .some (d, .ok ⟨⟨"alice", 42, .none⟩, false⟩)
      | .checkMembership _ _ _ => .some (0, .ok ())
      | .listGroups _ _ => .some (0, .ok [⟨"sre", "acme"⟩])
    let w : Wiring Call.Reply := ⟨.direct, ⟨"acme", true⟩⟩
    let hs : Http.Headers := [.ofText "Authorization" "Bearer tok"]
    let s (now : Nat) : Service Call.Reply := (Service.start 0 1000).pass now
    ∀ x ∈ [(0, 946080000, 977616000 * Clock.second), (500000, 1, 1000400000)],
      let gate := passGate w (outside x.2.2) (s x.1) (deadline (s x.1).now x.2.1) 0 hs
      (s x.1).duration? w (outside x.2.2) "tok" = .some x.2.2 ∧ x.2.1 * Clock.second < x.2.2 ∧
        gate.2.1.status = 200 ∧ gate.1.now = x.1 + x.2.2 ∧
        gate.2.2 = [.whoAmI "tok", .checkMembership "tok" "acme" "alice", .listGroups "tok" "acme"] := by
  intro outside w hs s x hx
  rcases List.mem_pair.1 hx with rfl | rfl <;> decide

end Server

end TokenGate
