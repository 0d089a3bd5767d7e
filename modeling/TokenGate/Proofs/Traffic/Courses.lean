/-
What the inputs at the gate are for the service.

The service behind the gate takes a course of events (`service_run`), in which a validation begins for a request that
is let in and for nothing else (`exists_request_of_begin`), and in which only validations write (`orderly_course`).
What the gate responds is the refusal of a request, or what a validation has come to that has just been finished
(`response_cases`). A server that attends to one request at a time takes such a run, too (`Server.passGate_eq_run`).
-/
import TokenGate.Proofs.Service.Provenance
import TokenGate.Server

namespace TokenGate

variable {Q : Type} {Answer : Q → Type}

namespace Traffic

/-! ## Inputs -/

section

variable {limit : Nat} {t : Traffic Answer} {i : Input Answer} {e : Event Answer} {opened : List (Nat × Nat)}

/-- A validation begins without a moment at which its caller gives it up, and with a deadline. -/
theorem effect?_begin {id : Nat} {token : String} {cancelAt : Option Nat}
    (h : t.effect? limit i = .some (.begin id token cancelAt, opened)) :
    cancelAt = .none ∧ ∃ hs due, i = .request id hs ∧ Gate.screen hs = .ok token ∧ t.due? limit = .some due ∧
      opened = [(id, due)] := by
  cases i with
  | request id' hs =>
    simp only [effect?] at h
    split at h <;> cases h
    next hdue hscreen => exact ⟨rfl, hs, _, rfl, hscreen, hdue, rfl⟩
  | expire => simp only [effect?] at h; split at h <;> cases h
  | pass | stall => simp only [effect?] at h; split at h <;> cases h
  | jump => simp only [effect?] at h; split at h <;> cases h
  | answer | settle | tick | report | stop => cases h

/-- A deadline is set for a validation that begins. -/
theorem effect?_opened {x : Nat × Nat} (h : t.effect? limit i = .some (e, opened)) (hx : x ∈ opened) :
    ∃ token, e = .begin x.1 token .none := by
  cases i with
  | request id hs =>
    simp only [effect?] at h
    split at h <;> cases h
    obtain rfl := List.mem_singleton.1 hx
    exact ⟨_, rfl⟩
  | expire | pass | stall | jump => simp only [effect?] at h; split at h <;> (cases h; try cases hx)
  | answer | settle | tick | report | stop => cases h; cases hx

theorem effect?_ne_remember {token : String} {o : Outcome} :
    t.effect? limit i ≠ .some (.remember token o, opened) := by
  intro h
  cases i with
  | request | expire | pass | stall | jump => simp only [effect?] at h; split at h <;> cases h
  | answer | settle | tick | report | stop => cases h

theorem isFinished_iff {notices : List (Notice Q)} {id : Nat} :
    isFinished notices id = true ↔ ∃ result, .finished id result ∈ notices := by
  rw [isFinished, List.any_eq_true]
  constructor
  · rintro ⟨n, hn, h⟩
    cases n with
    | asked => cases h
    | finished id' result =>
      obtain rfl : id' = id := by simpa using h
      exact ⟨result, hn⟩
  · rintro ⟨result, h⟩
    exact ⟨_, h, by simp⟩

end

/-! ## Courses at the gate -/

section

variable [DecidableEq Q] {w : Wiring Answer} {limit epoch : Nat} {t : Traffic Answer} {is : List (Input Answer)}

/-- At the gate, the service takes the course that the inputs are for it. -/
theorem service_run (is : List (Input Answer)) :
    (t.run w limit epoch is).service = t.service.run w (t.course w limit epoch is) := by
  induction is using List.reverseRecOn with
  | nil => rfl
  | append_singleton is i ih =>
    rw [run_concat, course_concat, step]
    cases (t.run w limit epoch is).effect? limit i with
    | none => simpa using ih
    | some x => simp only [Option.map_some, Option.toList_some, Service.run_concat, ih]

/-- A validation begins for a request that is let in. -/
theorem exists_request_of_begin {id : Nat} {token : String} {cancelAt : Option Nat}
    (h : .begin id token cancelAt ∈ t.course w limit epoch is) :
    ∃ hs, .request id hs ∈ is ∧ Gate.screen hs = .ok token := by
  induction is generalizing t with
  | nil => cases h
  | cons i is ih =>
    rw [course, List.mem_append, Option.mem_toList, Option.map_eq_some_iff] at h
    rcases h with ⟨⟨e, opened⟩, heffect, rfl⟩ | h
    · obtain ⟨-, hs, due, rfl, hscreen, -⟩ := effect?_begin heffect
      exact ⟨hs, List.mem_cons_self .., hscreen⟩
    · obtain ⟨hs, hm, hscreen⟩ := ih h
      exact ⟨hs, List.mem_cons_of_mem _ hm, hscreen⟩

theorem begun_course_sublist (t : Traffic Answer) (is : List (Input Answer)) :
    ((Event.begun (t.course w limit epoch is)).map Prod.fst).Sublist (is.filterMap Input.requestId?) := by
  induction is generalizing t with
  | nil => exact .slnil
  | cons i is ih =>
    rw [course, Event.begun_append, List.map_append, ← List.singleton_append, List.filterMap_append]
    refine List.Sublist.append ?_ (ih _)
    cases heffect : t.effect? limit i with
    | none => exact List.nil_sublist _
    | some x =>
      obtain ⟨e, opened⟩ := x
      cases e with
      | begin id token cancelAt =>
        obtain ⟨-, hs, due, rfl, -⟩ := effect?_begin heffect
        exact .refl _
      | _ => exact List.nil_sublist _

theorem orderly_course (h : Distinct is) : Event.Orderly (t.course w limit epoch is) where
  ids := (begun_course_sublist t is).nodup h
  writes token o := by
    clear h
    induction is generalizing t with
    | nil => exact List.not_mem_nil
    | cons i is ih =>
      rw [course, List.mem_append, Option.mem_toList, Option.map_eq_some_iff]
      rintro (⟨⟨e, opened⟩, heffect, rfl⟩ | h)
      · exact effect?_ne_remember heffect
      · exact ih h

omit [DecidableEq Q] in
/-- A request has one list of headers. -/
theorem Distinct.request_unique (h : Distinct is) {id : Nat} {hs hs' : Http.Headers} (hm : .request id hs ∈ is)
    (hm' : .request id hs' ∈ is) : hs = hs' := by
  induction is with
  | nil => cases hm
  | cons i is ih =>
    have hrest : Distinct is := by
      unfold Distinct at h ⊢
      rw [← List.singleton_append, List.filterMap_append, List.nodup_append] at h
      exact h.2.1
    have hfresh : ∀ {hs hs' : Http.Headers}, i = .request id hs → .request id hs' ∉ is := by
      rintro hs hs' rfl hm
      exact (List.nodup_cons.1 h).1 (List.mem_filterMap.2 ⟨_, hm, rfl⟩)
    rcases List.mem_cons.1 hm with heq | hm <;> rcases List.mem_cons.1 hm' with heq' | hm'
    · cases heq.trans heq'.symm
      rfl
    · exact absurd hm' (hfresh heq.symm)
    · exact absurd hm (hfresh heq'.symm)
    · exact ih hrest hm hm'

/-! ## Responses -/

variable {i : Input Answer} {e : Event Answer} {opened : List (Nat × Nat)}

theorem step_eq (h : t.effect? limit i = .some (e, opened)) :
    t.step w limit epoch i =
      let after := t.service.step w e
      (⟨after.1, (opened ++ t.deadlines).filter fun x => !isFinished after.2 x.1⟩,
        after.2.map (.ofNotice after.1 epoch)) := by
  rw [step, h]

/-- A response is the refusal of a request, or it tells the result of a validation that has just been finished. -/
theorem response_cases {id : Nat} {response : Http.Response}
    (h : .responded id response ∈ (t.step w limit epoch i).2) :
    (∃ hs r, i = .request id hs ∧ Gate.screen hs = .error r ∧ response = r.response) ∨
      ∃ e opened result budget now, t.effect? limit i = .some (e, opened) ∧
        .finished id result ∈ (t.service.step w e).2 ∧ response = Gate.respond budget now result := by
  cases heffect : t.effect? limit i with
  | none =>
    rw [step, heffect] at h
    cases i with
    | request id' hs =>
      simp only [refusals] at h
      split at h
      next hscreen =>
        obtain ⟨rfl, rfl⟩ := Output.responded.inj (List.mem_singleton.1 h)
        exact .inl ⟨hs, _, rfl, hscreen, rfl⟩
      next => cases h
    | _ => cases h
  | some x =>
    obtain ⟨e, opened⟩ := x
    rw [step_eq heffect, List.mem_map] at h
    obtain ⟨n, hn, h⟩ := h
    cases n with
    | asked => cases h
    | finished id' result => cases h; exact .inr ⟨e, opened, result, _, _, rfl, hn, rfl⟩

end

end Traffic

/-! ## One request at a time -/

section

variable [DecidableEq Q] {w : Wiring Answer} {outside : Outside Answer} {limit epoch : Nat} {t : Traffic Answer}

/-- In the course of the inputs `is`, the request `id` is responded to. -/
def Traffic.Responds (w : Wiring Answer) (limit epoch : Nat) (t : Traffic Answer) (is : List (Traffic.Input Answer))
    (id : Nat) (response : Http.Response) : Prop :=
  ∃ past i, past ++ [i] <+: is ∧ .responded id response ∈ ((t.run w limit epoch past).step w limit epoch i).2

theorem Traffic.Responds.append_left {is is' : List (Traffic.Input Answer)} {id : Nat} {r : Http.Response}
    (h : (t.run w limit epoch is).Responds w limit epoch is' id r) : t.Responds w limit epoch (is ++ is') id r := by
  obtain ⟨past, i, hpast, hr⟩ := h
  refine ⟨is ++ past, i, ?_, ?_⟩
  · rw [List.append_assoc]
    exact (List.prefix_append_right_inj is).2 hpast
  · rwa [Traffic.run_append]

namespace Server

omit [DecidableEq Q] in
theorem requestId?_of_upcoming {id due : Nat} {q : Q} {i : Traffic.Input Answer}
    (h : upcoming outside t id q = .some (due, i)) : i.requestId? = .none := by
  obtain ⟨deadline, -, h⟩ := Option.map_eq_some_iff.1 h
  split at h
  next => split at h <;> (cases h; rfl)
  next => cases h; rfl

variable (w outside limit epoch) in
/-- While one request is attended to, no other comes in. -/
theorem attend_eq_run (fuel : Nat) (t : Traffic Answer) (outputs : List (Traffic.Output Q)) :
    ∃ is, is.filterMap Traffic.Input.requestId? = [] ∧
      (attend w outside limit epoch fuel t outputs).1 = t.run w limit epoch is ∧
      ∀ r, (attend w outside limit epoch fuel t outputs).2.1 = .some r →
        ∃ id, .responded id r ∈ outputs ∨ t.Responds w limit epoch is id r := by
  fun_induction attend w outside limit epoch fuel t outputs with
  | case1 fuel t id r rest =>
    refine ⟨[], rfl, rfl, ?_⟩
    rintro _ ⟨⟩
    exact ⟨id, .inl (List.mem_cons_self ..)⟩
  | case2 fuel t id q rest due i hnext u v outputs' hstep v' r qs hattend ih =>
    obtain ⟨waits, hwaits, hu⟩ : ∃ is, is.filterMap Traffic.Input.requestId? = [] ∧ u = t.run w limit epoch is := by
      by_cases hlater : t.service.now < due
      · exact ⟨[.pass (due - t.service.now)], rfl, if_pos hlater⟩
      · exact ⟨[], rfl, if_neg hlater⟩
    have hv : v = t.run w limit epoch (waits ++ [i]) := by rw [Traffic.run_concat, ← hu, hstep]
    obtain ⟨is, his, hrun, hresponds⟩ := ih
    rw [hattend] at hrun hresponds
    refine ⟨waits ++ [i] ++ is, by simp [hwaits, his, requestId?_of_upcoming hnext], ?_, fun r hr => ?_⟩
    · rw [Traffic.run_append, ← hv]
      exact hrun
    · obtain ⟨id, hr | hr⟩ := hresponds r hr
      · exact ⟨id, .inr ⟨waits, i, List.prefix_append .., by rw [← hu, hstep]; exact hr⟩⟩
      · exact ⟨id, .inr (Traffic.Responds.append_left (hv ▸ hr))⟩
  | case3 => exact ⟨[], rfl, rfl, nofun⟩
  | case4 => exact ⟨[], rfl, rfl, nofun⟩

/-- What is done with one request is a run of the gate in which it is the only one. It is answered with the response
that comes of this, or else as if it had been given up. -/
theorem passGate_eq_run (s : Service Answer) (hs : Http.Headers) :
    ∃ is, (Traffic.Input.request 0 hs :: is).filterMap Traffic.Input.requestId? = [0] ∧
      (passGate w outside s limit epoch hs).1 =
        ((Traffic.ofService s).run w limit epoch (.request 0 hs :: is)).service ∧
      ((∃ id, (Traffic.ofService s).Responds w limit epoch (.request 0 hs :: is) id
          (passGate w outside s limit epoch hs).2.1) ∨
        ∃ budget unixTime, (passGate w outside s limit epoch hs).2.1 =
          Gate.respond budget unixTime (.error .cancelled)) := by
  unfold passGate
  split
  next r hscreen =>
    have hstep : (Traffic.ofService s).step w limit epoch (.request 0 hs) =
        (Traffic.ofService s, [.responded 0 r.response]) := by
      simp only [Traffic.step, Traffic.effect?, Traffic.refusals, hscreen]
    refine ⟨[], rfl, ?_, .inl ⟨0, [], .request 0 hs, List.prefix_rfl, ?_⟩⟩
    · rw [← List.nil_append [_], Traffic.run_concat]
      exact (congrArg (fun x => x.1.service) hstep).symm
    · rw [show (Traffic.ofService s).run w limit epoch [] = Traffic.ofService s from rfl, hstep]
      exact List.mem_singleton_self _
  next token hscreen =>
    rcases hstep : (Traffic.ofService s).step w limit epoch (.request 0 hs) with ⟨t, outputs⟩
    obtain ⟨is, his, hrun, hresponds⟩ := attend_eq_run w outside limit epoch Simulation.tasksPerJob t outputs
    rcases hattend : attend w outside limit epoch Simulation.tasksPerJob t outputs with ⟨u, r, asked⟩
    rw [hattend] at hrun hresponds
    have hrequest : t = (Traffic.ofService s).run w limit epoch [.request 0 hs] := (congrArg Prod.fst hstep).symm
    have hafter : u = (Traffic.ofService s).run w limit epoch (.request 0 hs :: is) := by
      rw [← List.singleton_append, Traffic.run_append, ← hrequest]
      exact hrun
    simp only [hattend]
    refine ⟨is ++ [.settle], by simp [his, Traffic.Input.requestId?], ?_, ?_⟩
    · rw [← List.cons_append, Traffic.run_concat, ← hafter]
    · cases r with
      | none => exact .inr ⟨_, _, rfl⟩
      | some r =>
        left
        obtain ⟨id, hr | hr⟩ := hresponds r rfl
        · refine ⟨id, [], .request 0 hs, List.prefix_append [_] _, ?_⟩
          rw [show (Traffic.ofService s).run w limit epoch [] = Traffic.ofService s from rfl, hstep]
          exact hr
        · obtain ⟨past, i, hpast, hr⟩ := Traffic.Responds.append_left (hrequest ▸ hr)
          exact ⟨id, past, i, hpast.trans ⟨[.settle], by simp⟩, hr⟩

end Server

end

end TokenGate
