/-
Requests at the gate, any number of them at once.

A request that is let in has its token validated, and it is answered when the validation is finished. Its deadline is a
timer: when the time is over that the configuration grants, the validation is given up. Time does not go on past a
deadline that has not come about, but at the very instant of it an answer of the outside may still come first. Only
where something waits for a timer that is far, a deadline may be held up. The clock is set forward only where no request
waits.
-/
import TokenGate.Gate
import TokenGate.Service.Course

namespace TokenGate

variable {Q : Type} {Answer : Q → Type}

/-- The gate with the requests that wait for it. -/
structure Traffic {Q : Type} (Answer : Q → Type) where
  service : Service Answer
  /-- The requests that are being validated, and what their timers are set to. -/
  deadlines : List (Nat × Nat)

namespace Traffic

/-- What can happen at the gate. -/
inductive Input {Q : Type} (Answer : Q → Type) where
  /-- A request comes in with these headers. -/
  | request (id : Nat) (hs : Http.Headers)
  /-- The outside answers a question that the validation of a request has asked. -/
  | answer (id : Nat) (question : Q) (a : Answer question)
  /-- The time of a request is over. -/
  | expire (id : Nat)
  | pass (d : Nat)
  | settle
  | stall (d : Nat)
  | tick
  | jump (d : Nat)
  /-- A response of the forge to something else reports on the budget. -/
  | report (hs : Http.Headers)
  | stop

/-- What comes of an input: a validation asks a question, or a request is responded to. -/
inductive Output (Q : Type) where
  | asked (id : Nat) (question : Q)
  | responded (id : Nat) (response : Http.Response)
deriving DecidableEq

/-- The gate of a service where no request waits. -/
def ofService (s : Service Answer) : Traffic Answer := ⟨s, []⟩

/-- What the timer is set to of a request that comes in now, if its time is to be over after `limit` and the clock can
tell. -/
def due? (limit : Nat) (t : Traffic Answer) : Option Nat :=
  Timer.set? t.service.now limit

/-- Whether `d` may pass without passing a deadline. -/
def allows (t : Traffic Answer) (d : Nat) : Bool :=
  t.deadlines.all fun x => t.service.now + d ≤ x.2

/-- Whether a deadline is overdue, because it was held up. -/
def isOverdue (t : Traffic Answer) : Bool :=
  t.deadlines.any fun x => x.2 < t.service.now

/-- Whether something may wait for `d`: no deadline comes about before that, or deadlines are held up. -/
def mayWait (t : Traffic Answer) (d : Nat) : Bool :=
  t.allows d || Timer.isFar t.service.now (t.service.now + d) || t.isOverdue

/-- What an input is for the service, if it is anything, and the deadline that it sets. A request that is refused
does not get to the service, and neither does one whose deadline the clock cannot tell. -/
def effect? (limit : Nat) (t : Traffic Answer) : Input Answer → Option (Event Answer × List (Nat × Nat))
  | .request id hs =>
    match Gate.screen hs, t.due? limit with
    | .ok token, .some due => .some (.begin id token .none, [(id, due)])
    | _, _ => .none
  | .answer id q a => .some (.answer id q a, [])
  | .expire id =>
    if t.deadlines.any fun x => x.1 == id && x.2 ≤ t.service.now then .some (.cancel id, []) else .none
  | .pass d => if t.mayWait d then .some (.pass d, []) else .none
  | .settle => .some (.settle, [])
  | .stall d => if t.allows d then .some (.stall d, []) else .none
  | .tick => .some (.tick, [])
  | .jump d => if t.deadlines.isEmpty then .some (.jump d, []) else .none
  | .report hs => .some (.report hs, [])
  | .stop => .some (.stop, [])

/-- What comes of an input that is nothing for the service: a request that is not let in is refused. -/
def refusals : Input Answer → List (Output Q)
  | .request id hs =>
    match Gate.screen hs with
    | .error r => [.responded id r.response]
    | .ok _ => []
  | _ => []

/-- What a notice of the service comes to: a request whose validation is finished is responded to. -/
def Output.ofNotice (s : Service Answer) (epoch : Nat) : Notice Q → Output Q
  | .asked id q => .asked id q
  | .finished id result => .responded id (Gate.respond s.budget (s.unixTime epoch) result)

/-- Whether the validation of a request is finished. -/
def isFinished (notices : List (Notice Q)) (id : Nat) : Bool :=
  notices.any fun
    | .finished id' _ => id' == id
    | .asked _ _ => false

variable [DecidableEq Q]

/-- What an input does, and what comes of it, where a request has the time `limit` and the clock started at the Unix
time `epoch`. -/
def step (w : Wiring Answer) (limit epoch : Nat) (t : Traffic Answer) (i : Input Answer) :
    Traffic Answer × List (Output Q) :=
  match t.effect? limit i with
  | .none => (t, refusals i)
  | .some (e, opened) =>
    let (s, notices) := t.service.step w e
    (⟨s, (opened ++ t.deadlines).filter fun x => !isFinished notices x.1⟩, notices.map (.ofNotice s epoch))

/-- What a sequence of inputs does. -/
def run (w : Wiring Answer) (limit epoch : Nat) (t : Traffic Answer) (is : List (Input Answer)) : Traffic Answer :=
  is.foldl (fun t i => (t.step w limit epoch i).1) t

/-- The course of events that a sequence of inputs is for the service. -/
def course (w : Wiring Answer) (limit epoch : Nat) (t : Traffic Answer) : List (Input Answer) → List (Event Answer)
  | [] => []
  | i :: is => ((t.effect? limit i).map Prod.fst).toList ++ course w limit epoch (t.step w limit epoch i).1 is

/-- The id of the request that comes in, if one does. -/
def Input.requestId? : Input Answer → Option Nat
  | .request id _ => .some id
  | _ => .none

/-- Each request has an id of its own. -/
def Distinct (is : List (Input Answer)) : Prop :=
  (is.filterMap Input.requestId?).Nodup

variable {w : Wiring Answer} {limit epoch : Nat} {t : Traffic Answer}

theorem run_append (is is' : List (Input Answer)) :
    t.run w limit epoch (is ++ is') = (t.run w limit epoch is).run w limit epoch is' :=
  List.foldl_append

theorem run_concat (is : List (Input Answer)) (i : Input Answer) :
    t.run w limit epoch (is ++ [i]) = ((t.run w limit epoch is).step w limit epoch i).1 := by
  simp [run]

theorem course_append (is is' : List (Input Answer)) :
    t.course w limit epoch (is ++ is') =
      t.course w limit epoch is ++ (t.run w limit epoch is).course w limit epoch is' := by
  induction is generalizing t with
  | nil => rfl
  | cons i is ih => simp only [List.cons_append, course, ih, run, List.foldl_cons, List.append_assoc]

theorem course_concat (is : List (Input Answer)) (i : Input Answer) :
    t.course w limit epoch (is ++ [i]) =
      t.course w limit epoch is ++ (((t.run w limit epoch is).effect? limit i).map Prod.fst).toList := by
  rw [course_append, course, course, List.append_nil]

end Traffic

end TokenGate
