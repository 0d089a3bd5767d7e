/-
Runs of the service on a clock that moves only when something waits.

The outside answers each question after some time, or never. Whatever has its timer go off first happens first; of two
things that are due at the same instant, the one that was settled on first. An answer that takes no time is there at
once, so that a validation goes on until it has to wait.
-/
import TokenGate.Gate
import TokenGate.Service

namespace TokenGate

variable {Q : Type} {Answer : Q → Type}

/-- How the outside answers a question: after how long, and what; or never. -/
abbrev Outside {Q : Type} (Answer : Q → Type) := (q : Q) → Option (Nat × Answer q)

/-- A request for a validation, made some time from now and given up some time after that. -/
structure Job where
  token : String
  startAfter : Nat
  cancelAfter : Option Nat

/-- Something that is going to happen. -/
inductive Task {Q : Type} (Answer : Q → Type) where
  | begin (job : Job)
  | deliver (question : Q) (a : Answer question)
  | cancel

/-- A task of the validation `id`, and when it is due. -/
structure Appointment {Q : Type} (Answer : Q → Type) where
  due : Nat
  id : Nat
  task : Task Answer

/-- A run of the service. -/
structure Simulation {Q : Type} (Answer : Q → Type) where
  service : Service Answer
  /-- What is going to happen, in order. -/
  agenda : List (Appointment Answer)
  /-- The questions that have been asked, the latest first. -/
  asked : List Q
  results : List (Nat × Except ValidationError Identity)

namespace Simulation

/-- The run of a service to which nothing has happened yet. -/
def ofService (s : Service Answer) : Simulation Answer := ⟨s, [], [], []⟩

/-- Puts an appointment behind all that are due no later. -/
def schedule (a : Appointment Answer) : List (Appointment Answer) → List (Appointment Answer)
  | [] => [a]
  | b :: rest => if a.due < b.due then a :: b :: rest else b :: schedule a rest

/-- Takes what happens next from the agenda. -/
def next? (now : Nat) : List (Appointment Answer) → Option (Appointment Answer × List (Appointment Answer))
  | [] => .none
  | a :: rest =>
    match next? now rest with
    | .some (b, others) => if Timer.isBefore now b.due a.due then .some (b, a :: others) else .some (a, rest)
    | .none => .some (a, [])

/-- Takes in what came of an event. -/
def heed (outside : Outside Answer) (sim : Simulation Answer) : Notice Q → Simulation Answer
  | .asked id q =>
    let sim := { sim with asked := q :: sim.asked }
    match outside q with
    | .some (0, a) => { sim with agenda := ⟨sim.service.now, id, .deliver q a⟩ :: sim.agenda }
    | .some (d, a) => { sim with agenda := schedule ⟨sim.service.now + d, id, .deliver q a⟩ sim.agenda }
    | .none => sim
  | .finished id r =>
    { sim with results := (id, r) :: sim.results, agenda := sim.agenda.filter fun a => a.id != id }

/-- The events that a task of the validation `id` is, at the instant `now`. -/
def Task.event (id now : Nat) : Task Answer → Event Answer
  | .begin job => .begin id job.token (job.cancelAfter.map (now + ·))
  | .deliver q a => .answer id q a
  | .cancel => .cancel id

/-- Books the moment at which the caller of a job that begins is going to give it up. -/
def bookCancel (now id : Nat) (agenda : List (Appointment Answer)) : Task Answer → List (Appointment Answer)
  | .begin ⟨_, _, .some d⟩ => schedule ⟨now + d, id, .cancel⟩ agenda
  | _ => agenda

variable [DecidableEq Q]

/-- Does what is next on the agenda. -/
def advance (w : Wiring Answer) (outside : Outside Answer) (sim : Simulation Answer) : Simulation Answer :=
  let s := sim.service
  match next? s.now sim.agenda with
  | .none => sim
  | .some (a, agenda) =>
    let due := Timer.goesOff s.now a.due
    let s := if s.now < due then s.pass (due - s.now) else s
    let (s, notices) := s.step w (Task.event a.id s.now a.task)
    let agenda := bookCancel s.now a.id agenda a.task
    notices.foldl (heed outside) { sim with service := s, agenda := agenda }

/-- Does what is on the agenda until nothing is left; the fuel bounds how much that is. -/
def drain (w : Wiring Answer) (outside : Outside Answer) : (fuel : Nat) → Simulation Answer → Simulation Answer
  | 0, sim => sim
  | fuel + 1, sim => if sim.agenda.isEmpty then sim else drain w outside fuel (sim.advance w outside)

/-- No validation is on the agenda more often than this: it begins and is given up once, and asks about the owner,
the membership and at most fifty pages of teams. -/
def tasksPerJob : Nat := 64

/-- Runs jobs until all are finished: the results in the order of the jobs, and the questions asked. -/
def runJobs (w : Wiring Answer) (outside : Outside Answer) (s : Service Answer) (jobs : List Job) :
    Service Answer × List (Option (Except ValidationError Identity)) × List Q :=
  let agenda := jobs.zipIdx.foldl
    (fun agenda (job, id) => schedule ⟨s.now + job.startAfter, id, .begin job⟩ agenda) []
  let sim := drain w outside (tasksPerJob * jobs.length) { ofService s with agenda := agenda }
  (sim.service.settle, jobs.zipIdx.map fun (_, id) => sim.results.lookup id, sim.asked.reverse)

omit [DecidableEq Q] in
/-- Runs an exchange of its own, outside any validation: its result, unless the outside never answers, and the
questions asked. -/
def converse {R : Type} (w : Wiring Answer) (outside : Outside Answer) (s : Service Answer) :
    Exchange Answer R → Service Answer × Option R × List Q
  | .done r => (s.settle, .some r, [])
  | .ask q resume =>
    let s := s.countQuestion w.provider q
    match outside q with
    | .none => (s, .none, [q])
    | .some (d, a) =>
      let s := if d = 0 then s else s.pass d
      let s := s.observe (w.provider.headers q a)
      let (s, r, qs) := converse w outside s (resume a)
      (s, r, q :: qs)

end Simulation

end TokenGate
