/-
Courses of events: who begins a validation, what each validation asks and gets to hear, and when.

A validation hears an answer when it waits for it and has not been given up. What it has heard is its own transcript,
whatever else happens in between. What it asks and what it is finished with is told by the notices about it, and it
writes when more of the cache changes with an event of its own than the counts of reads.

An entry is stored with the first event after which it is there. The service is settled when there is nothing for the
sweeper to do.
-/
import TokenGate.Exchange.Transcript
import TokenGate.Service

namespace TokenGate

variable {Q : Type} {Answer : Q → Type}

namespace Event

/-- The id and the token of the validation that begins, if one does. -/
def begun? : Event Answer → Option (Nat × String)
  | .begin id token _ => .some (id, token)
  | _ => .none

/-- The validations that begin in the course of `events`. -/
def begun (events : List (Event Answer)) : List (Nat × String) :=
  events.filterMap begun?

/-- Each validation has an id of its own, and only validations write into the cache. -/
structure Orderly (events : List (Event Answer)) : Prop where
  ids : ((begun events).map Prod.fst).Nodup
  writes : ∀ token o, .remember token o ∉ events

/-- No two tokens that are validated have the same digest. -/
def DistinctDigests (events : List (Event Answer)) : Prop :=
  ∀ x ∈ begun events, ∀ y ∈ begun events, Fingerprint.ofToken x.2 = Fingerprint.ofToken y.2 → x.2 = y.2

/-- The validation that an event is about, if it is about one. -/
def subject? : Event Answer → Option Nat
  | .begin id _ _ | .answer id _ _ | .cancel id => .some id
  | _ => .none

/-- How much time passes with an event. -/
def elapsed : Event Answer → Nat
  | .pass d => d
  | .jump d => d
  | .stall d => d
  | _ => 0

end Event

/-- The validation that a notice is about. -/
def Notice.subject : Notice Q → Nat
  | .asked id _ | .finished id _ => id

/-- That the validation `id` asked for each answer of `log`. -/
def Notice.asking (id : Nat) (log : List (Answered Answer)) : List (Notice Q) :=
  log.map fun x => .asked id x.1

/-- From `c` to `d` there was nothing but reads, which change the counts alone. -/
def Cache.ReadOnly (c d : Cache) : Prop :=
  ∃ hits misses, d = { c with hits := hits, misses := misses }

namespace Service

/-- The validation `id`, which began with `cancelAt`, has been given up by the time of `s`, to which `events` led. -/
def GivenUp (events : List (Event Answer)) (s : Service Answer) (id : Nat) (cancelAt : Option Nat) : Prop :=
  .cancel id ∈ events ∨ isGivenUp cancelAt s.now = true

/-- No tick of the sweeper is due, and it has ended if it has been told to. -/
def Settled (s : Service Answer) : Prop :=
  ∀ sweeper, s.cache.sweeper = .some sweeper → sweeper.isDue s.now = false ∧ s.cache.isStopping = false

variable [DecidableEq Q]

/-- When the validation `id` began in the course of `events`, the cache had nothing for it. -/
def Missed (w : Wiring Answer) (s : Service Answer) (events : List (Event Answer)) (id : Nat) : Prop :=
  ∀ l token cancelAt l', events = l ++ .begin id token cancelAt :: l' →
    ((s.run w l).cache.get (s.run w l).now token).1 = .none

/-- In the course of `events`, the validation `id` of `token` began at `t`. -/
def BeganAt (w : Wiring Answer) (s : Service Answer) (events : List (Event Answer)) (id : Nat) (token : String)
    (t : Nat) : Prop :=
  ∃ l cancelAt l', events = l ++ .begin id token cancelAt :: l' ∧ (s.run w l).now = t

/-- In the course of `events`, the validation `id` asked `q` at `t`. -/
def AskedAt (w : Wiring Answer) (s : Service Answer) (events : List (Event Answer)) (id : Nat) (q : Q) (t : Nat) :
    Prop :=
  ∃ l e l', events = l ++ e :: l' ∧ .asked id q ∈ ((s.run w l).step w e).2 ∧ (s.run w l).now = t

/-- The answer that the validation `id` hears with an event. -/
def heard? (s : Service Answer) (id : Nat) : Event Answer → Option (Answered Answer)
  | .answer id' q a =>
    match s.flights.lookup id' with
    | .some f => if id' = id ∧ q = f.question ∧ isGivenUp f.cancelAt s.now = false then .some ⟨q, a⟩ else .none
    | .none => .none
  | _ => .none

/-- The answers that the validation `id` hears in the course of `events`, in order. -/
def heard (w : Wiring Answer) (s : Service Answer) (id : Nat) : List (Event Answer) → List (Answered Answer)
  | [] => []
  | e :: events => (s.heard? id e).toList ++ heard w (s.step w e).1 id events

/-- The notices that are given in the course of `events`, in order. -/
def notices (w : Wiring Answer) (s : Service Answer) : List (Event Answer) → List (Notice Q)
  | [] => []
  | e :: events => (s.step w e).2 ++ notices w (s.step w e).1 events

/-- The notices about the validation `id`. -/
def noticesOf (w : Wiring Answer) (s : Service Answer) (id : Nat) (events : List (Event Answer)) : List (Notice Q) :=
  (s.notices w events).filter fun n => n.subject == id

/-- In the course of `events`, the validation `id` writes into the cache. -/
def Writes (w : Wiring Answer) (s : Service Answer) (events : List (Event Answer)) (id : Nat) : Prop :=
  ∃ past e, past ++ [e] <+: events ∧ e.subject? = .some id ∧
    ¬ Cache.ReadOnly (s.run w past).cache ((s.run w past).step w e).1.cache

@[simp] theorem run_nil (w : Wiring Answer) (s : Service Answer) : s.run w [] = s := rfl

@[simp] theorem run_cons (w : Wiring Answer) (s : Service Answer) (e : Event Answer) (events : List (Event Answer)) :
    s.run w (e :: events) = (s.step w e).1.run w events := rfl

theorem run_concat (w : Wiring Answer) (s : Service Answer) (events : List (Event Answer)) (e : Event Answer) :
    s.run w (events ++ [e]) = ((s.run w events).step w e).1 := by
  simp [run]

theorem heard_concat (w : Wiring Answer) (s : Service Answer) (id : Nat) (events : List (Event Answer))
    (e : Event Answer) :
    s.heard w id (events ++ [e]) = s.heard w id events ++ ((s.run w events).heard? id e).toList := by
  induction events generalizing s with
  | nil => simp [heard]
  | cons e' events ih => simp only [List.cons_append, heard, run_cons, ih, List.append_assoc]

theorem notices_concat (w : Wiring Answer) (s : Service Answer) (events : List (Event Answer)) (e : Event Answer) :
    s.notices w (events ++ [e]) = s.notices w events ++ ((s.run w events).step w e).2 := by
  induction events generalizing s with
  | nil => simp [notices]
  | cons e' events ih => simp only [List.cons_append, notices, run_cons, ih, List.append_assoc]

theorem noticesOf_concat (w : Wiring Answer) (s : Service Answer) (id : Nat) (events : List (Event Answer))
    (e : Event Answer) :
    s.noticesOf w id (events ++ [e]) =
      s.noticesOf w id events ++ ((s.run w events).step w e).2.filter fun n => n.subject == id := by
  rw [noticesOf, notices_concat, List.filter_append, noticesOf]

end Service

end TokenGate
