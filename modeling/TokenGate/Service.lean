/-
The service: the cache in front of the provider, with any number of validations under way.

The service is a machine that is driven by events. A validation begins, the outside answers a question that it has
asked, its caller gives it up, time passes, the cache is used directly or its sweeper is stopped. Each event changes
the state and gives notice of what came of it. Whatever the order of the events is, each validation sees only its own
answers; the cache, the budget and the counters are what the validations share.
-/
import TokenGate.Budget
import TokenGate.Cache.Basic
import TokenGate.Tally
import TokenGate.Validation

namespace TokenGate

variable {Q : Type} {Answer : Q → Type}

/-- What stays the same while the service runs. -/
structure Wiring {Q : Type} (Answer : Q → Type) where
  provider : Provider Answer
  policy : Policy

/-- A validation under way, which waits for the answer to a question. -/
structure Flight {Q : Type} (Answer : Q → Type) where
  token : String
  question : Q
  resume : Answer question → Exchange Answer Resolution
  /-- When its caller gives it up, if that is settled. -/
  cancelAt : Option Nat

/-- The state of the service. -/
structure Service {Q : Type} (Answer : Q → Type) where
  now : Nat
  cache : Cache
  budget : Budget
  validations : Tally Verdict
  calls : Tally Endpoint
  flights : List (Nat × Flight Answer)

/-- What comes of an event: a validation asks a question, or it is finished. -/
inductive Notice (Q : Type) where
  | asked (id : Nat) (question : Q)
  | finished (id : Nat) (result : Except ValidationError Identity)

/-- What can happen to the service. -/
inductive Event {Q : Type} (Answer : Q → Type) where
  /-- A validation begins; it is given up at `cancelAt`, if that is settled. -/
  | begin (id : Nat) (token : String) (cancelAt : Option Nat)
  /-- The outside answers the question of a validation. -/
  | answer (id : Nat) (question : Q) (a : Answer question)
  /-- The caller of a validation gives it up. -/
  | cancel (id : Nat)
  /-- Time passes up to a timer, and the ticks that are due before its end have come. -/
  | pass (d : Nat)
  /-- The ticks that are due by now come, and a sweeper that has been told to stop ends. -/
  | settle
  /-- The clock is set forward. -/
  | jump (d : Nat)
  /-- Time passes while the sweeper does not run, so that a tick that falls due comes late. -/
  | stall (d : Nat)
  /-- A tick that is due comes first of all that there is for the sweeper to do. -/
  | tick
  | lookUp (token : String)
  | remember (token : String) (o : Outcome)
  | forget (token : String)
  /-- A response of the forge reports on the budget. -/
  | report (hs : Http.Headers)
  /-- The sweeper is told to stop. -/
  | stop

namespace Service

/-- The service when it starts, with an empty cache. -/
def start (ttl maxSize : Nat) : Service Answer where
  now := 0
  cache := Cache.start ttl maxSize 0
  budget := Budget.initial
  validations := Tally.empty
  calls := Tally.empty
  flights := []

/-! ## Validations -/

/-- Whether a caller who settled on `cancelAt` has given up by `now`. -/
def isGivenUp (cancelAt : Option Nat) (now : Nat) : Bool :=
  cancelAt.any (· ≤ now)

/-- Counts a question of the provider. -/
def countQuestion (provider : Provider Answer) (s : Service Answer) (q : Q) : Service Answer :=
  match provider.counted q with
  | .some e => { s with calls := s.calls.bump e }
  | .none => s

/-- Takes in what an answer reports on the budget. -/
def observe (s : Service Answer) (hs : Http.Headers) : Service Answer :=
  { s with budget := s.budget.observe hs }

/-- A validation is finished, and its result is counted. -/
def finish (s : Service Answer) (id : Nat) (result : Except ValidationError Identity) :
    Service Answer × List (Notice Q) :=
  ({ s with validations := s.validations.bump (.ofResult result) }, [.finished id result])

/-- Remembers what a resolution wants remembered. -/
def memorize (s : Service Answer) (token : String) : Option Outcome → Service Answer
  | .some o => { s with cache := s.cache.set s.now token o }
  | .none => s

/-- A validation goes on with `x`: it asks the next question, or it is finished. -/
def proceed (w : Wiring Answer) (s : Service Answer) (id : Nat) (token : String) (cancelAt : Option Nat) :
    Exchange Answer Resolution → Service Answer × List (Notice Q)
  | .done r => (s.memorize token r.memo).finish id r.result
  | .ask q resume =>
    let s := s.countQuestion w.provider q
    ({ s with flights := (id, ⟨token, q, resume, cancelAt⟩) :: s.flights }, [.asked id q])

/-- A validation begins. What the cache knows is the answer, even to a caller who has given up; otherwise nothing is
asked for such a caller. -/
def begin (w : Wiring Answer) (s : Service Answer) (id : Nat) (token : String) (cancelAt : Option Nat) :
    Service Answer × List (Notice Q) :=
  match s.cache.get s.now token with
  | (.some o, cache) => { s with cache := cache }.finish id o.result
  | (.none, cache) =>
    let s := { s with cache := cache }
    if isGivenUp cancelAt s.now then s.finish id (.error .cancelled)
    else s.proceed w id token cancelAt (Validation.resolve w.provider w.policy token)

/-- The state without the validation `id`. -/
def land (s : Service Answer) (id : Nat) : Service Answer :=
  { s with flights := s.flights.filter fun f => f.1 != id }

/-- The validation `id` is given up, if it is under way. -/
def cancel (s : Service Answer) (id : Nat) : Service Answer × List (Notice Q) :=
  match s.flights.lookup id with
  | .some _ => (s.land id).finish id (.error .cancelled)
  | .none => (s, [])

/-- The question `q` of the validation `id` is answered. An answer that comes when the caller has given up is not
looked at, and neither is one to a question that was not asked. -/
def answer [DecidableEq Q] (w : Wiring Answer) (s : Service Answer) (id : Nat) (q : Q) (a : Answer q) :
    Service Answer × List (Notice Q) :=
  match s.flights.lookup id with
  | .some f =>
    if h : q = f.question then
      if isGivenUp f.cancelAt s.now then (s.land id).finish id (.error .cancelled)
      else
        ((s.land id).observe (w.provider.headers q a)).proceed w id f.token f.cancelAt (f.resume (h ▸ a))
    else (s, [])
  | .none => (s, [])

/-! ## Time -/

/-- Time passes until a timer goes off for which something waits. A tick that is due at the very end waits for
`settle`, so that what else happens at that instant comes first. -/
def pass (s : Service Answer) (d : Nat) : Service Answer :=
  { s with now := s.now + d, cache := s.cache.await s.now (s.now + d) }

/-- The sweeper runs. -/
def settle (s : Service Answer) : Service Answer :=
  { s with cache := s.cache.flow s.now }

/-- The clock is set forward. -/
def jump (s : Service Answer) (d : Nat) : Service Answer :=
  { s with now := s.now + d, cache := s.cache.jump (s.now + d) }

/-- Time passes, and no tick comes. -/
def stall (s : Service Answer) (d : Nat) : Service Answer :=
  { s with now := s.now + d }

/-- The Unix time, where the clock started at the Unix time `epoch`. -/
def unixTime (s : Service Answer) (epoch : Nat) : Nat :=
  epoch + s.now / Clock.second

/-! ## Events -/

/-- What an event does. -/
def step [DecidableEq Q] (w : Wiring Answer) (s : Service Answer) :
    Event Answer → Service Answer × List (Notice Q)
  | .begin id token cancelAt => s.begin w id token cancelAt
  | .answer id q a => s.answer w id q a
  | .cancel id => s.cancel id
  | .pass d => (s.pass d, [])
  | .settle => (s.settle, [])
  | .jump d => (s.jump d, [])
  | .stall d => (s.stall d, [])
  | .tick => ({ s with cache := s.cache.tick s.now }, [])
  | .lookUp token => ({ s with cache := (s.cache.get s.now token).2 }, [])
  | .remember token o => ({ s with cache := s.cache.set s.now token o }, [])
  | .forget token => ({ s with cache := s.cache.delete token }, [])
  | .report hs => (s.observe hs, [])
  | .stop => ({ s with cache := s.cache.stop }, [])

/-- What a sequence of events does. -/
def run [DecidableEq Q] (w : Wiring Answer) (s : Service Answer) (events : List (Event Answer)) : Service Answer :=
  events.foldl (fun s e => (s.step w e).1) s

end Service

end TokenGate
