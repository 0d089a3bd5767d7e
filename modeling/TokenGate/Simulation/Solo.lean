/-
A validation that is alone: what becomes of the service when nothing happens but that the outside answers its questions
in time, when it asks which question, and after how long it comes to its end.
-/
import TokenGate.Exchange.Deadline
import TokenGate.Simulation

namespace TokenGate.Service

variable {Q : Type} {Answer : Q → Type}

/-- Some time passes, or none. -/
def wait (s : Service Answer) (d : Nat) : Service Answer :=
  if d = 0 then s else s.pass d

/-- After the time `d`, the outside answers the question that the validation waits for. -/
def hear (w : Wiring Answer) (s : Service Answer) (d : Nat) (q : Q) (a : Answer q) : Service Answer :=
  ((s.wait d).land 0).observe (w.provider.headers q a)

/-- What becomes of the service when the validation of a token goes on with an exchange and nothing else happens, and
the questions that it asks. -/
def solo (w : Wiring Answer) (outside : Outside Answer) (token : String) :
    Exchange Answer Resolution → Service Answer → Service Answer × List Q
  | .done r, s => ((s.proceed w 0 token .none (.done r)).1, [])
  | .ask q resume, s =>
    let s := (s.proceed w 0 token .none (.ask q resume)).1
    match outside q with
    | .some (d, a) =>
      let (s, qs) := solo w outside token (resume a) (s.hear w d q a)
      (s, q :: qs)
    | .none => (s, [q])

/-- After how long the validation of a token that begins now comes to its end if nobody gives it up: at once where the
cache knows the outcome, and never where the outside does not answer. -/
def duration? (w : Wiring Answer) (outside : Outside Answer) (s : Service Answer) (token : String) : Option Nat :=
  match (s.cache.get s.now token).1 with
  | .some _ => .some 0
  | .none => ((Validation.resolve w.provider w.policy token).arrival? outside).map Prod.fst

/-- The questions of such a validation, and when it asks each. -/
def schedule (w : Wiring Answer) (outside : Outside Answer) (s : Service Answer) (token : String) : List (Nat × Q) :=
  match (s.cache.get s.now token).1 with
  | .some _ => []
  | .none => (Validation.resolve w.provider w.policy token).schedule outside s.now

@[simp] theorem wait_now (s : Service Answer) (d : Nat) : (s.wait d).now = s.now + d := by
  unfold wait
  split
  next h => rw [h]; rfl
  next => rfl

@[simp] theorem wait_flights (s : Service Answer) (d : Nat) : (s.wait d).flights = s.flights := by
  unfold wait; split <;> rfl

@[simp] theorem wait_validations (s : Service Answer) (d : Nat) : (s.wait d).validations = s.validations := by
  unfold wait; split <;> rfl

end TokenGate.Service
