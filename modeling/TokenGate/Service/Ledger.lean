/-
Ledgers: what there is to count in a course of events.

Events and notices are counted as they are. Entries of the cache are counted by their keys: with an event that may
write, a key that was not there before is an entry that has been added, and with one that takes out, a key that is there
no longer is an entry that has been taken out. An entry that makes room for another is in no ledger, because the cache
counts these itself.
-/
import TokenGate.Service.Course

namespace TokenGate

variable {Q : Type} {Answer : Q → Type}

/-- How many entries of `d` have a key under which `c` has none. -/
def Cache.gained (c d : Cache) : Nat :=
  d.entries.countP fun x => !(c.entries.map Prod.fst).contains x.1

/-- The class of the result of a validation that is finished. -/
def Notice.verdict? : Notice Q → Option Verdict
  | .finished _ result => .some (.ofResult result)
  | .asked _ _ => .none

/-- The question that is asked. -/
def Notice.question? : Notice Q → Option Q
  | .asked _ q => .some q
  | .finished _ _ => .none

namespace Event

/-- Whether a token is looked up in the cache: every validation begins with that. -/
def isLookUp : Event Answer → Bool
  | .begin _ _ _ | .lookUp _ => true
  | _ => false

/-- Whether something may be written into the cache. -/
def mayWrite : Event Answer → Bool
  | .begin _ _ _ | .answer _ _ _ | .remember _ _ => true
  | _ => false

/-- Whether what is known of a token is deleted. -/
def isDelete : Event Answer → Bool
  | .forget _ => true
  | _ => false

/-- Whether sweeps may come. -/
def maySweep : Event Answer → Bool
  | .pass _ | .settle | .jump _ | .tick => true
  | _ => false

/-- How many entries an event adds that leads from `c` to `d`. -/
def added (e : Event Answer) (c d : Cache) : Nat :=
  if e.mayWrite then c.gained d else 0

/-- How many entries are deleted with an event that leads from `c` to `d`. -/
def deleted (e : Event Answer) (c d : Cache) : Nat :=
  if e.isDelete then d.gained c else 0

/-- How many entries are swept with an event that leads from `c` to `d`. -/
def swept (e : Event Answer) (c d : Cache) : Nat :=
  if e.maySweep then d.gained c else 0

end Event

/-- The sum of what `amount` is for each of `events`, and for the cache before and after it. -/
def Service.total [DecidableEq Q] (w : Wiring Answer) (s : Service Answer)
    (amount : Event Answer → Cache → Cache → Nat) : List (Event Answer) → Nat
  | [] => 0
  | e :: events => amount e s.cache (s.step w e).1.cache + total w (s.step w e).1 amount events

theorem Service.total_concat [DecidableEq Q] (w : Wiring Answer) (s : Service Answer)
    (amount : Event Answer → Cache → Cache → Nat) (events : List (Event Answer)) (e : Event Answer) :
    s.total w amount (events ++ [e]) =
      s.total w amount events + amount e (s.run w events).cache ((s.run w events).step w e).1.cache := by
  induction events generalizing s with
  | nil => simp [total]
  | cons e' events ih => simp only [List.cons_append, total, run_cons, ih, Nat.add_assoc]

end TokenGate
