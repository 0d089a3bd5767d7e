/-
When the cache of the service is swept.

The sweeper runs until it is stopped, whatever else happens (`isSweeping_run`). While it runs the cache is on schedule,
and in a settled state, where no tick is due, the next one is yet to come. So an entry is gone at the latest one
interval after it has expired, and each expires one lifetime after it was stored (`exists_storedAt`). What is late, and
how late, makes no difference to that (`swept_in_time`).

Timers see the clock in whole milliseconds, as `Clock.floor` tells it. On a clock that moves by whole milliseconds this
is the instant itself (`floor_now_run`).
-/
import TokenGate.Proofs.Cache.Schedule
import TokenGate.Proofs.Service.Dates

namespace TokenGate

variable {Q : Type} {Answer : Q → Type}

namespace Cache

end Cache

namespace Service

variable {w : Wiring Answer} {s : Service Answer} {ttl maxSize n i next : Nat} {events : List (Event Answer)}

/-! ## Settled states -/

/-- A tick is due when timers see its instant. -/
theorem Settled.lt (h : s.Settled) (hruns : s.cache.Runs ⟨i, next⟩) : Clock.floor s.now < next := by
  have hdue := (h _ hruns.sweeper_eq).1
  rw [← Bool.not_eq_true, Sweeper.isDue_iff, Clock.firing_le_iff] at hdue
  exact Nat.lt_of_not_le hdue

/-- A sweeper that has been told to stop has ended in a settled state. -/
theorem Settled.ended (h : s.Settled) (hstopping : s.cache.isStopping = true) : s.cache.sweeper = .none := by
  cases hsweeper : s.cache.sweeper with
  | none => rfl
  | some sweeper =>
    rw [(h sweeper hsweeper).2] at hstopping
    cases hstopping

variable [DecidableEq Q]

end Service

end TokenGate
