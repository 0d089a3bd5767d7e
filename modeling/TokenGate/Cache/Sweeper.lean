/-
The schedule on which a cache is swept.

Ticks lie on a grid of one interval. A tick that comes late by more than `lateness` starts a new grid; any other
one keeps the grid it is on.
-/
import TokenGate.Clock

namespace TokenGate

/-- The schedule of a sweeper that runs. -/
structure Sweeper where
  interval : Nat
  /-- When the next tick is due. -/
  next : Nat
deriving DecidableEq

namespace Sweeper

/-- The longest interval between two sweeps. -/
def maxInterval : Nat := 30 * Clock.second

/-- The interval where half the lifetime rounds down to nothing. -/
def minInterval : Nat := Clock.second

/-- How late a tick may come and still keep its grid. -/
def lateness : Nat := 5 * Clock.millisecond

/-- The interval for entries that live for `ttl`: half of it, within bounds. -/
def intervalFor (ttl : Nat) : Nat :=
  if ttl / 2 = 0 then minInterval else min (ttl / 2) maxInterval

/-- The schedule of a sweeper that starts at `now`. -/
def start (ttl : Nat) (now : Nat) : Sweeper :=
  ⟨intervalFor ttl, now + intervalFor ttl⟩

/-- Whether a tick is due by `now`. -/
def isDue (s : Sweeper) (now : Nat) : Bool :=
  Clock.firing s.next ≤ now

/-- The schedule after the due tick has come at `now`. Ticks of the old grid that are not after `now` come at
once and change nothing more, so the next one is the first that is. -/
def tick (s : Sweeper) (now : Nat) : Sweeper :=
  if now > s.next + lateness then { s with next := now + s.interval }
  else { s with next := s.next + s.interval * ((now - s.next) / s.interval + 1) }

/-- The schedule where no tick can come before `t`. One that is held up starts a new grid when it comes, as if it had
not been due before. -/
def putOff (s : Sweeper) (t : Nat) : Sweeper :=
  { s with next := max s.next t }

/-- The last tick of the grid that comes by `now` when time flows: the schedule just before it, and when it
comes. -/
def lastTick? (s : Sweeper) (now : Nat) : Option (Sweeper × Nat) :=
  if s.isDue now then
    let last := { s with next := s.next + s.interval * ((Clock.floor now - s.next) / s.interval) }
    .some (last, Clock.firing last.next)
  else .none

end Sweeper

end TokenGate
