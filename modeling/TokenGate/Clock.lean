/-
The clock. Durations are whole nanoseconds, and an instant is the duration since the start. Timers go off on whole
milliseconds only, and no instant reaches the horizon.
-/
namespace TokenGate.Clock

/-- One millisecond. -/
def millisecond : Nat := 1000000

/-- One second. -/
def second : Nat := 1000000000

/-- No instant reaches this one: the seconds of an instant are a signed word of 64 bits. -/
def horizon : Nat := (1 <<< 63 - 1) * second

/-- The instant `d` after `now`, where there is one. -/
def later? (now : Nat) (d : Nat) : Option Nat :=
  if now + d < horizon then .some (now + d) else .none

/-- How far off a timer is put whose instant the clock cannot tell: thirty years. -/
def farOff : Nat := 86400 * 365 * 30 * second

/-- How far off a timer is put that is to go off `d` after `now`. -/
def postponed (now : Nat) (d : Nat) : Nat :=
  match later? now d with
  | .some _ => d
  | .none => farOff

/-- The first whole millisecond that is not before `t`: a timer set to `t` goes off then. -/
def firing (t : Nat) : Nat :=
  (t + (millisecond - 1)) / millisecond * millisecond

/-- The last whole millisecond that is not after `t`. -/
def floor (t : Nat) : Nat :=
  t / millisecond * millisecond

theorem later?_eq_some_iff {now d t : Nat} : later? now d = .some t ↔ t = now + d ∧ now + d < horizon := by
  unfold later?
  split
  next h => simp [h, eq_comm]
  next h => simp [h]

theorem later?_eq_none_iff {now d : Nat} : later? now d = .none ↔ horizon ≤ now + d := by
  unfold later?
  split
  next h => simp [h]
  next h => simpa using h

/-- Where the clock can tell its instant, a timer is put no farther off than it is to be. -/
theorem postponed_le {now d : Nat} (h : now + postponed now d < horizon) : postponed now d ≤ d := by
  unfold postponed at h ⊢
  cases hlater : later? now d with
  | some t => exact Nat.le_refl _
  | none =>
    have hbeyond : horizon ≤ now + d := later?_eq_none_iff.1 hlater
    rw [hlater] at h
    exact Nat.le_of_lt (Nat.lt_of_add_lt_add_left (Nat.lt_of_lt_of_le h hbeyond))

theorem postponed_eq (now d : Nat) : postponed now d = if now + d < horizon then d else farOff := by
  unfold postponed later?
  by_cases h : now + d < horizon
  · simp only [if_pos h]
  · simp only [if_neg h]

@[simp] theorem postponed_postponed (now d : Nat) : postponed now (postponed now d) = postponed now d := by
  unfold postponed
  cases hlater : later? now d with
  | some t => simp only [hlater]
  | none => split <;> rfl

theorem le_firing (t : Nat) : t ≤ firing t := by
  unfold firing millisecond; omega

/-- A timer is late by less than a millisecond. -/
theorem firing_le (t : Nat) : firing t ≤ t + (millisecond - 1) := by
  unfold firing millisecond; omega

theorem firing_mono {t u : Nat} (h : t ≤ u) : firing t ≤ firing u := by
  unfold firing millisecond; omega

@[simp] theorem firing_firing (t : Nat) : firing (firing t) = firing t := by
  unfold firing millisecond; omega

@[simp] theorem floor_floor (t : Nat) : floor (floor t) = floor t := by
  unfold floor millisecond; omega

/-- A timer has gone off by `u` exactly when its instant is at most the last whole millisecond. -/
theorem firing_le_iff (t u : Nat) : firing t ≤ u ↔ t ≤ floor u := by
  unfold firing floor millisecond; omega

end TokenGate.Clock
