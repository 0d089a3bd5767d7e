/-
Timers on their wheel.

A timer goes off on a whole millisecond, the first that is not before its instant. The wheel has 64 slots and comes to
the next one with every window of 2^30 milliseconds. Of the timers of the present window the first in time goes off
first. Where there is none, the wheel turns to the nearest slot in which a timer lies, and the present one is nearer
than any other. A timer that lies there but is not due for a turn or more stays in its slot, and the wheel turns round
for it and past all others.

So timers go off in order and in time where none is set farther ahead than the wheel reaches (`isBefore_eq`), and one
that is set farther ahead holds up others.
-/
import TokenGate.Clock

namespace TokenGate.Timer

/-- How long the wheel stays at one slot. -/
def window : Nat := 1073741824 * Clock.millisecond

/-- How many slots the wheel has. -/
def slots : Nat := 64

/-- How far ahead a timer may be set that is in time and holds up no other. -/
def reach : Nat := (slots - 1) * window - Clock.millisecond

/-- The number of the window in which an instant lies. -/
def windowOf (t : Nat) : Nat :=
  t / window

/-- How many slots after that of `now` the slot of `t` comes. -/
def slotsAhead (now t : Nat) : Nat :=
  (windowOf t + (slots - 1) * windowOf now) % slots

/-- Where in the order of the wheel a timer comes that is set to `t`: the present window is before all slots. -/
def rank (now t : Nat) : Nat :=
  if windowOf t = windowOf now then 0 else slotsAhead now t + 1

/-- Whether a timer that is set to `t` goes off before one that is set to `u`. -/
def isBefore (now t u : Nat) : Bool :=
  rank now t < rank now u || (rank now t == rank now u && t < u)

/-- When the next timer goes off if it is set to `t`. One that has been held up goes off when its slot comes. -/
def goesOff (now t : Nat) : Nat :=
  if now ≤ t then t
  else (windowOf now + if slotsAhead now t = 0 then slots else slotsAhead now t) * window

/-- Whether a timer that is set to `t` at `now` is a turn of the wheel ahead or more, so that it holds up others. -/
def isFar (now t : Nat) : Bool :=
  windowOf now + slots ≤ windowOf (Clock.firing t)

/-- From when on a timer that is far holds up others: they go off until the wheel is to leave its slot. -/
def holdsFrom (now t : Nat) : Nat :=
  (windowOf now + slotsAhead now (Clock.firing t) + 1) * window

/-- Until when a timer that is far holds up one that lies in the slot after its own. -/
def holdsUntil (t : Nat) : Nat :=
  (windowOf (Clock.firing t) + 1) * window

/-- What a timer is set to at `now` that is to go off after `d`, if the clock can tell. -/
def set? (now d : Nat) : Option Nat :=
  (Clock.later? now (Clock.postponed now d)).map Clock.firing

variable {now t u d : Nat}

theorem set?_eq (h : now + d < Clock.horizon) : set? now d = .some (Clock.firing (now + d)) := by
  rw [set?, Clock.postponed_eq, if_pos h, Clock.later?_eq_some_iff.2 ⟨rfl, h⟩, Option.map_some]

/-- A timer goes off no earlier than it is set and no later than the first whole millisecond that it is to go off at. -/
theorem set?_bounds (h : set? now d = .some t) : now ≤ t ∧ t ≤ Clock.firing (now + d) := by
  obtain ⟨u, hlater, rfl⟩ := Option.map_eq_some_iff.1 h
  obtain ⟨rfl, hhorizon⟩ := Clock.later?_eq_some_iff.1 hlater
  exact ⟨Nat.le_trans (Nat.le_add_right ..) (Clock.le_firing _),
    Clock.firing_mono (Nat.add_le_add_left (Clock.postponed_le hhorizon) _)⟩

/-! ## Timers within reach -/

theorem windowOf_mono (h : t ≤ u) : windowOf t ≤ windowOf u :=
  Nat.div_le_div_right h

theorem windowOf_lt_of_le_reach (h : t ≤ Clock.firing (now + reach)) : windowOf t < windowOf now + slots := by
  have hreach : Clock.firing (now + reach) ≤ now + (slots - 1) * window := by
    unfold reach slots window Clock.firing Clock.millisecond; omega
  have hwindow : windowOf (now + (slots - 1) * window) = windowOf now + (slots - 1) :=
    Nat.add_mul_div_right _ _ (by decide)
  have hle := windowOf_mono (Nat.le_trans h hreach)
  rw [hwindow] at hle
  exact Nat.lt_of_le_of_lt hle (Nat.add_lt_add_left (by decide) _)

/-- Within one turn of the wheel, windows come in order. -/
theorem rank_eq (h : now ≤ t) (hin : windowOf t < windowOf now + slots) :
    rank now t = if windowOf t = windowOf now then 0 else windowOf t - windowOf now + 1 := by
  have hle := windowOf_mono h
  unfold rank slotsAhead slots at *
  split
  next => rfl
  next => omega

/-- Within one turn of the wheel, timers go off in order. -/
theorem isBefore_eq (ht : now ≤ t) (hu : now ≤ u) (htin : windowOf t < windowOf now + slots)
    (huin : windowOf u < windowOf now + slots) : isBefore now t u = decide (t < u) := by
  have hrank : rank now t < rank now u ↔ windowOf t < windowOf u := by
    have hlet := windowOf_mono ht
    have hleu := windowOf_mono hu
    rw [rank_eq ht htin, rank_eq hu huin]
    split <;> split <;> omega
  have hsame : rank now t = rank now u ↔ windowOf t = windowOf u := by
    have hlet := windowOf_mono ht
    have hleu := windowOf_mono hu
    rw [rank_eq ht htin, rank_eq hu huin]
    split <;> split <;> omega
  rw [isBefore, Bool.eq_iff_iff]
  simp only [Bool.or_eq_true, Bool.and_eq_true, beq_iff_eq, decide_eq_true_iff, hrank, hsame]
  constructor
  · rintro (h | h)
    · exact Nat.lt_of_not_le fun hle => Nat.not_le.2 h (windowOf_mono hle)
    · exact h.2
  · intro h
    exact (Nat.lt_or_eq_of_le (windowOf_mono (Nat.le_of_lt h))).imp_right fun heq => ⟨heq, h⟩

/-- What is set to an earlier instant goes off first. -/
theorem isBefore_of_lt (ht : now ≤ t) (h : t < u) (huin : windowOf u < windowOf now + slots) :
    isBefore now t u = true := by
  have hle : windowOf t ≤ windowOf u := windowOf_mono (Nat.le_of_lt h)
  rw [isBefore_eq ht (Nat.le_trans ht (Nat.le_of_lt h)) (Nat.lt_of_le_of_lt hle huin) huin]
  exact decide_eq_true h

/-- What is set to a later instant does not go off first, unless it is too far ahead and the other is not in the present
window. -/
theorem isBefore_eq_false (hu : now ≤ u) (h : u ≤ t)
    (hin : windowOf u = windowOf now ∨ windowOf t < windowOf now + slots) : isBefore now t u = false := by
  rcases hin with hpresent | htin
  · have hfirst : rank now u = 0 := if_pos hpresent
    simp [isBefore, hfirst, Nat.not_lt_of_le h]
  · rw [isBefore_eq (Nat.le_trans hu h) hu htin (Nat.lt_of_le_of_lt (windowOf_mono h) htin)]
    exact decide_eq_false (Nat.not_lt_of_le h)

theorem goesOff_eq (h : now ≤ t) : goesOff now t = t :=
  if_pos h

theorem now_le_goesOff (now t : Nat) : now ≤ goesOff now t := by
  unfold goesOff
  split
  next h => exact h
  next =>
    have hnext : now < (windowOf now + 1) * window := Nat.lt_mul_of_div_lt (Nat.lt_succ_self _) (by decide)
    refine Nat.le_trans (Nat.le_of_lt hnext) (Nat.mul_le_mul_right _ (Nat.add_le_add_left ?_ _))
    split
    next => decide
    next h => exact Nat.pos_of_ne_zero h

theorem le_goesOff (now t : Nat) : t ≤ goesOff now t := by
  by_cases h : now ≤ t
  · exact Nat.le_of_eq (goesOff_eq h).symm
  · exact Nat.le_trans (Nat.le_of_not_le h) (now_le_goesOff now t)

theorem isFar_eq_false (h : d ≤ reach) : isFar now (now + d) = false := by
  have hlt : windowOf (Clock.firing (now + d)) < windowOf now + slots :=
    windowOf_lt_of_le_reach (Clock.firing_mono (Nat.add_le_add_left h now))
  exact decide_eq_false (Nat.not_le.2 hlt)

theorem isFar_eq_false_of_le (hu : Clock.firing u = u) (h : t ≤ u) (huin : windowOf u < windowOf now + slots) :
    isFar now t = false := by
  have hle : Clock.firing t ≤ u := Nat.le_trans (Clock.firing_mono h) (Nat.le_of_eq hu)
  exact decide_eq_false (Nat.not_le.2 (Nat.lt_of_le_of_lt (windowOf_mono hle) huin))

/-- A timer that is far begins to hold up others before it goes off. -/
theorem holdsFrom_le (h : isFar now t = true) : holdsFrom now t ≤ Clock.firing t := by
  have hfar : windowOf now + slots ≤ windowOf (Clock.firing t) := of_decide_eq_true h
  have hahead : slotsAhead now (Clock.firing t) < slots := Nat.mod_lt _ (by decide)
  calc holdsFrom now t ≤ windowOf (Clock.firing t) * window := Nat.mul_le_mul_right _ (by omega)
    _ ≤ Clock.firing t := Nat.div_mul_le_self _ _

/-- What goes off before a timer that is not overdue is not later, unless it is far. -/
theorem lt_or_isFar_of_isBefore (ht : now ≤ t) (hu : now ≤ u) (h : isBefore now t u = true) :
    t < u ∨ isFar now t = true := by
  refine Classical.or_iff_not_imp_right.2 fun hfar => Nat.lt_of_not_le fun hle => ?_
  have htin : windowOf t < windowOf now + slots := by
    refine Nat.lt_of_le_of_lt (windowOf_mono (Clock.le_firing t)) ?_
    simpa [isFar] using hfar
  have huin : windowOf u < windowOf now + slots := Nat.lt_of_le_of_lt (windowOf_mono hle) htin
  rw [isBefore_eq ht hu htin huin, decide_eq_true_iff] at h
  exact Nat.not_le.2 h hle

end TokenGate.Timer
