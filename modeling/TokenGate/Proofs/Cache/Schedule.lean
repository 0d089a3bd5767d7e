/-
When a cache is swept.

A tick puts the next one at most one interval off, and what it leaves there has not expired
(`Runs.scheduled_ticked`). So the next tick never comes later than one interval after an entry has expired, whether the
ticks come on time or late: `Scheduled` says this of a state, and everything keeps it but a stop and a tick that is put
off.
-/
import TokenGate.Proofs.Cache.Representation
import TokenGate.Proofs.Cache.Sweeps

namespace TokenGate

/-! ## Ticks -/

namespace Sweeper

variable {s : Sweeper} {now : Nat}

theorem isDue_iff : s.isDue now = true ↔ Clock.firing s.next ≤ now := by
  simp [isDue]

/-- The tick after one that comes at `now`: on the grid, or where that was late, one interval later. -/
theorem tick_eq (hdue : s.next ≤ now) (hin : now ≤ s.next + lateness → now < s.next + s.interval) :
    s.tick now = { s with next := if now ≤ s.next + lateness then s.next + s.interval else now + s.interval } := by
  unfold tick
  by_cases h : now ≤ s.next + lateness
  · have hin := hin h
    have hsame : (now - s.next) / s.interval = 0 := Nat.div_eq_of_lt (by omega)
    rw [if_neg (Nat.not_lt.2 h), if_pos h, hsame, Nat.zero_add, Nat.mul_one]
  · rw [if_pos (Nat.lt_of_not_le h), if_neg h]

theorem firing_le_add_lateness (t : Nat) : Clock.firing t ≤ t + lateness := by
  unfold Clock.firing lateness Clock.millisecond; omega

end Sweeper

namespace Cache

variable {c : Cache} {i k next now t ttl maxSize : Nat}

/-! ## Time -/

/-- The sweeper of `c` has the schedule `s`, and it has not been told to stop. -/
structure Runs (c : Cache) (s : Sweeper) : Prop where
  sweeper_eq : c.sweeper = .some s
  isStopping_eq : c.isStopping = false

/-- A tick has come at `u`, and the schedule is `s` from then on. -/
def ticked (c : Cache) (u : Nat) (s : Sweeper) : Cache :=
  { c.sweep u with sweeper := .some s }

theorem Runs.ticked {s s' : Sweeper} (h : c.Runs s) (u : Nat) : (c.ticked u s').Runs s' :=
  ⟨rfl, h.isStopping_eq⟩

/-- What a tick leaves does not depend on those before it. -/
theorem ticked_ticked {s s' : Sweeper} {u : Nat} (h : t ≤ u) (c : Cache) :
    (c.ticked t s).ticked u s' = c.ticked u s' := by
  have hlive : live (live c.entries t) u = live c.entries u := live_live h c.entries
  unfold live at hlive
  simp only [Cache.ticked, sweep, publish, size, hlive]

/-- A sweeper that has been told to stop ends. -/
theorem flow_of_isStopping (h : c.isStopping = true) (t : Nat) : c.flow t = { c with sweeper := .none } := by
  rw [flow, if_pos h]

theorem Runs.flow_eq {s : Sweeper} (h : c.Runs s) (t : Nat) :
    c.flow t = match s.lastTick? t with
      | .some (s', u) => c.ticked u (s'.tick u)
      | .none => c := by
  rw [flow, h.isStopping_eq, h.sweeper_eq, Option.bind_some, if_neg Bool.false_ne_true]
  cases s.lastTick? t <;> rfl

/-- Where the sweeper has ended, time leaves everything as it is. -/
theorem flow_of_ended (h : c.sweeper = .none) (t : Nat) : c.flow t = c := by
  unfold flow
  rw [h]
  split
  next => rw [← h]
  next => rfl

theorem flow_of_lt_firing (h : c.Runs ⟨i, next⟩) (ht : t < Clock.firing next) : c.flow t = c := by
  have hdue : ¬ (⟨i, next⟩ : Sweeper).isDue t = true := fun h => absurd (Sweeper.isDue_iff.1 h) (Nat.not_le.2 ht)
  rw [h.flow_eq, Sweeper.lastTick?, if_neg hdue]

/-- Where time flows until a tick of the grid has come and the next one has not, that tick leaves what is left. -/
theorem flow_of_grid (h : c.Runs ⟨i, next⟩) (hcome : Clock.firing (next + i * k) ≤ t)
    (hnext : t < Clock.firing (next + i * (k + 1))) :
    c.flow t = c.ticked (Clock.firing (next + i * k)) ⟨i, next + i * (k + 1)⟩ := by
  have hfrom : next + i * k ≤ Clock.floor t := (Clock.firing_le_iff _ _).1 hcome
  have hto : Clock.floor t < next + i * (k + 1) := by
    rwa [← Nat.not_le, Clock.firing_le_iff, Nat.not_le] at hnext
  have hdue : (⟨i, next⟩ : Sweeper).isDue t = true :=
    Sweeper.isDue_iff.2 ((Clock.firing_le_iff _ _).2 (Nat.le_trans (Nat.le_add_right ..) hfrom))
  have hlast : (Clock.floor t - next) / i = k := by
    refine Nat.div_eq_of_lt_le ?_ ?_
    · rw [Nat.mul_comm]; omega
    · rw [Nat.mul_comm]; omega
  have hin : Clock.firing (next + i * k) < next + i * k + i := by
    rw [Nat.mul_succ, ← Nat.add_assoc] at hto
    refine Nat.lt_of_le_of_lt ((Clock.firing_le_iff _ _).2 ?_) hto
    rwa [Clock.floor_floor]
  have htick := Sweeper.tick_eq (s := ⟨i, next + i * k⟩) (Clock.le_firing _) fun _ => hin
  rw [h.flow_eq, Sweeper.lastTick?, if_pos hdue]
  dsimp only at htick ⊢
  rw [hlast, htick, if_pos (Sweeper.firing_le_add_lateness _), Nat.add_assoc, ← Nat.mul_succ]

/-- Where time flows, the ticks stay on their grid, and the next one has not come. -/
theorem flow_cases (h : c.Runs ⟨i, next⟩) (hpos : 0 < i) (t : Nat) :
    (t < Clock.firing next ∧ c.flow t = c) ∨
    ∃ k, Clock.firing (next + i * k) ≤ t ∧ t < Clock.firing (next + i * (k + 1)) ∧
      c.flow t = c.ticked (Clock.firing (next + i * k)) ⟨i, next + i * (k + 1)⟩ := by
  by_cases hdue : Clock.firing next ≤ t
  · have hfirst : next ≤ Clock.floor t := (Clock.firing_le_iff _ _).1 hdue
    have hlast := Nat.mul_div_le (Clock.floor t - next) i
    have hafter := Nat.lt_mul_div_succ (Clock.floor t - next) hpos
    have hcome : Clock.firing (next + i * ((Clock.floor t - next) / i)) ≤ t :=
      (Clock.firing_le_iff _ _).2 (by omega)
    have hnext : t < Clock.firing (next + i * ((Clock.floor t - next) / i + 1)) := by
      rw [← Nat.not_le, Clock.firing_le_iff]
      omega
    exact .inr ⟨_, hcome, hnext, flow_of_grid h hcome hnext⟩
  · exact .inl ⟨Nat.lt_of_not_le hdue, flow_of_lt_firing h (Nat.lt_of_not_le hdue)⟩

/-- Without an interval, one tick comes again and again. -/
theorem flow_of_interval_zero (h : c.Runs ⟨0, next⟩) (t : Nat) :
    c.flow t = if Clock.firing next ≤ t then c.ticked (Clock.firing next) ⟨0, next⟩ else c := by
  by_cases hdue : Clock.firing next ≤ t
  · have hisDue : (⟨0, next⟩ : Sweeper).isDue t = true := Sweeper.isDue_iff.2 hdue
    have hlast : (⟨0, next⟩ : Sweeper).lastTick? t = .some (⟨0, next⟩, Clock.firing next) := by
      rw [Sweeper.lastTick?, if_pos hisDue]
      simp only [Nat.zero_mul, Nat.add_zero]
    have htick : (⟨0, next⟩ : Sweeper).tick (Clock.firing next) = ⟨0, next⟩ := by
      rw [Sweeper.tick, if_neg (Nat.not_lt.2 (Sweeper.firing_le_add_lateness next))]
      simp only [Nat.zero_mul, Nat.add_zero]
    rw [if_pos hdue, h.flow_eq, hlast]
    dsimp only
    rw [htick]
  · rw [if_neg hdue, flow_of_lt_firing h (Nat.lt_of_not_le hdue)]

/-- Time that flows in two stretches flows as in one. -/
theorem flow_flow {u : Nat} (h : t ≤ u) (c : Cache) : (c.flow t).flow u = c.flow u := by
  by_cases hstopping : c.isStopping = true
  · rw [flow_of_isStopping hstopping, flow_of_isStopping hstopping, flow_of_ended rfl]
  cases hsweeper : c.sweeper with
  | none => rw [flow_of_ended hsweeper]
  | some sweeper =>
    obtain ⟨i, next⟩ := sweeper
    have hruns : c.Runs ⟨i, next⟩ := ⟨hsweeper, Bool.eq_false_iff.2 hstopping⟩
    rcases Nat.eq_zero_or_pos i with rfl | hpos
    · rw [flow_of_interval_zero hruns t]
      split
      next hdue =>
        rw [flow_of_interval_zero hruns, flow_of_interval_zero (hruns.ticked _), if_pos (Nat.le_trans hdue h),
          if_pos (Nat.le_trans hdue h), ticked_ticked (Nat.le_refl _)]
      next => rfl
    · rcases flow_cases hruns hpos t with ⟨-, heq⟩ | ⟨k, hcome, -, heq⟩
      · rw [heq]
      · rw [heq]
        have hlater : (c.ticked (Clock.firing (next + i * k)) ⟨i, next + i * (k + 1)⟩).Runs _ := hruns.ticked _
        rcases flow_cases hlater hpos u with ⟨hnext, heq⟩ | ⟨l, hcome', hnext, heq⟩
        · rw [heq, flow_of_grid hruns (Nat.le_trans hcome h) hnext]
        · have hgrid (m : Nat) : next + i * (k + 1) + i * m = next + i * (k + 1 + m) := by
            rw [Nat.mul_add i (k + 1), Nat.add_assoc]
          rw [hgrid] at hcome' heq
          rw [hgrid, ← Nat.add_assoc] at hnext heq
          have hle : Clock.firing (next + i * k) ≤ Clock.firing (next + i * (k + 1 + l)) :=
            Clock.firing_mono (Nat.add_le_add_left (Nat.mul_le_mul_left i (by omega)) next)
          rw [heq, flow_of_grid hruns hcome' hnext, ticked_ticked hle]

/-- A tick that is due comes at once, and the next one is on the grid unless it came late. -/
theorem tick_eq (h : c.Runs ⟨i, next⟩) (hlate : Sweeper.lateness < i) (now : Nat) :
    c.tick now =
      if Clock.firing next ≤ now then
        c.ticked now ⟨i, if now ≤ next + Sweeper.lateness then next + i else now + i⟩
      else c := by
  have hiff : Sweeper.isDue ⟨i, next⟩ now = true ↔ Clock.firing next ≤ now := Sweeper.isDue_iff
  unfold tick
  rw [h.sweeper_eq, h.isStopping_eq]
  dsimp only
  by_cases hdue : Clock.firing next ≤ now
  · have hle : next ≤ now := Nat.le_trans (Clock.le_firing next) hdue
    have hin (h : now ≤ next + Sweeper.lateness) : now < next + i :=
      Nat.lt_of_le_of_lt h (Nat.add_lt_add_left hlate next)
    rw [if_pos hdue, if_pos (hiff.2 hdue), Sweeper.tick_eq (s := ⟨i, next⟩) hle hin]
    rfl
  · rw [if_neg hdue, if_neg (mt hiff.1 hdue)]

/-- Only telling it to stop has to do with the sweeper. -/
theorem act_sweeper (c : Cache) (now : Nat) (op : Op) (hop : op ≠ .stop) :
    (c.act now op).2.sweeper = c.sweeper ∧ (c.act now op).2.isStopping = c.isStopping := by
  cases op with
  | get token =>
    obtain ⟨_, _, h⟩ := c.get_eq now token
    rw [act, h]
    exact ⟨rfl, rfl⟩
  | set token o =>
    simp only [act, set_eq]
    split
    next =>
      obtain ⟨_, h⟩ := c.put_eq (Fingerprint.ofToken token) o (now + c.ttl)
      rw [h]
      exact ⟨rfl, rfl⟩
    next => exact ⟨rfl, rfl⟩
  | delete token => exact ⟨rfl, rfl⟩
  | sweep => exact ⟨rfl, rfl⟩
  | stop => exact absurd rfl hop

/-! ## The schedule -/

/-- The next tick is due at `next`, not later than one interval from `now`, and earlier than one interval after an
entry has expired. -/
structure Scheduled (c : Cache) (i next now : Nat) : Prop where
  runs : c.Runs ⟨i, next⟩
  next_le : next ≤ now + i
  next_lt : ∀ x ∈ c.entries, next < x.2.expiresAt + i

theorem Scheduled.start (httl : 0 < ttl) (maxSize now : Nat) :
    Scheduled (start ttl maxSize now) (Sweeper.intervalFor ttl) (now + Sweeper.intervalFor ttl) now where
  runs := ⟨by simp [Cache.start, Sweeper.start, Nat.ne_of_gt httl], rfl⟩
  next_le := Nat.le_refl _
  next_lt x hx := by cases hx

theorem Scheduled.mono (h : Scheduled c i next now) {later : Nat} (hle : now ≤ later) : Scheduled c i next later :=
  { h with next_le := Nat.le_trans h.next_le (Nat.add_le_add_right hle i) }

/-- A sweep makes good for whatever has happened before it. -/
theorem Runs.scheduled_ticked {s : Sweeper} (h : c.Runs s) {u : Nat} (hle : u ≤ now) (hnext : next ≤ u + i) :
    Scheduled (c.ticked u ⟨i, next⟩) i next now where
  runs := h.ticked u
  next_le := by omega
  next_lt x hx := by
    have hlive : u < x.2.expiresAt := by simpa [Entry.isLive] using (List.mem_filter.1 hx).2
    omega

theorem Scheduled.flow (h : Scheduled c i next now) (hpos : 0 < i) (hle : t ≤ now) :
    ∃ next', Scheduled (c.flow t) i next' now := by
  rcases flow_cases h.runs hpos t with ⟨-, heq⟩ | ⟨k, hcome, -, heq⟩
  · exact ⟨next, by rw [heq]; exact h⟩
  · have hdue := Clock.le_firing (next + i * k)
    rw [heq]
    exact ⟨_, h.runs.scheduled_ticked (Nat.le_trans hcome hle) (by rw [Nat.mul_succ]; omega)⟩

theorem Scheduled.tick (h : Scheduled c i next now) (hlate : Sweeper.lateness < i) (hle : t ≤ now) :
    ∃ next', Scheduled (c.tick t) i next' now := by
  rw [tick_eq h.runs hlate]
  split
  next hdue =>
    have hdue := Nat.le_trans (Clock.le_firing next) hdue
    exact ⟨_, h.runs.scheduled_ticked hle (by split <;> omega)⟩
  next => exact ⟨next, h⟩

/-- A new entry lives longer than it takes until the next tick. -/
theorem Scheduled.act (h : Scheduled c i next now) (httl : 0 < c.ttl) {op : Op} (hop : op ≠ .stop) :
    Scheduled (c.act now op).2 i next now where
  runs := ⟨(c.act_sweeper now op hop).1.trans h.runs.sweeper_eq, (c.act_sweeper now op hop).2.trans h.runs.isStopping_eq⟩
  next_le := h.next_le
  next_lt x hx := by
    rcases c.act_cases now op with ⟨token, o, -, -, heq⟩ | ⟨hs, -, -, -⟩
    · rw [heq, put_entries, List.mem_cons] at hx
      rcases hx with rfl | hx
      · have hle := h.next_le
        dsimp only
        omega
      · exact h.next_lt x ((c.room_sublist _).subset hx)
    · exact h.next_lt x (hs.subset hx)

end Cache

end TokenGate
