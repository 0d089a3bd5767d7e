/-
Exchanges that have to come to an end in time.

The outside answers each question after some time, or never. `x.within outside now due` is what `x` comes to from `now`
on if it gets there before a timer goes off that is set to `due`, `x.arrival? outside` tells when it gets there at all,
and `x.schedule outside t` when it asks which question. `x.AsksAtMost n` bounds how many questions it asks, whatever it
is answered.
-/
import TokenGate.Exchange.Transcript
import TokenGate.Timer

namespace TokenGate.Exchange

variable {Q : Type} {Answer : Q → Type} {R S : Type}

/-- What `x` comes to from `now` on before a timer goes off that is set to `due`. -/
def within (outside : (q : Q) → Option (Nat × Answer q)) : Exchange Answer R → (now due : Nat) → Option R
  | done r, _, _ => .some r
  | ask q resume, now, due =>
    match outside q with
    | .some (d, a) => if Timer.isBefore now (now + d) due then (resume a).within outside (now + d) due else .none
    | .none => .none

/-- After how long `x` comes to its end, and to which; never, if a question is not answered. -/
def arrival? (outside : (q : Q) → Option (Nat × Answer q)) : Exchange Answer R → Option (Nat × R)
  | done r => .some (0, r)
  | ask q resume =>
    match outside q with
    | .some (d, a) => ((resume a).arrival? outside).map fun x => (d + x.1, x.2)
    | .none => .none

/-- The questions of an exchange that begins at `t`, and when it asks each. -/
def schedule (outside : (q : Q) → Option (Nat × Answer q)) : Exchange Answer R → (t : Nat) → List (Nat × Q)
  | done _, _ => []
  | ask q resume, t =>
    (t, q) ::
      match outside q with
      | .some (d, a) => (resume a).schedule outside (t + d)
      | .none => []

theorem arrival?_ask_eq_some_iff {outside : (q : Q) → Option (Nat × Answer q)} {q : Q}
    {resume : Answer q → Exchange Answer R} {d : Nat} {r : R} :
    (ask q resume).arrival? outside = .some (d, r) ↔
      ∃ e a d', outside q = .some (e, a) ∧ (resume a).arrival? outside = .some (d', r) ∧ d = e + d' := by
  rw [arrival?]
  constructor
  · intro h
    split at h
    next e a hanswer =>
      obtain ⟨⟨d', r'⟩, hrest, heq⟩ := Option.map_eq_some_iff.1 h
      cases heq
      exact ⟨e, a, d', hanswer, hrest, rfl⟩
    next => cases h
  · rintro ⟨e, a, d', hanswer, hrest, rfl⟩
    simp only [hanswer, hrest, Option.map_some]

/-- Nothing is asked before the beginning. -/
theorem le_of_mem_schedule {outside : (q : Q) → Option (Nat × Answer q)} {x : Exchange Answer R} {t : Nat}
    {y : Nat × Q} (h : y ∈ x.schedule outside t) : t ≤ y.1 := by
  induction x generalizing t with
  | done r => cases h
  | ask q resume ih =>
    unfold schedule at h
    rcases List.mem_cons.1 h with rfl | h
    · exact Nat.le_refl t
    · split at h
      next d a hanswer => exact Nat.le_trans (Nat.le_add_right t d) (ih a h)
      next => cases h

/-- An answer that comes in time is gone on with. -/
theorem within_of_isBefore {outside : (q : Q) → Option (Nat × Answer q)} {q : Q}
    {resume : Answer q → Exchange Answer R} {d now due : Nat} {a : Answer q} (h : outside q = .some (d, a))
    (hin : Timer.isBefore now (now + d) due = true) :
    (ask q resume).within outside now due = (resume a).within outside (now + d) due := by
  simp only [within, h, if_pos hin]

/-- Without an answer in time, there is no end in time. -/
theorem within_of_late {outside : (q : Q) → Option (Nat × Answer q)} {q : Q} {resume : Answer q → Exchange Answer R}
    {now due : Nat} (h : ∀ d a, outside q = .some (d, a) → Timer.isBefore now (now + d) due = false) :
    (ask q resume).within outside now due = .none := by
  unfold within
  split
  next d a hanswer => exact if_neg (by rw [h d a hanswer]; exact Bool.false_ne_true)
  next => rfl

/-- Whatever it is answered, `x` asks no more than `n` questions. -/
def AsksAtMost : (n : Nat) → Exchange Answer R → Prop
  | _, done _ => True
  | 0, ask _ _ => False
  | n + 1, ask _ resume => ∀ a, (resume a).AsksAtMost n

theorem asksAtMost_done (n : Nat) (r : R) : (done r : Exchange Answer R).AsksAtMost n := by
  cases n <;> trivial

theorem AsksAtMost.mono {x : Exchange Answer R} {m n : Nat} (h : x.AsksAtMost m) (hle : m ≤ n) : x.AsksAtMost n := by
  induction x generalizing m n with
  | done r => exact asksAtMost_done n r
  | ask q resume ih =>
    cases m with
    | zero => cases h
    | succ m =>
      cases n with
      | zero => exact absurd hle (Nat.not_succ_le_zero m)
      | succ n => exact fun a => ih a (h a) (Nat.le_of_succ_le_succ hle)

/-- The questions of two exchanges in a row. -/
theorem AsksAtMost.bind {x : Exchange Answer R} {f : R → Exchange Answer S} {m n : Nat} (h : x.AsksAtMost m)
    (hf : ∀ r, (f r).AsksAtMost n) : (x.bind f).AsksAtMost (m + n) := by
  induction x generalizing m with
  | done r => exact (hf r).mono (Nat.le_add_left n m)
  | ask q resume ih =>
    cases m with
    | zero => cases h
    | succ m =>
      rw [Nat.succ_add]
      exact fun a => ih a (h a)

theorem length_questionsFrom_le {A : Type} {x : Exchange (fun _ : Q => A) R} {n : Nat} (h : x.AsksAtMost n)
    (as : Nat → A) : (x.questionsFrom as).length ≤ n := by
  induction x generalizing n as with
  | done r => exact Nat.zero_le n
  | ask q resume ih =>
    cases n with
    | zero => cases h
    | succ n => exact Nat.succ_le_succ (ih (as 0) (h (as 0)) _)

end TokenGate.Exchange
