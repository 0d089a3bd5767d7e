/-
Transcripts: what an exchange was answered, question by question.

`x.Leads log y` says where `x` stands when its questions have got the answers of `log`; `x.Yields log r` says that it
has come to its end with them. A transcript of two exchanges in a row is one of the first followed by one of the
second (`yields_bind`). `x.Throughout P` says that `P` holds of every question of every transcript of `x`, and of how
`x` goes on with the answer. Where all answers are of one kind, `x.resultFrom as` is what comes of `x` when they are
those of an endless sequence, and `x.questionsFrom as` is what it asks then.
-/
import TokenGate.Exchange

namespace TokenGate

/-- An answer, with the question that it answers. -/
abbrev Answered {Q : Type} (Answer : Q → Type) := (q : Q) × Answer q

namespace Exchange

variable {Q : Type} {Answer : Q → Type} {R S : Type}

/-- With the answers of `log` to the questions that it asks, in order, `x` goes on as `y`. -/
inductive Leads : Exchange Answer R → List (Answered Answer) → Exchange Answer R → Prop where
  | nil {x : Exchange Answer R} : Leads x [] x
  | cons {q : Q} {a : Answer q} {resume : Answer q → Exchange Answer R} {log : List (Answered Answer)}
      {y : Exchange Answer R} : Leads (resume a) log y → Leads (ask q resume) (⟨q, a⟩ :: log) y

/-- With the answers of `log`, and no fewer, `x` comes to the result `r`. -/
def Yields (x : Exchange Answer R) (log : List (Answered Answer)) (r : R) : Prop :=
  x.Leads log (done r)

theorem Leads.append {x y z : Exchange Answer R} {l l' : List (Answered Answer)} (h : x.Leads l y)
    (h' : y.Leads l' z) : x.Leads (l ++ l') z := by
  induction h with
  | nil => exact h'
  | cons _ ih => exact .cons (ih h')

/-- One more answer. -/
theorem Leads.snoc {x : Exchange Answer R} {q : Q} {resume : Answer q → Exchange Answer R}
    {log : List (Answered Answer)} (h : x.Leads log (ask q resume)) (a : Answer q) :
    x.Leads (log ++ [⟨q, a⟩]) (resume a) :=
  h.append (.cons .nil)

/-- Whatever it is answered, `P` holds of each question that `x` asks, together with how `x` goes on with the
answer. -/
def Throughout (P : (q : Q) → (Answer q → Exchange Answer R) → Prop) : Exchange Answer R → Prop
  | done _ => True
  | ask q resume => P q resume ∧ ∀ a, (resume a).Throughout P

theorem Throughout.of_leads {P : (q : Q) → (Answer q → Exchange Answer R) → Prop} {x y : Exchange Answer R}
    {log : List (Answered Answer)} (hx : x.Throughout P) (h : x.Leads log y) : y.Throughout P := by
  induction h with
  | nil => exact hx
  | cons _ ih => exact ih (hx.2 _)

theorem yields_done {r s : R} {log : List (Answered Answer)} :
    (done r : Exchange Answer R).Yields log s ↔ log = [] ∧ r = s := by
  constructor
  · intro h; cases h; exact ⟨rfl, rfl⟩
  · rintro ⟨rfl, rfl⟩; exact .nil

theorem yields_ask {q : Q} {resume : Answer q → Exchange Answer R} {log : List (Answered Answer)} {r : R} :
    (ask q resume).Yields log r ↔ ∃ a rest, log = ⟨q, a⟩ :: rest ∧ (resume a).Yields rest r := by
  constructor
  · intro h
    cases h with
    | cons h => exact ⟨_, _, rfl, h⟩
  · rintro ⟨a, rest, rfl, h⟩; exact .cons h

theorem yields_bind {x : Exchange Answer R} {f : R → Exchange Answer S} {log : List (Answered Answer)} {s : S} :
    (x.bind f).Yields log s ↔ ∃ l l' r, log = l ++ l' ∧ x.Yields l r ∧ (f r).Yields l' s := by
  induction x generalizing log with
  | done r =>
    simp only [done_bind, yields_done]
    constructor
    · intro h; exact ⟨[], log, r, rfl, ⟨rfl, rfl⟩, h⟩
    · rintro ⟨_, l', _, rfl, ⟨rfl, rfl⟩, h⟩; exact h
  | ask q resume ih =>
    simp only [ask_bind, yields_ask, ih]
    constructor
    · rintro ⟨a, _, rfl, l, l', r, rfl, h, h'⟩
      exact ⟨⟨q, a⟩ :: l, l', r, rfl, ⟨a, l, rfl, h⟩, h'⟩
    · rintro ⟨_, l', r, rfl, ⟨a, l, rfl, h⟩, h'⟩
      exact ⟨a, l ++ l', rfl, l, l', r, rfl, h, h'⟩

theorem yields_map {x : Exchange Answer R} {f : R → S} {log : List (Answered Answer)} {s : S} :
    (x.map f).Yields log s ↔ ∃ r, x.Yields log r ∧ f r = s := by
  simp only [map, yields_bind, yields_done]
  constructor
  · rintro ⟨l, _, r, rfl, h, rfl, rfl⟩; exact ⟨r, by simpa using h, rfl⟩
  · rintro ⟨r, h, rfl⟩; exact ⟨log, [], r, by simp, h, rfl, rfl⟩

/-! ## Sequences of answers -/

section

variable {A : Type}

/-- What comes of `x` when its questions get the answers `as`, in order. -/
def resultFrom : (x : Exchange (fun _ : Q => A) R) → (as : Nat → A) → R
  | done r, _ => r
  | ask _ resume, as => (resume (as 0)).resultFrom fun n => as (n + 1)

/-- The questions that `x` asks when they get the answers `as`, in order. -/
def questionsFrom : (x : Exchange (fun _ : Q => A) R) → (as : Nat → A) → List Q
  | done _, _ => []
  | ask q resume, as => q :: (resume (as 0)).questionsFrom fun n => as (n + 1)

theorem resultFrom_map (f : R → S) (x : Exchange (fun _ : Q => A) R) (as : Nat → A) :
    (x.map f).resultFrom as = f (x.resultFrom as) := by
  induction x generalizing as with
  | done r => rfl
  | ask q resume ih => exact ih (as 0) fun n => as (n + 1)

/-- A transcript shows the beginning of a sequence. -/
theorem Yields.resultFrom_eq {x : Exchange (fun _ : Q => A) R} {log : List (Answered fun _ : Q => A)} {r : R}
    (h : x.Yields log r) {as : Nat → A} (has : ∀ n a, log[n]? = .some a → as n = a.2) : x.resultFrom as = r := by
  induction x generalizing log as with
  | done s =>
    obtain ⟨-, rfl⟩ := yields_done.1 h
    rfl
  | ask q resume ih =>
    obtain ⟨a, rest, rfl, hrest⟩ := yields_ask.1 h
    obtain rfl : as 0 = a := has 0 _ rfl
    exact ih _ hrest fun n b hn => has (n + 1) b hn

end

end Exchange

end TokenGate
