/-
Exchanges: work that asks questions of the outside and goes on with the answers, and which can be suspended at any
question. Validations and the calls of a provider are exchanges, so that any number of them can be under way at
once, and so that what one does can be stated for every sequence of answers.
-/
namespace TokenGate

/-- Work that ends in an `R` and asks questions on the way; `Answer q` holds the answers to the question `q`. -/
inductive Exchange {Q : Type} (Answer : Q → Type) (R : Type) where
  | done (result : R)
  | ask (question : Q) (resume : Answer question → Exchange Answer R)

namespace Exchange

variable {Q : Type} {Answer : Q → Type} {R S T : Type}

/-- First `x`, and then what `f` makes of its result. -/
def bind (x : Exchange Answer R) (f : R → Exchange Answer S) : Exchange Answer S :=
  match x with
  | done r => f r
  | ask q resume => ask q fun a => (resume a).bind f

/-- `x` with its result changed by `f`. -/
def map (f : R → S) (x : Exchange Answer R) : Exchange Answer S :=
  x.bind fun r => done (f r)

/-- What comes of `x` when each question gets the answer that `answer` has for it. -/
def result (answer : (q : Q) → Answer q) : Exchange Answer R → R
  | done r => r
  | ask q resume => (resume (answer q)).result answer

/-- The questions that `x` asks when each gets the answer that `answer` has for it. -/
def questions (answer : (q : Q) → Answer q) : Exchange Answer R → List Q
  | done _ => []
  | ask q resume => q :: (resume (answer q)).questions answer

@[simp] theorem done_bind (r : R) (f : R → Exchange Answer S) : (done r).bind f = f r := rfl

@[simp] theorem ask_bind (q : Q) (resume : Answer q → Exchange Answer R) (f : R → Exchange Answer S) :
    (ask q resume).bind f = ask q fun a => (resume a).bind f := rfl

theorem bind_assoc (x : Exchange Answer R) (f : R → Exchange Answer S) (g : S → Exchange Answer T) :
    (x.bind f).bind g = x.bind fun r => (f r).bind g := by
  induction x with
  | done => rfl
  | ask q resume ih => simp only [ask_bind]; exact congrArg _ (funext ih)

/-- The second part of an exchange starts from the result of the first. -/
theorem result_bind (answer : (q : Q) → Answer q) (x : Exchange Answer R) (f : R → Exchange Answer S) :
    (x.bind f).result answer = (f (x.result answer)).result answer := by
  induction x with
  | done => rfl
  | ask q resume ih => exact ih (answer q)

/-- The questions of the second part follow those of the first. -/
theorem questions_bind (answer : (q : Q) → Answer q) (x : Exchange Answer R) (f : R → Exchange Answer S) :
    (x.bind f).questions answer = x.questions answer ++ (f (x.result answer)).questions answer := by
  induction x with
  | done => rfl
  | ask q resume ih => simp only [ask_bind, questions, result, List.cons_append, ih]

end Exchange

end TokenGate
