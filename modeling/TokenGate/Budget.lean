/-
The budget of calls that the forge grants: how many remain, and when the budget is renewed. Every response of the
forge may report either.
-/
import TokenGate.Http.Header
import TokenGate.Text.Blank
import TokenGate.Text.Decimal

namespace TokenGate

/-- What the responses so far have reported. -/
@[ext]
structure Budget where
  /-- The number of remaining calls as it was last reported. -/
  reported : Option Nat
  /-- The Unix time at which the budget is renewed, or zero where none was reported. -/
  resetAt : Nat
  /-- The gauge, which is zero before the first report. -/
  gauge : Nat
deriving DecidableEq

namespace Budget

/-- Nothing has been reported. -/
def initial : Budget := ⟨.none, 0, 0⟩

/-- The number in the first header called `name`: its text, without the white space around it, is a decimal
word. -/
def headerWord (hs : Http.Headers) (name : String) : Option Nat :=
  (hs.firstText? name).bind fun s => Text.readWord (Text.trim s.toList)

/-- The remaining calls that a response reports. The older name of the header comes first. -/
def reportedRemaining (hs : Http.Headers) : Option Nat :=
  (headerWord hs "x-ratelimit-remaining").or (headerWord hs "ratelimit-remaining")

/-- The renewal that a response reports. -/
def reportedReset (hs : Http.Headers) : Option Nat :=
  (headerWord hs "x-ratelimit-reset").or (headerWord hs "ratelimit-reset")

/-- What the gauge is set to for a number of remaining calls: it is a signed word. -/
def gaugeFor (remaining : Nat) : Nat :=
  min remaining (1 <<< 63 - 1)

/-- Takes in what a response reports; what it does not report stays. -/
def observe (b : Budget) (hs : Http.Headers) : Budget :=
  let b :=
    match reportedRemaining hs with
    | .some n => { b with reported := .some n, gauge := gaugeFor n }
    | .none => b
  match reportedReset hs with
  | .some t => { b with resetAt := t }
  | .none => b

/-- The number of remaining calls, if it is known. The largest word stands for an unknown number. -/
def remaining (b : Budget) : Option Nat :=
  b.reported.filter fun n => n != Text.wordLimit - 1

/-- The seconds from the Unix time `now` to the renewal, if one was reported. -/
def retryAfter (b : Budget) (now : Nat) : Option Nat :=
  if b.resetAt = 0 then .none else .some (b.resetAt - now)

/-- Whether a response says that no calls remain: by its status, or by the older name of the header. -/
def isExhausted (status : Nat) (hs : Http.Headers) : Bool :=
  status == 429 || headerWord hs "x-ratelimit-remaining" == .some 0

variable (b : Budget) (hs : Http.Headers)

theorem observe_reported : (b.observe hs).reported = (reportedRemaining hs).or b.reported := by
  unfold observe
  cases reportedRemaining hs <;> cases reportedReset hs <;> rfl

theorem observe_resetAt : (b.observe hs).resetAt = (reportedReset hs).getD b.resetAt := by
  unfold observe
  cases reportedRemaining hs <;> cases reportedReset hs <;> rfl

theorem observe_gauge : (b.observe hs).gauge = ((reportedRemaining hs).map gaugeFor).getD b.gauge := by
  unfold observe
  cases reportedRemaining hs <;> cases reportedReset hs <;> rfl

end Budget

end TokenGate
