/-
Histories of a budget: which figures a response reports, and what a budget has to show after the responses so far.

A budget is shared. Whoever follows the responses of a forge holds a budget, a copy of the holder holds the same one,
and what is observed through one of them shows through all.
-/
import Mathlib.Data.Nat.Digits.Defs
import Mathlib.Logic.Function.Basic
import TokenGate.Budget

namespace TokenGate

/-- `s` writes the word `n` of 64 bits: it is the number in decimal digits, with any zeros in front and one plus sign or
none before that. -/
def Text.WritesWord (s : List Char) (n : Nat) : Prop :=
  ∃ digits : List Char, (s = digits ∨ s = '+' :: digits) ∧ digits ≠ [] ∧ (∀ c ∈ digits, '0' ≤ c ∧ c ≤ '9') ∧
    n = Nat.ofDigits 10 (digits.reverse.map fun c => c.toNat - '0'.toNat) ∧ n < 2 ^ 64

namespace Budget

/-! ## Reports -/

/-- What a response can report of a budget. -/
inductive Figure where
  /-- How many calls remain. -/
  | remaining
  /-- The Unix time at which the budget is renewed. -/
  | reset

/-- The name of the header that comes first for a figure. -/
def Figure.older : Figure → String
  | remaining => "x-ratelimit-remaining"
  | reset => "x-ratelimit-reset"

/-- The name of the header that counts where the older one tells no number. -/
def Figure.newer : Figure → String
  | remaining => "ratelimit-remaining"
  | reset => "ratelimit-reset"

/-- The first header called `name` tells the number `n`: its value is text, which writes `n` with any white space around
that. -/
def Tells (hs : Http.Headers) (name : String) (n : Nat) : Prop :=
  ∃ before h after word, hs = before ++ h :: after ∧ (∀ x ∈ before, x.lowerName ≠ name) ∧ h.lowerName = name ∧
    (∀ b ∈ h.value, 0x20 ≤ b ∧ b ≤ 0x7E ∨ b = 0x09) ∧
    Text.IsCore (h.value.map fun b => Char.ofNat b.toNat) word ∧ Text.WritesWord word n

/-- A response reports that a figure is `n`. -/
def Reports (hs : Http.Headers) (f : Figure) (n : Nat) : Prop :=
  Tells hs f.older n ∨ (∀ m, ¬ Tells hs f.older m) ∧ Tells hs f.newer n

/-- None of the responses reports a figure. -/
def NeverReported (past : List Http.Headers) (f : Figure) : Prop :=
  ∀ hs ∈ past, ∀ n, ¬ Reports hs f n

/-- The last of the responses that reports a figure reports that it is `n`. -/
def LastReported (past : List Http.Headers) (f : Figure) (n : Nat) : Prop :=
  ∃ before hs since, past = before ++ hs :: since ∧ Reports hs f n ∧ NeverReported since f

/-- A budget shows what the responses have reported. -/
structure Shows (b : Budget) (past : List Http.Headers) : Prop where
  remaining : ∀ n, b.remaining = .some n ↔ LastReported past .remaining n ∧ n ≠ 2 ^ 64 - 1
  unknown : b.remaining = .none ↔ NeverReported past .remaining ∨ LastReported past .remaining (2 ^ 64 - 1)
  resetAt : ∀ n, LastReported past .reset n → b.resetAt = n
  unset : NeverReported past .reset → b.resetAt = 0
  gauge : ∀ n, LastReported past .remaining n → b.gauge = min n (2 ^ 63 - 1)
  ungauged : NeverReported past .remaining → b.gauge = 0

/-! ## Sharing -/

/-- Holders of budgets. -/
structure Sharing where
  /-- Which budget each holder holds, told by the number of the holder that it was made for. -/
  held : List Nat
  budgets : Nat → Budget

namespace Sharing

/-- What happens to budgets. -/
inductive Act where
  /-- There is a new budget, and a new holder of it. -/
  | make
  /-- There is a new holder of the budget that a holder has. -/
  | copy (holder : Nat)
  /-- A holder takes in a response. -/
  | observe (holder : Nat) (hs : Http.Headers)

/-- There are no budgets yet. -/
def start : Sharing := ⟨[], fun _ => initial⟩

/-- What an act does. Nobody who is not a holder does anything. -/
def step (s : Sharing) : Act → Sharing
  | .make => ⟨s.held ++ [s.held.length], Function.update s.budgets s.held.length initial⟩
  | .copy holder => ⟨s.held ++ s.held[holder]?.toList, s.budgets⟩
  | .observe holder hs =>
    match s.held[holder]? with
    | .some k => ⟨s.held, Function.update s.budgets k ((s.budgets k).observe hs)⟩
    | .none => s

/-- The budget that a holder has. -/
def budget? (s : Sharing) (holder : Nat) : Option Budget :=
  s.held[holder]?.map s.budgets

/-- What a sequence of acts does. -/
def run (s : Sharing) (acts : List Act) : Sharing :=
  acts.foldl step s

/-- The response that the budget `k` takes in with an act, through whichever holder. -/
def taken? (s : Sharing) (k : Nat) : Act → Option Http.Headers
  | .observe holder hs => if s.held[holder]? = .some k then .some hs else .none
  | _ => .none

/-- The responses that the budget `k` takes in, in order. -/
def taken (s : Sharing) (k : Nat) : List Act → List Http.Headers
  | [] => []
  | act :: acts => (s.taken? k act).toList ++ taken (s.step act) k acts

theorem run_concat (s : Sharing) (acts : List Act) (act : Act) : s.run (acts ++ [act]) = (s.run acts).step act := by
  simp [run]

theorem taken_concat (s : Sharing) (k : Nat) (acts : List Act) (act : Act) :
    s.taken k (acts ++ [act]) = s.taken k acts ++ ((s.run acts).taken? k act).toList := by
  induction acts generalizing s with
  | nil => simp [taken, run]
  | cons a acts ih => simp only [List.cons_append, taken, ih, run, List.foldl_cons, List.append_assoc]

end Sharing

end Budget

end TokenGate
