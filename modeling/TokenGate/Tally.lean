/-
Counters with a label. A label that has never been counted is not there.
-/
namespace TokenGate

/-- How often each label has been counted. -/
structure Tally (κ : Type) where
  counts : List (κ × Nat)

namespace Tally

variable {κ : Type} [DecidableEq κ]

/-- Nothing has been counted. -/
def empty : Tally κ := ⟨[]⟩

/-- How often `k` has been counted. -/
def count (t : Tally κ) (k : κ) : Nat :=
  (t.counts.lookup k).getD 0

/-- Counts `k` in a list of counters. -/
def bumpIn (k : κ) : List (κ × Nat) → List (κ × Nat)
  | [] => [(k, 1)]
  | (l, n) :: rest => if l = k then (l, n + 1) :: rest else (l, n) :: bumpIn k rest

/-- Counts `k` once more. -/
def bump (t : Tally κ) (k : κ) : Tally κ :=
  ⟨bumpIn k t.counts⟩

/-- Counting a label adds one to it and nothing to the others. -/
theorem count_bump (t : Tally κ) (k l : κ) : (t.bump k).count l = t.count l + if l = k then 1 else 0 := by
  have key : ∀ cs : List (κ × Nat),
      ((bumpIn k cs).lookup l).getD 0 = (cs.lookup l).getD 0 + if l = k then 1 else 0 := by
    intro cs
    induction cs with
    | nil =>
      by_cases h : l = k
      · simp [bumpIn, h]
      · simp [bumpIn, List.lookup_cons, h, show (l == k) = false by simpa using h]
    | cons c cs ih =>
      obtain ⟨m, n⟩ := c
      rw [bumpIn]
      by_cases h : l = m
      · subst h
        by_cases hk : l = k <;> simp [hk]
      · have hl : (l == m) = false := by simpa using h
        by_cases hm : m = k
        · have hk : l ≠ k := fun e => h (e.trans hm.symm)
          simp [List.lookup_cons, hm, hk, show (l == k) = false by simpa using hk]
        · simpa [hm, List.lookup_cons, hl] using ih
  exact key t.counts

end Tally

end TokenGate
