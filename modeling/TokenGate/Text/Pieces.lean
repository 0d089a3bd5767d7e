/-
Cutting a text at every occurrence of a separator, putting it back together, and comparing texts without
regard to the case of ASCII letters.
-/
namespace TokenGate.Text

/-- The pieces of `s` between the occurrences of `sep`: one more than there are separators. -/
def pieces (sep : Char) : List Char → List (List Char)
  | [] => [[]]
  | c :: s =>
    if c = sep then [] :: pieces sep s
    else match pieces sep s with
      | [] => [[c]]
      | p :: ps => (c :: p) :: ps

/-- The pieces with one separator between each two neighbours. -/
def join (sep : Char) : List (List Char) → List Char
  | [] => []
  | [p] => p
  | p :: q :: ps => p ++ sep :: join sep (q :: ps)

theorem pieces_ne_nil (sep : Char) (s : List Char) : pieces sep s ≠ [] := by
  fun_induction pieces sep s <;> simp_all

/-- No text is lost by cutting it. -/
theorem join_pieces (sep : Char) (s : List Char) : join sep (pieces sep s) = s := by
  induction s with
  | nil => rfl
  | cons c s ih =>
    rw [pieces]
    rcases hp : pieces sep s with _ | ⟨p, ps⟩
    · exact absurd hp (pieces_ne_nil sep s)
    · rw [hp] at ih
      split
      next h => subst h; simp [join, ih]
      next => cases ps <;> simp_all [join]

/-- No piece holds the separator. -/
theorem notMem_of_mem_pieces {sep : Char} {s p : List Char} (h : p ∈ pieces sep s) : sep ∉ p := by
  induction s generalizing p with
  | nil => simp_all [pieces]
  | cons c s ih =>
    rw [pieces] at h
    rcases hp : pieces sep s with _ | ⟨q, qs⟩
    · exact absurd hp (pieces_ne_nil sep s)
    · rw [hp] at h ih
      split at h
      next =>
        rcases List.mem_cons.1 h with rfl | h
        · simp
        · exact ih h
      next hc =>
        rcases List.mem_cons.1 h with rfl | h
        · have := ih (p := q) (by simp)
          simp only [List.mem_cons, not_or]
          exact ⟨fun e => hc e.symm, this⟩
        · exact ih (by simp [h])

/-- In the text `s`, the piece `p` stands behind `front` and in front of `back`. -/
structure IsPiece (sep : Char) (s front p back : List Char) : Prop where
  parts : s = front ++ p ++ back
  notMem : sep ∉ p
  front_end : front = [] ∨ ∃ f, front = f ++ [sep]
  back_start : back = [] ∨ ∃ b, back = sep :: b

/-- `s` with its ASCII capitals made small. -/
def lower (s : List Char) : List Char :=
  s.map Char.toLower

/-- Whether two texts are equal when the case of ASCII letters does not count. -/
def sameLetters (a b : List Char) : Bool :=
  lower a == lower b

end TokenGate.Text
