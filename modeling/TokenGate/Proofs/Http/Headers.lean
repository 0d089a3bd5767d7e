/-
What a header value says: the text that is left of it without the white space around, and which header of a name counts.
-/
import Mathlib.Data.List.TakeWhile
import TokenGate.Http.Header
import TokenGate.Text.Blank

namespace TokenGate

/-! ## White space around a text -/

namespace Text

section

variable {s t front back : List Char}

theorem dropWhile_around (hblank : ∀ c ∈ front, isBlank c = true) (hhead : ∃ c, t.head? = .some c ∧ isBlank c = false) :
    (front ++ (t ++ back)).dropWhile isBlank = t ++ back := by
  obtain ⟨c, hc, hvisible⟩ := hhead
  obtain ⟨t, rfl⟩ := List.head?_eq_some_iff.1 hc
  rw [List.dropWhile_append_of_pos hblank, List.cons_append, List.dropWhile_cons_of_neg (by simp [hvisible])]

/-- What trimming drops in front is blank, and what it leaves begins with a character that is not. -/
theorem dropWhile_isBlank (s : List Char) :
    (∃ front, s = front ++ s.dropWhile isBlank ∧ ∀ c ∈ front, isBlank c = true) ∧
      ∀ c, (s.dropWhile isBlank).head? = .some c → isBlank c = false := by
  refine ⟨⟨s.takeWhile isBlank, List.takeWhile_append_dropWhile.symm, fun c => List.mem_takeWhile_imp⟩, fun c hc => ?_⟩
  have hnot := List.head?_dropWhile_not isBlank s
  rwa [hc] at hnot

theorem IsCore.trim_eq (h : IsCore s t) : trim s = t := by
  obtain ⟨⟨front, back, rfl, hblank⟩, hhead, hlast⟩ := h
  have hfront : ∀ c ∈ front, isBlank c = true := fun c hc => hblank c (List.mem_append_left _ hc)
  have hback : ∀ c ∈ back.reverse, isBlank c = true := fun c hc =>
    hblank c (List.mem_append_right _ (List.mem_reverse.1 hc))
  rw [← List.head?_reverse] at hlast
  have hend : (back.reverse ++ (t.reverse ++ [])).dropWhile isBlank = t.reverse ++ [] := dropWhile_around hback hlast
  rw [trim, dropEndWhile, List.append_assoc, dropWhile_around hfront hhead, List.reverse_append]
  rw [List.append_nil] at hend
  rw [hend, List.reverse_reverse]

theorem isCore_trim (h : trim s ≠ []) : IsCore s (trim s) := by
  obtain ⟨⟨front, hs, hfront⟩, hhead⟩ := dropWhile_isBlank s
  obtain ⟨⟨back, hrest, hback⟩, hlast⟩ := dropWhile_isBlank (s.dropWhile isBlank).reverse
  have hsplit : s.dropWhile isBlank = trim s ++ back.reverse := by
    rw [trim, dropEndWhile, ← List.reverse_append, ← hrest, List.reverse_reverse]
  refine ⟨⟨front, back.reverse, ?_, fun c hc => ?_⟩, ?_, ?_⟩
  · rw [List.append_assoc, ← hsplit]
    exact hs
  · rcases List.mem_append.1 hc with hc | hc
    · exact hfront c hc
    · exact hback c (List.mem_reverse.1 hc)
  · obtain ⟨c, rest, hcons⟩ := List.exists_cons_of_ne_nil h
    refine ⟨c, by rw [hcons]; rfl, hhead c ?_⟩
    rw [hsplit, hcons]; rfl
  · have hreverse : (trim s).reverse = (s.dropWhile isBlank).reverse.dropWhile isBlank := by
      rw [trim, dropEndWhile, List.reverse_reverse]
    obtain ⟨c, rest, hcons⟩ := List.exists_cons_of_ne_nil (List.reverse_ne_nil_iff.2 h)
    refine ⟨c, ?_, hlast c ?_⟩
    · rw [← List.head?_reverse, hcons]; rfl
    · rw [← hreverse, hcons]; rfl

theorem IsCore.ne_nil (h : IsCore s t) : t ≠ [] := by
  obtain ⟨c, hc, -⟩ := h.head
  rintro rfl
  cases hc

end

end Text

/-! ## Headers -/

namespace Http

theorem Header.text?_eq_some_iff {value : List UInt8} {s : String} :
    Header.text? value = .some s ↔
      (∀ b ∈ value, 0x20 ≤ b ∧ b ≤ 0x7E ∨ b = 0x09) ∧ s.toList = value.map fun b => Char.ofNat b.toNat := by
  have hbytes : value.all Header.isTextByte = true ↔ ∀ b ∈ value, 0x20 ≤ b ∧ b ≤ 0x7E ∨ b = 0x09 := by
    simp [Header.isTextByte]
  unfold Header.text?
  rw [← hbytes]
  split
  next h => simp [h, ← String.toList_inj, eq_comm]
  next h => simp [h]

/-- The text of the first header of a name is what stands in the first header of that name. -/
theorem Headers.firstText?_eq_some_iff {hs : Headers} {name s : String} :
    hs.firstText? name = .some s ↔
      ∃ before h after, hs = before ++ h :: after ∧ (∀ x ∈ before, x.lowerName ≠ name) ∧ h.lowerName = name ∧
        Header.text? h.value = .some s := by
  unfold Headers.firstText? Headers.first?
  simp only [Option.bind_eq_some_iff, Option.map_eq_some_iff, List.find?_eq_some_iff_append]
  constructor
  · rintro ⟨_, ⟨h, ⟨hname, before, after, rfl, hbefore⟩, rfl⟩, hs⟩
    exact ⟨before, h, after, rfl, fun x hx => by simpa using hbefore x hx, by simpa using hname, hs⟩
  · rintro ⟨before, h, after, rfl, hbefore, hname, hs⟩
    exact ⟨_, ⟨h, ⟨by simpa using hname, before, after, rfl, fun x hx => by simpa using hbefore x hx⟩, rfl⟩, hs⟩

end Http

end TokenGate
