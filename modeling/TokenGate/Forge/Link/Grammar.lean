/-
Link headers: in which texts a link to the page that follows is found, and how links are written.

A header is read from the outside in. Commas divide it into pieces, wherever they stand, and a piece is a link to the
next page if it is a target in angle brackets, a semicolon, and items with semicolons between them, one of which is the
mark of the next page. A header is written from the inside out: a link is a target in angle brackets with its
parameters behind it, and a header is links with commas between them.
-/
import TokenGate.Forge.Link

namespace TokenGate.Forge.Link

/-! ## Reading -/

/-- An item marks a link to the next page. There may be white space around the mark, and the case of letters does not
count. -/
def IsMark (item : List Char) : Prop :=
  ∃ front mark back, item = front ++ mark ++ back ∧ (∀ c ∈ front ++ back, Text.isBlank c = true) ∧
    Text.lower mark = "rel=\"next\"".toList

/-- A piece of a header is a link to the next page, and this is its target. -/
def NamesNext (piece target : List Char) : Prop :=
  ∃ front back items, piece = front ++ '<' :: target ++ '>' :: back ++ ';' :: items ∧
    (∀ c ∈ front ++ back, Text.isBlank c = true) ∧ ';' ∉ target ∧
    ∃ before item after, Text.IsPiece ';' items before item after ∧ IsMark item

/-! ## Writing -/

/-- Whether `c` may stand in a URI: the characters that are reserved or not, and the percent sign. -/
def isUriChar (c : Char) : Bool :=
  c.isAlphanum || "-._~:/?#[]@!$&'()*+,;=%".toList.contains c

/-- A parameter of a link. -/
structure Param where
  name : String
  value : String

/-- A link of a header. -/
structure Entry where
  target : String
  params : List Param

/-- The name is a word, and neither part holds what divides parameters and links or ends a value. -/
structure Param.WellFormed (p : Param) : Prop where
  name : ∀ c ∈ p.name.toList, c ≠ ',' ∧ c ≠ ';' ∧ c ≠ '"' ∧ Text.isBlank c = false
  value : ∀ c ∈ p.value.toList, c ≠ ',' ∧ c ≠ ';' ∧ c ≠ '"'

theorem Param.wellFormed_iff {p : Param} :
    (p.name.toList.all (fun c => c != ',' && c != ';' && c != '"' && !Text.isBlank c) &&
      p.value.toList.all fun c => c != ',' && c != ';' && c != '"') = true ↔ p.WellFormed := by
  simp only [Bool.and_eq_true, List.all_eq_true, bne_iff_ne, Bool.not_eq_true', and_assoc]
  exact ⟨fun h => ⟨h.1, h.2⟩, fun h => ⟨h.name, h.value⟩⟩

instance (p : Param) : Decidable p.WellFormed :=
  decidable_of_iff _ Param.wellFormed_iff

/-- The parameter marks a link to the next page; the case of letters does not count. -/
def Param.isNext (p : Param) : Bool :=
  Text.sameLetters p.name.toList "rel".toList && Text.sameLetters p.value.toList "next".toList

/-- A parameter as it is written. -/
def Param.text (p : Param) : String :=
  p.name ++ "=\"" ++ p.value ++ "\""

namespace Entry

/-- The target is a URI, and the parameters can be written. -/
structure WellFormed (e : Entry) : Prop where
  target : ∀ c ∈ e.target.toList, isUriChar c = true
  params : ∀ p ∈ e.params, p.WellFormed

theorem wellFormed_iff {e : Entry} :
    (e.target.toList.all isUriChar && e.params.all fun p => decide p.WellFormed) = true ↔ e.WellFormed := by
  simp only [Bool.and_eq_true, List.all_eq_true, decide_eq_true_eq]
  exact ⟨fun h => ⟨h.1, h.2⟩, fun h => ⟨h.target, h.params⟩⟩

instance (e : Entry) : Decidable e.WellFormed :=
  decidable_of_iff _ wellFormed_iff

/-- The link is to the next page. -/
def isNext (e : Entry) : Bool :=
  e.params.any Param.isNext

/-- The target holds nothing that divides links or parameters. -/
def isPlain (e : Entry) : Bool :=
  e.target.toList.all fun c => c != ',' && c != ';'

/-- A link as it is written. -/
def text (e : Entry) : String :=
  "; ".intercalate (("<" ++ e.target ++ ">") :: e.params.map Param.text)

end Entry

/-- A header as it is written. -/
def headerText (es : List Entry) : String :=
  ", ".intercalate (es.map Entry.text)

end TokenGate.Forge.Link
