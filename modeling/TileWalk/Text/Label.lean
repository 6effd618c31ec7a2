import TileWalk.Text.Blank

/-!
Names typed by people. A typed name stands for a value if it is that value's label up to blanks
around it and the case of ASCII letters, and nothing else: inner spacing, accents and letters of
other scripts have to agree.
-/

namespace TileWalk.Text

/-- The two texts agree up to the case of the letters A to Z. -/
def sameLetters (a b : List Char) : Bool :=
  a.map Char.toLower == b.map Char.toLower

theorem sameLetters_iff {a b : List Char} :
    sameLetters a b = true ↔ a.map Char.toLower = b.map Char.toLower := beq_iff_eq

/-- The first value of `values` whose label is the typed `name`. -/
def named? {α : Type} (label : α → String) (values : List α) (name : String) : Option α :=
  let typed := trimChars name.toList
  values.find? fun value => sameLetters (label value).toList typed

theorem named?_eq_some_label {α : Type} {label : α → String} {values : List α} {name : String}
    {value : α} (h : named? label values name = some value) :
    sameLetters (label value).toList (trimChars name.toList) = true := by
  simpa [named?] using List.find?_some h

theorem named?_eq_none_iff {α : Type} {label : α → String} {values : List α} {name : String} :
    named? label values name = none ↔
      ∀ value ∈ values, sameLetters (label value).toList (trimChars name.toList) = false := by
  simp [named?]

end TileWalk.Text
