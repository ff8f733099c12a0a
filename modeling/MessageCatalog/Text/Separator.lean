import MessageCatalog.Text.Token

/-!
# Texts split at separators

A text is split at the occurrences of a token that lie leftmost and do not
overlap.  The pieces between the separators, put together without them, are the
text with every separator removed.

`Pieces.text_ofText` says that pieces and separators make up the text again.
-/

namespace MessageCatalog.Text

/-- A text split at separators: each piece with the separator after it, and the last piece. -/
structure Pieces where
  separated : List (List Char × List Char)
  last : List Char
  deriving DecidableEq, Repr

namespace Pieces

/-- The text that was split. -/
def text (p : Pieces) : List Char :=
  (p.separated.map fun q => q.1 ++ q.2).flatten ++ p.last

/-- The text without its separators. -/
def joined (p : Pieces) : List Char :=
  (p.separated.map Prod.fst).flatten ++ p.last

/-- The split of a text at a separator token. -/
def ofText (separator : Token) (s : List Char) : Pieces :=
  match _h : separator.find s with
  | none => ⟨[], s⟩
  | some p =>
    let q := ofText separator p.rest
    ⟨(p.before, p.lexeme) :: q.separated, q.last⟩
termination_by s.length
decreasing_by exact Token.length_rest_of_find ‹_›

variable {separator : Token}

theorem ofText_of_find_eq_none {s : List Char} (h : separator.find s = none) :
    ofText separator s = ⟨[], s⟩ := by
  rw [ofText]
  split
  · rfl
  · simp_all

theorem ofText_of_find_eq_some {s : List Char} {p : Split} (h : separator.find s = some p) :
    ofText separator s =
      ⟨(p.before, p.lexeme) :: (ofText separator p.rest).separated,
        (ofText separator p.rest).last⟩ := by
  rw [ofText]
  split
  · simp_all
  · rename_i q hq
    rw [h] at hq
    cases hq
    rfl

/-- Nothing is lost by a split. -/
theorem text_ofText (separator : Token) (s : List Char) : (ofText separator s).text = s := by
  cases h : separator.find s with
  | none => simp [ofText_of_find_eq_none h, text]
  | some p =>
    have ih := text_ofText separator p.rest
    have htext := Token.text_of_find h
    rw [ofText_of_find_eq_some h]
    simp only [text, List.map_cons, List.flatten_cons, List.append_assoc] at ih ⊢
    rw [ih]
    simpa [Split.text] using htext
termination_by s.length
decreasing_by exact Token.length_rest_of_find h

end Pieces

end MessageCatalog.Text
