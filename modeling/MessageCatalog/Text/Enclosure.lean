import MessageCatalog.Text.Token

/-!
# Enclosed parts of a text

Given a token that opens and a token that closes, a text is cut into enclosures:
a gap before the first opening, that opening, the body up to the first closing
after it, that closing, and then the same again on what follows.  The cut ends at
the first opening that no closing follows, or where there is no opening; what
remains there is the tail.

`Cut.text_ofText` says that the parts make up the text again.
-/

namespace MessageCatalog.Text

/-- One opened and closed part of a text with the gap before it. -/
structure Enclosure where
  gap : List Char
  opening : List Char
  body : List Char
  closing : List Char
  deriving DecidableEq, Repr

/-- The characters of an enclosure in their order. -/
def Enclosure.text (e : Enclosure) : List Char :=
  e.gap ++ e.opening ++ e.body ++ e.closing

/-- The characters of an enclosure that stand before its body. -/
def Enclosure.lead (e : Enclosure) : List Char :=
  e.gap ++ e.opening

/-- A text cut into enclosures and a tail. -/
structure Cut where
  enclosures : List Enclosure
  tail : List Char
  deriving DecidableEq, Repr

namespace Cut

/-- The text that was cut. -/
def text (c : Cut) : List Char :=
  (c.enclosures.map Enclosure.text).flatten ++ c.tail

/-- The bodies of a cut in their order. -/
def bodies (c : Cut) : List (List Char) :=
  c.enclosures.map Enclosure.body

end Cut

/-- The first enclosure of a text and what follows it. -/
def Enclosure.first? (opener closer : Token) (s : List Char) : Option (Enclosure × List Char) :=
  match opener.find s with
  | none => none
  | some p =>
    match closer.find p.rest with
    | none => none
    | some q => some (⟨p.before, p.lexeme, q.before, q.lexeme⟩, q.rest)

namespace Enclosure

variable {opener closer : Token}

theorem first?_eq_some {s r : List Char} {e : Enclosure}
    (h : first? opener closer s = some (e, r)) :
    opener.find s = some ⟨e.gap, e.opening, e.body ++ e.closing ++ r⟩ ∧
      closer.find (e.body ++ e.closing ++ r) = some ⟨e.body, e.closing, r⟩ := by
  unfold first? at h
  split at h
  · cases h
  · rename_i p hp
    split at h
    · cases h
    · rename_i q hq
      cases h
      have htext : q.before ++ q.lexeme ++ q.rest = p.rest := Token.text_of_find hq
      simp only [htext]
      exact ⟨hp, hq⟩

theorem text_of_first? {s r : List Char} {e : Enclosure}
    (h : first? opener closer s = some (e, r)) : e.text ++ r = s := by
  have htext := Token.text_of_find (first?_eq_some h).1
  simp only [Split.text] at htext
  rw [← htext]
  simp [text]

theorem length_of_first? {s r : List Char} {e : Enclosure}
    (h : first? opener closer s = some (e, r)) : r.length < s.length := by
  have hopen := Token.length_rest_of_find (first?_eq_some h).1
  simp only [List.length_append] at hopen
  omega

end Enclosure

/-- The cut of a text by an opening and a closing token. -/
def Cut.ofText (opener closer : Token) (s : List Char) : Cut :=
  match _h : Enclosure.first? opener closer s with
  | none => ⟨[], s⟩
  | some (e, r) =>
    let c := ofText opener closer r
    ⟨e :: c.enclosures, c.tail⟩
termination_by s.length
decreasing_by exact Enclosure.length_of_first? ‹_›

namespace Cut

variable {opener closer : Token}

theorem ofText_of_first?_eq_none {s : List Char} (h : Enclosure.first? opener closer s = none) :
    ofText opener closer s = ⟨[], s⟩ := by
  rw [ofText]
  split
  · rfl
  · simp_all

theorem ofText_of_first?_eq_some {s r : List Char} {e : Enclosure}
    (h : Enclosure.first? opener closer s = some (e, r)) :
    ofText opener closer s =
      ⟨e :: (ofText opener closer r).enclosures, (ofText opener closer r).tail⟩ := by
  rw [ofText]
  split
  · simp_all
  · rename_i e' r' h'
    rw [h] at h'
    cases h'
    rfl

/-- Nothing is lost by a cut. -/
theorem text_ofText (opener closer : Token) (s : List Char) :
    (ofText opener closer s).text = s := by
  cases h : Enclosure.first? opener closer s with
  | none => simp [ofText_of_first?_eq_none h, text]
  | some p =>
    obtain ⟨e, r⟩ := p
    have ih := text_ofText opener closer r
    rw [ofText_of_first?_eq_some h]
    simp only [text, List.map_cons, List.flatten_cons, List.append_assoc] at ih ⊢
    rw [ih]
    exact Enclosure.text_of_first? h
termination_by s.length
decreasing_by exact Enclosure.length_of_first? h

end Cut

end MessageCatalog.Text
