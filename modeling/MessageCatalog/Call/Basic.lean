import MessageCatalog.Call.FunctionName
import MessageCatalog.Text.Blank
import MessageCatalog.Text.Enclosure
import MessageCatalog.Text.Separator

/-!
# Calls of a translation function

The calls of a function `t` in a source text are found by their spelling alone: a
call opens with `t("` and its argument reaches up to the first `")` after that,
over line ends and whatever else stands there.  An argument split into fragments,
`"Save " + "all"`, is joined by removing every split marker: a quote, a plus sign
with blanks around it, and a quote.

Escape sequences stay as they are written.
-/

namespace MessageCatalog.Call

open Text

/-! ### Joining fragments -/

/-- The split marker at the front of a text: the blanks before and after its plus sign and
the text after the marker. -/
def splitMarker? (s : List Char) : Option (List Char × List Char × List Char) :=
  match Token.after? ['"'] s with
  | none => none
  | some s₁ =>
    match Token.after? ['+'] (s₁.dropWhile isBlank) with
    | none => none
    | some s₂ =>
      match Token.after? ['"'] (s₂.dropWhile isBlank) with
      | none => none
      | some s₃ => some (s₁.takeWhile isBlank, s₂.takeWhile isBlank, s₃)

theorem eq_of_splitMarker? {s a b r : List Char} (h : splitMarker? s = some (a, b, r)) :
    s = '"' :: a ++ '+' :: b ++ '"' :: r ∧ a.all isBlank ∧ b.all isBlank := by
  unfold splitMarker? at h
  split at h
  · cases h
  · rename_i s₁ h₁
    split at h
    · cases h
    · rename_i s₂ h₂
      split at h
      · cases h
      · rename_i s₃ h₃
        cases h
        have e₂ := List.takeWhile_append_dropWhile (p := isBlank) (l := s₁)
        have e₃ := List.takeWhile_append_dropWhile (p := isBlank) (l := s₂)
        rw [Token.after?_eq_some_iff.mp h₂] at e₂
        rw [Token.after?_eq_some_iff.mp h₃] at e₃
        refine ⟨?_, List.all_takeWhile, List.all_takeWhile⟩
        rw [Token.after?_eq_some_iff.mp h₁]
        simp only [List.cons_append, List.nil_append, List.append_assoc] at e₂ e₃ ⊢
        rw [e₃, e₂]

/-- The marker between two fragments of one literal. -/
def splitMarker : Token where
  scan s := (splitMarker? s).map fun p => ('"' :: p.1 ++ '+' :: p.2.1 ++ ['"'], p.2.2)
  append_eq h := by
    obtain ⟨⟨a, b, r⟩, hp, heq⟩ := Option.map_eq_some_iff.mp h
    cases heq
    rw [(eq_of_splitMarker? hp).1]
    simp
  ne_nil h := by
    obtain ⟨⟨a, b, r⟩, hp, heq⟩ := Option.map_eq_some_iff.mp h
    cases heq
    simp

/-- The fragments of an argument joined to one literal. -/
def joinFragments (argument : List Char) : List Char :=
  (Pieces.ofText splitMarker argument).joined

/-! ### Finding calls -/

/-- What opens a call: the name, a parenthesis and a quote. -/
def opening (name : FunctionName) : Token :=
  Token.word (name.chars ++ ['(', '"']) (by simp)

/-- What closes a call: a quote and a parenthesis. -/
def closing : Token :=
  Token.word ['"', ')'] (by simp)

/-- The source text cut into the calls of a function. -/
def cut (name : FunctionName) (source : List Char) : Cut :=
  Cut.ofText (opening name) closing source

/-- The literals of all calls, in source order. -/
def literals (name : FunctionName) (source : String) : List String :=
  (cut name source.toList).bodies.map fun argument => String.ofList (joinFragments argument)

/-- The literals of all calls without repetition, in the order in which they first occur. -/
def distinctLiterals (name : FunctionName) (source : String) : List String :=
  (literals name source).eraseDups

end MessageCatalog.Call
