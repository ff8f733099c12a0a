import MessageCatalog.Proofs.Call.Joining
import MessageCatalog.Proofs.Text.Leftmost

/-!
# Where an argument is split

A split marker is told by its spelling (`IsMarker`), and a splitting of a text by its parts: behind
each piece stands the first marker of the text that is left, and the last piece holds none
(`SplitsAtMarkers`).  Two markers can share a quote.  Then the first one takes it, and what is left
of the other one is text.

Every text has exactly one such splitting, and joining the fragments puts its pieces together
(`existsUnique_splitting`).  Fragments without quotes are the pieces themselves, wherever blanks
stand around their plus signs.
-/

namespace MessageCatalog.Call

open Text

variable {s piece marker lexeme rest last : List Char} {others : List (List Char × List Char)}

/-! ### Markers -/

/-- A quote, a plus sign with any blanks around it, and a quote. -/
def IsMarker (lexeme : List Char) : Prop :=
  ∃ j : Joint, lexeme = '"' :: (j.text ++ ['"'])

/-- Somewhere in a text there is a marker. -/
def HoldsMarker (s : List Char) : Prop :=
  ∃ front marker back, s = front ++ (marker ++ back) ∧ IsMarker marker

theorem splitMarker_lexes_iff : splitMarker.Lexes lexeme rest ↔ IsMarker lexeme := by
  constructor
  · intro h
    obtain ⟨⟨before, after, back⟩, hmarker, heq⟩ := Option.map_eq_some_iff.mp h
    obtain ⟨-, hbefore, hafter⟩ := eq_of_splitMarker? hmarker
    refine ⟨⟨before, after, hbefore, hafter⟩, ?_⟩
    rw [← (Prod.mk.inj heq).1]
    simp [Joint.text]
  · intro h
    obtain ⟨j, rfl⟩ := h
    refine Option.map_eq_some_iff.mpr ⟨(j.before, j.after, rest), ?_, ?_⟩
    · simpa using splitMarker?_marker j rest
    · simp [Joint.text]

theorem splitMarker_occursIn_iff : splitMarker.OccursIn s ↔ HoldsMarker s := by
  simp only [Token.occursIn_iff_exists_lexes, splitMarker_lexes_iff, HoldsMarker]

/-! ### Splittings -/

/-- A marker stands behind a piece, and no marker of the text starts earlier. -/
structure EndsPiece (piece marker rest : List Char) : Prop where
  isMarker : IsMarker marker
  first : ∀ front other back, piece ++ (marker ++ rest) = front ++ (other ++ back) →
    IsMarker other → piece.length ≤ front.length

/-- Every piece but the last one ends at the first marker of the text that is left, and the last
one holds no marker. -/
inductive SplitsAtMarkers : List (List Char × List Char) → List Char → Prop
  | last {last : List Char} (hnone : ¬ HoldsMarker last) : SplitsAtMarkers [] last
  | piece {piece marker : List Char} {others : List (List Char × List Char)} {last : List Char}
      (hends : EndsPiece piece marker (Pieces.mk others last).text)
      (hothers : SplitsAtMarkers others last) : SplitsAtMarkers ((piece, marker) :: others) last

theorem text_pieces_cons :
    (Pieces.mk ((piece, marker) :: others) last).text =
      piece ++ (marker ++ (Pieces.mk others last).text) := by
  simp [Pieces.text]

/-- A search for a marker finds the one that ends the first piece. -/
theorem find_splitMarker_eq_some_iff :
    splitMarker.find s = some ⟨piece, marker, rest⟩ ↔
      s = piece ++ (marker ++ rest) ∧ EndsPiece piece marker rest := by
  rw [Token.find_eq_some_iff, Token.standsFirst_iff, Split.text, List.append_assoc, eq_comm]
  simp only [splitMarker_lexes_iff]
  refine and_congr_right fun _ => ?_
  exact ⟨fun h => ⟨h.1, h.2⟩, fun h => ⟨h.isMarker, h.first⟩⟩

theorem find_splitMarker_eq_none_iff : splitMarker.find s = none ↔ ¬ HoldsMarker s := by
  rw [Token.find_eq_none_iff, splitMarker_occursIn_iff]

/-- The search splits a text at its markers. -/
theorem splitsAtMarkers_ofText (s : List Char) :
    SplitsAtMarkers (Pieces.ofText splitMarker s).separated (Pieces.ofText splitMarker s).last := by
  cases hfind : splitMarker.find s with
  | none =>
      rw [Pieces.ofText_of_find_eq_none hfind]
      exact .last (find_splitMarker_eq_none_iff.mp hfind)
  | some p =>
      obtain ⟨-, hends⟩ := find_splitMarker_eq_some_iff.mp hfind
      have ih := splitsAtMarkers_ofText p.rest
      have hrest := Pieces.text_ofText splitMarker p.rest
      rw [Pieces.ofText_of_find_eq_some hfind]
      refine .piece ?_ ih
      rw [hrest]
      exact hends
termination_by s.length
decreasing_by exact Token.length_rest_of_find hfind

/-- A text that is split at its markers is split as the search does. -/
theorem SplitsAtMarkers.ofText_eq (h : SplitsAtMarkers others last) :
    Pieces.ofText splitMarker (Pieces.mk others last).text = ⟨others, last⟩ := by
  induction h with
  | last hnone =>
      have hfind := find_splitMarker_eq_none_iff.mpr hnone
      simpa [Pieces.text] using Pieces.ofText_of_find_eq_none hfind
  | piece hends hothers ih =>
      have hfind := find_splitMarker_eq_some_iff.mpr ⟨rfl, hends⟩
      rw [text_pieces_cons, Pieces.ofText_of_find_eq_some hfind, ih]

private theorem endsPiece_of_quote_notMem (hpiece : '"' ∉ piece) (hmarker : IsMarker marker)
    (rest : List Char) : EndsPiece piece marker rest := by
  have hfind : splitMarker.find (piece ++ (marker ++ rest)) = some ⟨piece, marker, rest⟩ :=
    Token.find_append_of_scan (not_splitMarker_at_of_quote_notMem hpiece)
      (splitMarker_lexes_iff.mpr hmarker)
  exact (find_splitMarker_eq_some_iff.mp hfind).2

private theorem not_holdsMarker_of_quote_notMem (h : '"' ∉ last) : ¬ HoldsMarker last := by
  rw [← splitMarker_occursIn_iff]
  intro hoccurs
  obtain ⟨v, hsuffix, hat⟩ := hoccurs
  have hv : v ≠ [] := by
    rintro rfl
    simp [Token.At, Token.scan_nil] at hat
  exact not_splitMarker_at_of_quote_notMem (b := []) h v hv hsuffix (by rwa [List.append_nil])

private theorem splitsAtMarkers_of_quote_notMem
    (hothers : ∀ q ∈ others, '"' ∉ q.1 ∧ IsMarker q.2) (hlast : '"' ∉ last) :
    SplitsAtMarkers others last := by
  induction others with
  | nil => exact .last (not_holdsMarker_of_quote_notMem hlast)
  | cons q others ih =>
      obtain ⟨⟨hpiece, hmarker⟩, hothers⟩ := List.forall_mem_cons.mp hothers
      exact .piece (endsPiece_of_quote_notMem hpiece hmarker _) (ih hothers)

/-! ### Joining -/

theorem SplitsAtMarkers.joinFragments_eq {p : Pieces} (h : SplitsAtMarkers p.separated p.last) :
    joinFragments p.text = (p.separated.map Prod.fst).flatten ++ p.last := by
  rw [joinFragments, h.ofText_eq, Pieces.joined]

/-- **Every text has exactly one splitting at its markers, and joining its fragments removes these
markers and nothing else.**  So a text without a marker is kept, and fragments without quotes are
put together whatever blanks stand around the plus signs between them. -/
theorem existsUnique_splitting (text : List Char) :
    (∃! p : Pieces, p.text = text ∧ SplitsAtMarkers p.separated p.last) ∧
      (∃ p : Pieces, (p.text = text ∧ SplitsAtMarkers p.separated p.last) ∧
        joinFragments text = (p.separated.map Prod.fst).flatten ++ p.last) ∧
      (¬ HoldsMarker text → joinFragments text = text) ∧
      ∀ p : Pieces, (∀ q ∈ p.separated, '"' ∉ q.1 ∧ IsMarker q.2) → '"' ∉ p.last →
        joinFragments p.text = (p.separated.map Prod.fst).flatten ++ p.last := by
  have hsplits := splitsAtMarkers_ofText text
  have htext := Pieces.text_ofText splitMarker text
  refine ⟨⟨Pieces.ofText splitMarker text, ⟨htext, hsplits⟩, ?_⟩,
    ⟨Pieces.ofText splitMarker text, ⟨htext, hsplits⟩, rfl⟩, ?_, ?_⟩
  · intro p hp
    obtain ⟨rfl, hp⟩ := hp
    exact hp.ofText_eq.symm
  · intro hnone
    have hlast : SplitsAtMarkers (Pieces.mk [] text).separated (Pieces.mk [] text).last :=
      .last hnone
    simpa [Pieces.text] using hlast.joinFragments_eq
  · intro p hothers hlast
    exact (splitsAtMarkers_of_quote_notMem hothers hlast).joinFragments_eq

/-- The second quote of `a"+"+"b` belongs to the first of two markers. -/
example : joinFragments ['a', '"', '+', '"', '+', '"', 'b'] = ['a', '+', '"', 'b'] := by
  decide +kernel

end MessageCatalog.Call
