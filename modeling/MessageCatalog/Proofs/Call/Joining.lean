import MessageCatalog.Call.Basic
import MessageCatalog.Proofs.Text.Search

/-!
# Joining fragments

An argument is joined from its front: a split marker is passed over and what stands in front of it
is kept (`joinFragments_marker`, `joinFragments_append`).

Where a backslash stands in front of every quote (`QuotesEscaped`) there is no split marker, since
the second quote of a marker stands behind its plus sign or a blank.  The last quote of such a text
can still be the first one of a marker whose second one follows the text.  Then the text ends in
half a marker (`EndsInHalfMarker`), and that half is lost with the quote that follows.
-/

namespace MessageCatalog.Call

open Text

/-! ### The parts of a split marker -/

/-- The plus sign between two fragments with the blanks around it. -/
structure Joint where
  before : List Char
  after : List Char
  blank_before : before.all isBlank
  blank_after : after.all isBlank

namespace Joint

def text (j : Joint) : List Char :=
  j.before ++ '+' :: j.after

theorem mem_text {j : Joint} {c : Char} (h : c ∈ j.text) : isBlank c ∨ c = '+' := by
  rcases List.mem_append.mp h with h | h
  · exact .inl (List.all_eq_true.mp j.blank_before c h)
  · rcases List.mem_cons.mp h with rfl | h
    · exact .inr rfl
    · exact .inl (List.all_eq_true.mp j.blank_after c h)

theorem notMem_text {c : Char} (hblank : isBlank c = false) (hplus : c ≠ '+') (j : Joint) :
    c ∉ j.text := by
  intro h
  rcases mem_text h with h | h
  · rw [hblank] at h
    cases h
  · exact hplus h

theorem quote_notMem (j : Joint) : '"' ∉ j.text :=
  notMem_text (by decide) (by decide) j

theorem text_ne_nil (j : Joint) : j.text ≠ [] :=
  List.append_ne_nil_of_right_ne_nil _ (List.cons_ne_nil _ _)

theorem getLast?_half_ne (j : Joint) (u : List Char) :
    (u ++ '"' :: j.text).getLast? ≠ some '\\' := by
  intro h
  rw [List.append_cons, List.getLast?_append_of_ne_nil _ j.text_ne_nil] at h
  exact notMem_text (by decide) (by decide) j (List.mem_of_getLast? h)

end Joint

theorem splitMarker?_marker (j : Joint) (r : List Char) :
    splitMarker? ('"' :: (j.text ++ '"' :: r)) = some (j.before, j.after, r) := by
  have hplus : isBlank '+' = false := by decide
  have hquote : isBlank '"' = false := by decide
  have hbefore : ∀ c ∈ j.before, isBlank c = true := List.all_eq_true.mp j.blank_before
  have hafter : ∀ c ∈ j.after, isBlank c = true := List.all_eq_true.mp j.blank_after
  simp [splitMarker?, Joint.text, Token.after?, List.takeWhile_append_of_pos hbefore,
    List.dropWhile_append_of_pos hbefore, List.takeWhile_append_of_pos hafter,
    List.dropWhile_append_of_pos hafter, hplus, hquote]

theorem splitMarker_at_iff {s : List Char} :
    splitMarker.At s ↔ ∃ (j : Joint) (r : List Char), s = '"' :: (j.text ++ '"' :: r) := by
  constructor
  · intro h
    obtain ⟨p, hp⟩ := Option.isSome_iff_exists.mp h
    obtain ⟨⟨a, b, r⟩, hmarker, -⟩ := Option.map_eq_some_iff.mp hp
    obtain ⟨rfl, ha, hb⟩ := eq_of_splitMarker? hmarker
    exact ⟨⟨a, b, ha, hb⟩, r, by simp [Joint.text]⟩
  · rintro ⟨j, r, rfl⟩
    simp [Token.At, splitMarker, splitMarker?_marker]

/-! ### Joining from the front -/

@[simp] theorem joinFragments_nil : joinFragments [] = [] := by
  rw [joinFragments, Pieces.ofText_of_find_eq_none (Token.find_nil _)]
  rfl

theorem joinFragments_append {a b : List Char}
    (h : ∀ v, v ≠ [] → v <:+ a → ¬ splitMarker.At (v ++ b)) :
    joinFragments (a ++ b) = a ++ joinFragments b := by
  have hfind := Token.find_append_of_forall_not_at h
  cases hb : splitMarker.find b with
  | none =>
      rw [hb] at hfind
      rw [joinFragments, joinFragments, Pieces.ofText_of_find_eq_none hfind,
        Pieces.ofText_of_find_eq_none hb]
      rfl
  | some p =>
      rw [hb] at hfind
      rw [joinFragments, joinFragments, Pieces.ofText_of_find_eq_some hfind,
        Pieces.ofText_of_find_eq_some hb]
      simp [Pieces.joined]

theorem joinFragments_marker (j : Joint) (r : List Char) :
    joinFragments ('"' :: (j.text ++ '"' :: r)) = joinFragments r := by
  have hscan : splitMarker.scan ('"' :: (j.text ++ '"' :: r)) =
      some ('"' :: j.before ++ '+' :: j.after ++ ['"'], r) := by
    simp [splitMarker, splitMarker?_marker]
  rw [joinFragments, Pieces.ofText_of_find_eq_some (Token.find_cons_of_scan hscan)]
  simp [Pieces.joined, joinFragments]

theorem not_splitMarker_at_of_quote_notMem {a b : List Char} (h : '"' ∉ a) :
    ∀ v, v ≠ [] → v <:+ a → ¬ splitMarker.At (v ++ b) := by
  intro v hv hsuffix hat
  obtain ⟨j, r, htext⟩ := splitMarker_at_iff.mp hat
  obtain ⟨c, v, rfl⟩ := List.exists_cons_of_ne_nil hv
  obtain ⟨rfl, -⟩ := List.cons.inj htext
  exact h (hsuffix.subset List.mem_cons_self)

theorem joinFragments_append_of_quote_notMem {a b : List Char} (h : '"' ∉ a) :
    joinFragments (a ++ b) = a ++ joinFragments b :=
  joinFragments_append (not_splitMarker_at_of_quote_notMem h)

/-- Half a marker is kept where no quote follows it. -/
theorem joinFragments_half (j : Joint) : joinFragments ('"' :: j.text) = '"' :: j.text := by
  have hnot : ∀ v, v ≠ [] → v <:+ ['"'] → ¬ splitMarker.At (v ++ j.text) := by
    intro v hv hsuffix hat
    obtain rfl : v = ['"'] := (List.suffix_cons_iff.mp hsuffix).resolve_right (by simpa using hv)
    obtain ⟨i, r, htext⟩ := splitMarker_at_iff.mp hat
    have hbehind : j.text = i.text ++ '"' :: r := (List.cons.inj htext).2
    exact j.quote_notMem (by rw [hbehind]; simp)
  have hjoint : joinFragments j.text = j.text := by
    simpa using joinFragments_append_of_quote_notMem (b := []) j.quote_notMem
  rw [← List.singleton_append, joinFragments_append hnot, hjoint]

/-! ### Texts whose quotes are escaped -/

/-- A backslash stands in front of every quote. -/
def QuotesEscaped (s : List Char) : Prop :=
  ∀ u v, s = u ++ '"' :: v → u.getLast? = some '\\'

/-- The text ends in a quote and a plus sign with blanks around it. -/
def EndsInHalfMarker (s : List Char) : Prop :=
  ∃ (x : List Char) (j : Joint), s = x ++ '"' :: j.text

namespace QuotesEscaped

variable {a b s t x : List Char} {j : Joint}

theorem of_isPrefix (h : QuotesEscaped s) (hfront : a <+: s) : QuotesEscaped a := by
  obtain ⟨b, rfl⟩ := hfront
  rintro u v rfl
  exact h u (v ++ b) (by simp)

theorem head?_ne (h : QuotesEscaped s) : s.head? ≠ some '"' := by
  intro hhead
  obtain ⟨v, rfl⟩ := List.head?_eq_some_iff.mp hhead
  simpa using h [] v rfl

theorem append_marker_ne (h : QuotesEscaped s) (u r : List Char) (j : Joint) :
    s ≠ u ++ '"' :: (j.text ++ '"' :: r) := by
  rintro rfl
  exact j.getLast?_half_ne u (h (u ++ '"' :: j.text) r (by simp))

/-- A split marker that starts in the text reaches over its end, and its first half is the end. -/
private theorem eq_half_of_at (h : QuotesEscaped a) {v : List Char} (hv : v ≠ [])
    (hsuffix : v <:+ a) (hat : splitMarker.At (v ++ '"' :: t)) :
    ∃ j : Joint, v = '"' :: j.text := by
  obtain ⟨j, r, htext⟩ := splitMarker_at_iff.mp hat
  obtain ⟨c, v, rfl⟩ := List.exists_cons_of_ne_nil hv
  obtain ⟨rfl, hbehind : v ++ '"' :: t = j.text ++ '"' :: r⟩ := List.cons.inj htext
  obtain ⟨u, rfl⟩ := hsuffix
  rcases first_mark_cases j.quote_notMem hbehind with ⟨rfl, -⟩ | ⟨m, rfl, -⟩
  · exact ⟨j, rfl⟩
  · exact absurd rfl (h.append_marker_ne u m j)

theorem joinFragments_eq (h : QuotesEscaped s) : joinFragments s = s := by
  have hnot : ∀ v, v ≠ [] → v <:+ s → ¬ splitMarker.At (v ++ []) := by
    rintro v - ⟨u, rfl⟩ hat
    obtain ⟨j, r, htext⟩ := splitMarker_at_iff.mp hat
    rw [List.append_nil] at htext
    exact h.append_marker_ne u r j (by rw [htext])
  simpa using joinFragments_append hnot

theorem joinFragments_append_quote (h : QuotesEscaped a) (hhalf : ¬ EndsInHalfMarker a)
    (t : List Char) : joinFragments (a ++ '"' :: t) = a ++ joinFragments ('"' :: t) := by
  refine joinFragments_append fun v hv hsuffix hat => hhalf ?_
  obtain ⟨j, rfl⟩ := h.eq_half_of_at hv hsuffix hat
  obtain ⟨u, rfl⟩ := hsuffix
  exact ⟨u, j, rfl⟩

/-- Half a marker at the end of the text is lost with the quote behind it. -/
private theorem joinFragments_half_append (h : QuotesEscaped (x ++ '"' :: j.text)) (t : List Char) :
    joinFragments (x ++ '"' :: j.text ++ '"' :: t) = x ++ joinFragments t := by
  have hx : ¬ EndsInHalfMarker x := by
    rintro ⟨y, i, rfl⟩
    exact i.getLast?_half_ne y (h _ _ rfl)
  rw [List.append_assoc, List.cons_append,
    (h.of_isPrefix (List.prefix_append x _)).joinFragments_append_quote hx,
    joinFragments_marker]

/-- What half a marker is joined to does not go on from where the text ends. -/
theorem joinFragments_ne_of_endsInHalfMarker (h : QuotesEscaped a) (hhalf : EndsInHalfMarker a)
    (i : Joint) (t w : List Char) : joinFragments (a ++ '"' :: (i.text ++ t)) ≠ a ++ w := by
  obtain ⟨x, j, rfl⟩ := hhalf
  rw [h.joinFragments_half_append, joinFragments_append_of_quote_notMem i.quote_notMem,
    List.append_assoc]
  intro heq
  have hhead := congrArg List.head? (List.append_cancel_left heq)
  rw [List.head?_append_of_ne_nil _ i.text_ne_nil] at hhead
  exact i.quote_notMem (List.mem_of_head? hhead)

end QuotesEscaped

end MessageCatalog.Call
