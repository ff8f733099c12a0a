import MessageCatalog.Proofs.Text.Search

/-!
# Where a cut falls

A search is told by what it finds: the token stands behind some text and starts nowhere in it
(`Token.find_eq_some_iff`).  In the same way a cut is told by its parts: each opening stands at the
first place for one, each closing at the first place behind its opening, and no closing follows the
first opening of the tail (`Cut.FallsLeftmost`).  Whatever text is divided so is divided as its cut
is (`Cut.eq_ofText_iff`), so that there is one such division and no other.

Where a token is known by its lexemes, so are its places (`Token.occursIn_iff_exists_lexes`,
`Token.standsFirst_iff`).  For a fixed word the first place can be read from the text up to the end
of the word alone (`Token.standsFirst_word_iff`).
-/

namespace MessageCatalog.Text

namespace Token

variable {t : Token} {before lexeme rest s w : List Char}

/-! ### The first place of a token -/

/-- A lexeme stands behind some text, and the token does not start earlier. -/
structure StandsFirst (t : Token) (before lexeme rest : List Char) : Prop where
  scan : t.scan (lexeme ++ rest) = some (lexeme, rest)
  not_at : ∀ v, v ≠ [] → v <:+ before → ¬ t.At (v ++ (lexeme ++ rest))

/-- **A search finds the lexeme that stands first.** -/
theorem find_eq_some_iff {p : Split} :
    t.find s = some p ↔ p.text = s ∧ t.StandsFirst p.before p.lexeme p.rest := by
  constructor
  · intro h
    refine ⟨text_of_find h, scan_of_find h, ?_⟩
    rintro v hv ⟨u, huv⟩
    rw [← List.append_assoc]
    exact not_at_of_find h huv hv
  · rintro ⟨rfl, hfirst⟩
    rw [Split.text, List.append_assoc]
    exact find_append_of_scan hfirst.not_at hfirst.scan

/-! ### Places told by lexemes -/

/-- A text is a lexeme where a rest follows it. -/
def Lexes (t : Token) (lexeme rest : List Char) : Prop :=
  t.scan (lexeme ++ rest) = some (lexeme, rest)

theorem at_iff_exists_lexes :
    t.At s ↔ ∃ lexeme rest, s = lexeme ++ rest ∧ t.Lexes lexeme rest := by
  rw [At, Option.isSome_iff_exists]
  constructor
  · rintro ⟨⟨lexeme, rest⟩, hscan⟩
    obtain rfl := t.append_eq hscan
    exact ⟨lexeme, rest, rfl, hscan⟩
  · rintro ⟨lexeme, rest, rfl, hlexes⟩
    exact ⟨(lexeme, rest), hlexes⟩

theorem occursIn_iff_exists_lexes :
    t.OccursIn s ↔ ∃ front lexeme rest, s = front ++ (lexeme ++ rest) ∧ t.Lexes lexeme rest := by
  constructor
  · rintro ⟨v, ⟨front, rfl⟩, hat⟩
    obtain ⟨lexeme, rest, rfl, hlexes⟩ := at_iff_exists_lexes.mp hat
    exact ⟨front, lexeme, rest, rfl, hlexes⟩
  · rintro ⟨front, lexeme, rest, rfl, hlexes⟩
    exact ⟨lexeme ++ rest, List.suffix_append .., at_iff_exists_lexes.mpr ⟨_, _, rfl, hlexes⟩⟩

theorem standsFirst_iff :
    t.StandsFirst before lexeme rest ↔ t.Lexes lexeme rest ∧ ∀ front other back,
      before ++ (lexeme ++ rest) = front ++ (other ++ back) → t.Lexes other back →
        before.length ≤ front.length := by
  constructor
  · rintro ⟨hscan, hnot⟩
    refine ⟨hscan, fun front other back htext hlexes => ?_⟩
    by_contra hlt
    -- a lexeme with less in front of it would start within the front
    have hfront : front <+: before ++ (lexeme ++ rest) := by
      rw [htext]
      exact List.prefix_append ..
    obtain ⟨v, rfl⟩ : front <+: before :=
      List.prefix_of_prefix_length_le hfront (List.prefix_append ..) (by omega)
    have hv : v ≠ [] := by
      rintro rfl
      simp at hlt
    rw [List.append_assoc, List.append_cancel_left_eq] at htext
    exact hnot v hv (List.suffix_append ..) (at_iff_exists_lexes.mpr ⟨_, _, htext, hlexes⟩)
  · rintro ⟨hscan, hfirst⟩
    refine ⟨hscan, ?_⟩
    rintro v hv ⟨front, rfl⟩ hat
    obtain ⟨other, back, htext, hlexes⟩ := at_iff_exists_lexes.mp hat
    have hle := hfirst front other back (by rw [List.append_assoc, htext]) hlexes
    have hpos := List.length_pos_iff.mpr hv
    rw [List.length_append] at hle
    omega

/-! ### Fixed words -/

theorem word_at_iff {hne : w ≠ []} : (word w hne).At s ↔ w <+: s := by
  rw [At, Option.isSome_iff_exists]
  constructor
  · rintro ⟨⟨m, r⟩, hscan⟩
    obtain ⟨-, rfl⟩ := word_scan_eq_some_iff.mp hscan
    exact List.prefix_append w r
  · rintro ⟨r, rfl⟩
    exact ⟨(w, r), word_scan_eq_some_iff.mpr ⟨rfl, rfl⟩⟩

theorem word_occursIn_iff {hne : w ≠ []} : (word w hne).OccursIn s ↔ w <:+: s := by
  constructor
  · rintro ⟨v, hsuffix, hat⟩
    exact (word_at_iff.mp hat).isInfix.trans hsuffix.isInfix
  · rintro ⟨front, back, rfl⟩
    refine ⟨w ++ back, ⟨front, by rw [List.append_assoc]⟩, ?_⟩
    exact word_at_iff.mpr (List.prefix_append w back)

/-- A word stands first if the text up to its end holds it at the end only. -/
theorem standsFirst_word_iff {hne : w ≠ []} :
    (word w hne).StandsFirst before w rest ↔
      ∀ u v, before ++ w = u ++ w ++ v → u = before := by
  constructor
  · intro hfirst u v huv
    -- an occurrence that ends earlier starts earlier
    obtain ⟨gap, hgap⟩ : u <+: before := by
      have hlength := congrArg List.length huv
      simp only [List.length_append] at hlength
      have hu : u <+: before ++ w := by
        rw [huv, List.append_assoc]
        exact List.prefix_append _ _
      exact List.prefix_of_prefix_length_le hu (List.prefix_append _ _) (by omega)
    by_contra hne'
    have hnil : gap ≠ [] := by
      rintro rfl
      exact hne' (by rw [← hgap, List.append_nil])
    refine hfirst.not_at gap hnil ⟨u, hgap⟩ (word_at_iff.mpr ⟨v ++ rest, ?_⟩)
    rw [← hgap, List.append_assoc, List.append_assoc, List.append_cancel_left_eq] at huv
    rw [← List.append_assoc, ← List.append_assoc, huv]
  · intro hfirst
    refine ⟨word_scan_eq_some_iff.mpr ⟨rfl, rfl⟩, ?_⟩
    rintro v hv ⟨u, rfl⟩ hat
    -- the word that starts in `v` ends before the other one does
    have hlonger : v ++ w <+: v ++ (w ++ rest) := by
      rw [← List.append_assoc]
      exact List.prefix_append _ _
    obtain ⟨back, hback⟩ : w <+: v ++ w :=
      List.prefix_of_prefix_length_le (word_at_iff.mp hat) hlonger (by simp)
    have hstart := hfirst u back (by rw [List.append_assoc, ← hback, List.append_assoc])
    exact hv (List.append_right_eq_self.mp hstart.symm)

/-- What a token does not follow behind the first place of a word, it follows behind none. -/
theorem forall_find_word_iff {hne : w ≠ []} (closer : Token) :
    (∀ p, (word w hne).find s = some p → ¬ closer.OccursIn p.rest) ↔
      ∀ u v, s = u ++ w ++ v → ¬ closer.OccursIn v := by
  constructor
  · rintro h u v rfl hclose
    have hoccurs : (word w hne).OccursIn (u ++ w ++ v) :=
      word_occursIn_iff.mpr ⟨u, v, rfl⟩
    obtain ⟨p, hp⟩ := Option.isSome_iff_exists.mp (occursIn_iff_isSome_find.mp hoccurs)
    obtain ⟨htext, hfirst⟩ := find_eq_some_iff.mp hp
    obtain ⟨hlexeme, -⟩ := word_scan_eq_some_iff.mp hfirst.scan
    rw [Split.text, hlexeme, List.append_assoc, List.append_assoc] at htext
    refine h p hp (hclose.of_suffix ?_)
    rcases List.append_eq_append_iff.mp htext with ⟨x, -, hrest⟩ | ⟨x, hbefore, hrest⟩
    · refine List.suffix_of_suffix_length_le ⟨x ++ w, ?_⟩ ⟨w, hrest⟩ ?_
      · rw [List.append_assoc]
      · have hlength := congrArg List.length hrest
        simp only [List.length_append] at hlength
        omega
    · by_cases hx : x = []
      · rw [hx, List.nil_append] at hrest
        exact List.append_cancel_left hrest ▸ List.suffix_refl v
      · -- the word in front of `v` would start before the first one
        refine absurd ?_ (hfirst.not_at x hx ⟨u, hbefore.symm⟩)
        rw [hlexeme, ← hrest]
        exact word_at_iff.mpr (List.prefix_append w v)
  · intro h p hp
    obtain ⟨htext, hfirst⟩ := find_eq_some_iff.mp hp
    obtain ⟨hlexeme, -⟩ := word_scan_eq_some_iff.mp hfirst.scan
    exact h p.before p.rest (by rw [← htext, Split.text, hlexeme])

end Token

/-! ### The parts of a cut -/

namespace Cut

variable {opener closer : Token} {s : List Char}

/-- Each opening stands first, each closing stands first behind its opening, and no closing
follows the first opening of the tail. -/
inductive FallsLeftmost (opener closer : Token) : List Enclosure → List Char → Prop
  | tail {tail : List Char}
      (hunclosed : ∀ p, opener.find tail = some p → ¬ closer.OccursIn p.rest) :
      FallsLeftmost opener closer [] tail
  | enclosure {e : Enclosure} {es : List Enclosure} {tail : List Char}
      (hopen : opener.StandsFirst e.gap e.opening (e.body ++ e.closing ++ text ⟨es, tail⟩))
      (hclose : closer.StandsFirst e.body e.closing (text ⟨es, tail⟩))
      (hothers : FallsLeftmost opener closer es tail) : FallsLeftmost opener closer (e :: es) tail

theorem fallsLeftmost_nil_iff {tail : List Char} :
    FallsLeftmost opener closer [] tail ↔
      ∀ p, opener.find tail = some p → ¬ closer.OccursIn p.rest := by
  constructor
  · intro h
    cases h with
    | tail hunclosed => exact hunclosed
  · exact .tail

theorem fallsLeftmost_cons_iff {e : Enclosure} {es : List Enclosure} {tail : List Char} :
    FallsLeftmost opener closer (e :: es) tail ↔
      opener.StandsFirst e.gap e.opening (e.body ++ e.closing ++ text ⟨es, tail⟩) ∧
        closer.StandsFirst e.body e.closing (text ⟨es, tail⟩) ∧
        FallsLeftmost opener closer es tail := by
  constructor
  · intro h
    cases h with
    | enclosure hopen hclose hothers => exact ⟨hopen, hclose, hothers⟩
  · rintro ⟨hopen, hclose, hothers⟩
    exact .enclosure hopen hclose hothers

theorem text_cons (e : Enclosure) (es : List Enclosure) (tail : List Char) :
    text ⟨e :: es, tail⟩ = e.text ++ text ⟨es, tail⟩ := by
  simp [text]

theorem first?_eq_none_iff :
    Enclosure.first? opener closer s = none ↔
      ∀ p, opener.find s = some p → ¬ closer.OccursIn p.rest := by
  unfold Enclosure.first?
  cases hopen : opener.find s with
  | none => simp
  | some p =>
      simp only [Option.some.injEq, forall_eq', ← Token.find_eq_none_iff]
      cases closer.find p.rest <;> simp

theorem fallsLeftmost_ofText (opener closer : Token) (s : List Char) :
    FallsLeftmost opener closer (ofText opener closer s).enclosures
      (ofText opener closer s).tail := by
  cases h : Enclosure.first? opener closer s with
  | none =>
      rw [ofText_of_first?_eq_none h]
      exact .tail (first?_eq_none_iff.mp h)
  | some q =>
      obtain ⟨e, r⟩ := q
      have ih := fallsLeftmost_ofText opener closer r
      have hr : text ⟨(ofText opener closer r).enclosures, (ofText opener closer r).tail⟩ = r :=
        text_ofText opener closer r
      obtain ⟨hopen, hclose⟩ := Enclosure.first?_eq_some h
      rw [ofText_of_first?_eq_some h]
      refine .enclosure ?_ ?_ ih
      · rw [hr]
        exact (Token.find_eq_some_iff.mp hopen).2
      · rw [hr]
        exact (Token.find_eq_some_iff.mp hclose).2
termination_by s.length
decreasing_by exact Enclosure.length_of_first? h

/-- A text divided leftmost is divided as its cut is. -/
theorem FallsLeftmost.ofText_eq {es : List Enclosure} {tail : List Char}
    (h : FallsLeftmost opener closer es tail) :
    ofText opener closer (text ⟨es, tail⟩) = ⟨es, tail⟩ := by
  induction h with
  | tail hunclosed => exact ofText_of_first?_eq_none (first?_eq_none_iff.mpr hunclosed)
  | @enclosure e es tail hopen hclose hothers ih =>
      have htext : text ⟨e :: es, tail⟩ =
          e.gap ++ e.opening ++ (e.body ++ e.closing ++ text ⟨es, tail⟩) := by
        rw [text_cons, Enclosure.text]
        simp only [List.append_assoc]
      have hopened : opener.find (text ⟨e :: es, tail⟩) =
          some ⟨e.gap, e.opening, e.body ++ e.closing ++ text ⟨es, tail⟩⟩ :=
        Token.find_eq_some_iff.mpr ⟨htext.symm, hopen⟩
      have hclosed : closer.find (e.body ++ e.closing ++ text ⟨es, tail⟩) =
          some ⟨e.body, e.closing, text ⟨es, tail⟩⟩ :=
        Token.find_eq_some_iff.mpr ⟨rfl, hclose⟩
      rw [ofText_of_first?_eq_some (first?_of_find hopened hclosed), ih]

/-- Between two fixed words nothing else opens or closes. -/
theorem FallsLeftmost.eq_words {w w' : List Char} {hw : w ≠ []} {hw' : w' ≠ []}
    {es : List Enclosure} {tail : List Char}
    (h : FallsLeftmost (.word w hw) (.word w' hw') es tail) :
    ∀ e ∈ es, e.opening = w ∧ e.closing = w' := by
  induction h with
  | tail => simp
  | enclosure hopen hclose hothers ih =>
      refine List.forall_mem_cons.mpr ⟨⟨?_, ?_⟩, ih⟩
      · exact (Token.word_scan_eq_some_iff.mp hopen.scan).1
      · exact (Token.word_scan_eq_some_iff.mp hclose.scan).1

/-- **A text has one division that falls leftmost, its cut.** -/
theorem eq_ofText_iff {c : Cut} :
    c = ofText opener closer s ↔ c.text = s ∧ FallsLeftmost opener closer c.enclosures c.tail := by
  constructor
  · rintro rfl
    exact ⟨text_ofText opener closer s, fallsLeftmost_ofText opener closer s⟩
  · rintro ⟨rfl, hfalls⟩
    exact hfalls.ofText_eq.symm

end Cut

end MessageCatalog.Text
