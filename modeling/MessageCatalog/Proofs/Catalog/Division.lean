import MessageCatalog.Proofs.Catalog.Readback
import MessageCatalog.Proofs.Text.Leftmost
import MessageCatalog.Proofs.Text.LineNumber

/-!
# The keys of a text by their grammar

The keys of a text are told without a search.  What opens and what closes a key are given by their
spelling (`IsOpening`, `IsClosing`), and a text is divided into gaps, openings, keys, closings and a
tail.  In such a division every opening is the first one of the text that is left, every closing the
first one behind its opening, and no opening of the tail is followed by a closing (`DividesKeys`).

A quote at the end of the text closes a key too, and so what closes a key depends on what follows
it.  Still every text has exactly one division, and the keys that are read are those of the
division, at the offsets at which they stand in it (`existsUnique_division`).
-/

namespace MessageCatalog.Catalog

open Text

variable {s lexeme rest : List Char}

/-! ### What opens and closes a key -/

/-- The keyword, any blanks and a quote. -/
def IsOpening (lexeme : List Char) : Prop :=
  ∃ blanks, blanks.all isBlank ∧ lexeme = keyword ++ blanks ++ ['"']

/-- A quote, any spaces and tabs, and a line end or, where no text follows, nothing else. -/
def IsClosing (lexeme rest : List Char) : Prop :=
  ∃ padding ending, padding.all isPadding ∧ lexeme = '"' :: padding ++ ending ∧
    (ending = ['\r', '\n'] ∨ ending = ['\n'] ∨ ending = [] ∧ rest = [])

/-- Somewhere in a text a key can be closed. -/
def HoldsClosing (s : List Char) : Prop :=
  ∃ front lexeme rest, s = front ++ (lexeme ++ rest) ∧ IsClosing lexeme rest

theorem keyOpening_lexes_iff : keyOpening.Lexes lexeme rest ↔ IsOpening lexeme := by
  constructor
  · intro h
    obtain ⟨⟨blanks, back⟩, hopening, heq⟩ := Option.map_eq_some_iff.mp h
    cases heq
    exact ⟨blanks, (eq_of_keyOpening? hopening).2, rfl⟩
  · rintro ⟨blanks, hblanks, rfl⟩
    have hscan := keyOpening?_keyword_append hblanks rest
    rw [Token.Lexes, List.append_assoc, List.singleton_append]
    exact Option.map_eq_some_iff.mpr ⟨_, hscan, rfl⟩

private theorem eq_ending_of_lineEnd? {ending back : List Char}
    (h : lineEnd? s = some (ending, back)) :
    ending = ['\r', '\n'] ∨ ending = ['\n'] ∨ ending = [] ∧ back = [] := by
  unfold lineEnd? at h
  split at h
  · cases h
    exact .inr (.inr ⟨rfl, rfl⟩)
  · split at h
    · cases h
      exact .inr (.inl rfl)
    · split at h
      · split at h
        · cases h
        · split at h
          · cases h
            exact .inl rfl
          · cases h
      · cases h

theorem keyClosing_lexes_iff : keyClosing.Lexes lexeme rest ↔ IsClosing lexeme rest := by
  constructor
  · intro h
    obtain ⟨⟨padding, ending, back⟩, hclosing, heq⟩ := Option.map_eq_some_iff.mp h
    cases heq
    refine ⟨padding, ending, (eq_of_keyClosing? hclosing).2, rfl, ?_⟩
    unfold keyClosing? at hclosing
    split at hclosing
    · cases hclosing
    · split at hclosing
      · cases hclosing
      · rename_i hend
        cases hclosing
        exact eq_ending_of_lineEnd? hend
  · rintro ⟨padding, ending, hpadding, rfl, hending⟩
    refine Option.map_eq_some_iff.mpr ⟨(padding, ending, rest), ?_, rfl⟩
    rw [List.append_assoc]
    rcases hending with rfl | rfl | ⟨rfl, rfl⟩
    · exact (keyClosing?_quote_append hpadding (by decide) _).trans rfl
    · exact (keyClosing?_quote_append hpadding (by decide) _).trans rfl
    · have hall : ∀ c ∈ padding, isPadding c = true := List.all_eq_true.mp hpadding
      have hquote : Token.after? ['"'] ('"' :: padding) = some padding :=
        Token.after?_eq_some_iff.mpr rfl
      simp only [List.append_nil, keyClosing?, hquote, List.dropWhile_eq_nil_iff.mpr hall,
        List.takeWhile_eq_self_iff.mpr hall, lineEnd?]

private theorem keyClosing_occursIn_iff : keyClosing.OccursIn s ↔ HoldsClosing s := by
  simp only [Token.occursIn_iff_exists_lexes, keyClosing_lexes_iff, HoldsClosing]

/-! ### Divisions -/

/-- Each opening and each closing is the first one of the text that is left to read where it stands,
and behind no opening of the tail there is a closing. -/
inductive DividesKeys : List Enclosure → List Char → Prop
  | tail {tail : List Char}
      (hunclosed : ∀ front lexeme rest, tail = front ++ (lexeme ++ rest) → IsOpening lexeme →
        ¬ HoldsClosing rest) : DividesKeys [] tail
  | key {e : Enclosure} {es : List Enclosure} {tail : List Char}
      (hopening : IsOpening e.opening)
      (hopeningFirst : ∀ front lexeme rest,
        (Cut.mk (e :: es) tail).text = front ++ (lexeme ++ rest) → IsOpening lexeme →
          e.gap.length ≤ front.length)
      (hclosing : IsClosing e.closing (Cut.mk es tail).text)
      (hclosingFirst : ∀ front lexeme rest,
        e.body ++ (e.closing ++ (Cut.mk es tail).text) = front ++ (lexeme ++ rest) →
          IsClosing lexeme rest → e.body.length ≤ front.length)
      (hothers : DividesKeys es tail) : DividesKeys (e :: es) tail

/-- What follows an opening follows the first opening of the text too. -/
private theorem suffix_rest_of_find {p : Split} (hfind : keyOpening.find s = some p)
    {front : List Char} (hs : s = front ++ (lexeme ++ rest)) (hlexeme : IsOpening lexeme) :
    rest <:+ p.rest := by
  obtain ⟨htext, hfirst⟩ := Token.find_eq_some_iff.mp hfind
  rw [Split.text, List.append_assoc, hs] at htext
  obtain ⟨hlexes, hfirst⟩ := Token.standsFirst_iff.mp hfirst
  obtain ⟨blanks, hblanks, hopening⟩ := keyOpening_lexes_iff.mp hlexes
  have hle := hfirst _ _ _ htext (keyOpening_lexes_iff.mpr hlexeme)
  obtain ⟨blanks', -, rfl⟩ := hlexeme
  obtain ⟨gap, rfl⟩ : p.before <+: front :=
    List.prefix_of_prefix_length_le ⟨_, htext⟩ (List.prefix_append ..) hle
  rw [List.append_assoc, List.append_cancel_left_eq, hopening] at htext
  -- the first opening ends at the first quote behind its start
  have hquotes : (gap ++ (keyword ++ blanks')) ++ '"' :: rest =
      (keyword ++ blanks) ++ '"' :: p.rest := by
    simpa using htext.symm
  rcases first_mark_cases (quote_not_mem_keyword_append hblanks) hquotes with
    ⟨-, hrest⟩ | ⟨extra, -, hrest⟩
  · exact hrest ▸ List.suffix_refl _
  · exact ⟨extra ++ ['"'], by rw [hrest]; simp⟩

private theorem forall_find_keyOpening_iff :
    (∀ p, keyOpening.find s = some p → ¬ keyClosing.OccursIn p.rest) ↔
      ∀ front lexeme rest, s = front ++ (lexeme ++ rest) → IsOpening lexeme →
        ¬ HoldsClosing rest := by
  simp only [← keyClosing_occursIn_iff]
  constructor
  · intro h front lexeme rest hs hlexeme hclosing
    have hoccurs : keyOpening.OccursIn s :=
      Token.occursIn_iff_exists_lexes.mpr
        ⟨front, lexeme, rest, hs, keyOpening_lexes_iff.mpr hlexeme⟩
    obtain ⟨p, hp⟩ := Option.isSome_iff_exists.mp (Token.occursIn_iff_isSome_find.mp hoccurs)
    exact h p hp (hclosing.of_suffix (suffix_rest_of_find hp hs hlexeme))
  · intro h p hp
    obtain ⟨htext, hfirst⟩ := Token.find_eq_some_iff.mp hp
    rw [Split.text, List.append_assoc] at htext
    exact h _ _ _ htext.symm (keyOpening_lexes_iff.mp hfirst.scan)

/-- A text is divided by the grammar of keys where the search for its tokens divides it. -/
theorem dividesKeys_iff {es : List Enclosure} {tail : List Char} :
    DividesKeys es tail ↔ Cut.FallsLeftmost keyOpening keyClosing es tail := by
  -- induction on the enclosures: the parts of the first key, then the division of what is left
  induction es with
  | nil =>
      rw [Cut.fallsLeftmost_nil_iff, forall_find_keyOpening_iff]
      constructor
      · rintro ⟨hunclosed⟩
        exact hunclosed
      · exact .tail
  | cons e es ih =>
      have htext : (Cut.mk (e :: es) tail).text =
          e.gap ++ (e.opening ++ (e.body ++ e.closing ++ (Cut.mk es tail).text)) := by
        rw [Cut.text_cons, Enclosure.text]
        simp only [List.append_assoc]
      rw [Cut.fallsLeftmost_cons_iff, Token.standsFirst_iff, Token.standsFirst_iff, ← ih]
      simp only [keyOpening_lexes_iff, keyClosing_lexes_iff, ← htext]
      constructor
      · rintro (_ | ⟨hopening, hopeningFirst, hclosing, hclosingFirst, hothers⟩)
        exact ⟨⟨hopening, hopeningFirst⟩, ⟨hclosing, hclosingFirst⟩, hothers⟩
      · rintro ⟨⟨hopening, hopeningFirst⟩, ⟨hclosing, hclosingFirst⟩, hothers⟩
        exact .key hopening hopeningFirst hclosing hclosingFirst hothers

/-! ### Keys and their offsets -/

/-- The keys of a division, each with the number of bytes that stand in front of it. -/
def divisionSites (c : Cut) : List KeySite :=
  c.enclosures.zipIdx.map fun (e, place) =>
    ⟨String.ofList e.body,
      (String.ofList ((Cut.mk (c.enclosures.take place) (e.gap ++ e.opening)).text)).utf8ByteSize⟩

private theorem KeySite.ofEnclosures_eq (offset : Nat) (es : List Enclosure) :
    ofEnclosures offset es = es.zipIdx.map fun (e, place) =>
      ⟨String.ofList e.body,
        offset + byteLength (Cut.mk (es.take place) (e.gap ++ e.opening)).text⟩ := by
  induction es generalizing offset with
  | nil => rfl
  | cons e es ih =>
      rw [ofEnclosures, ih, List.zipIdx_cons, List.map_cons, List.zipIdx_succ, List.map_map]
      refine congrArg₂ List.cons ?_ (List.map_congr_left fun entry _ => ?_)
      · simp [Cut.text, Enclosure.lead]
      · simp [Cut.text_cons, Nat.add_assoc]

theorem byteLength_eq_utf8ByteSize (s : List Char) :
    byteLength s = (String.ofList s).utf8ByteSize := by
  rw [← byteLength_toList, String.toList_ofList]

theorem keySites_eq_divisionSites (text : String) :
    keySites text = divisionSites (keyCut text.toList) := by
  rw [keySites, KeySite.ofEnclosures_eq, divisionSites]
  simp only [Nat.zero_add, byteLength_eq_utf8ByteSize]

/-- **Every text has exactly one division by the grammar of keys, and the keys of the text are those
of this division, at their offsets and as they are written.** -/
theorem existsUnique_division (text : String) :
    (∃! c : Cut, c.text = text.toList ∧ DividesKeys c.enclosures c.tail) ∧
      ∃ c : Cut, (c.text = text.toList ∧ DividesKeys c.enclosures c.tail) ∧
        keySites text = divisionSites c ∧
        ∀ key, key ∈ keys text ↔ ∃ e ∈ c.enclosures, String.ofList e.body = key := by
  have hdivides : ∀ {c : Cut}, c = keyCut text.toList ↔
      c.text = text.toList ∧ DividesKeys c.enclosures c.tail := by
    intro c
    rw [dividesKeys_iff]
    exact Cut.eq_ofText_iff
  refine ⟨⟨keyCut text.toList, hdivides.mp rfl, fun c hc => hdivides.mpr hc⟩,
    keyCut text.toList, hdivides.mp rfl, keySites_eq_divisionSites text, fun key => ?_⟩
  rw [mem_keys_iff, keyTexts_eq, keyBodies, Cut.bodies, List.map_map, List.mem_map]
  rfl

end MessageCatalog.Catalog
