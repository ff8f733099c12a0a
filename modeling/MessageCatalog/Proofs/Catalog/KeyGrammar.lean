import MessageCatalog.Catalog.Key
import MessageCatalog.Proofs.Text.Search
import Mathlib.Data.List.Infix
import Mathlib.Data.List.TakeWhile

/-!
# What opens and what closes a key

The tokens around a key, told by their spelling instead of by the functions that scan
them: `OpensKey` for the front of a text that opens a key, `AtLineEndingQuote` for a
quote that ends its line.  A quote at the end of the whole text closes a key as well, but
no text that goes on has one.

In a text of whole lines both tokens are settled, whatever follows the closing one
(`settled_keyClosing`) and as long as neither a blank nor a quote follows the opening one
(`settled_keyOpening`).  Two texts of this kind can therefore be read one by one.
-/

namespace MessageCatalog.Catalog

open Text

variable {s a b : List Char}

/-! ### Openings -/

/-- A text starts with what opens a key: the keyword, any blanks and a quote. -/
def OpensKey (s : List Char) : Prop :=
  ∃ blanks rest, blanks.all isBlank ∧ s = keyword ++ blanks ++ '"' :: rest

/-- Somewhere in a text a key is opened. -/
def HoldsOpening (s : List Char) : Prop :=
  ∃ rest, rest <:+ s ∧ OpensKey rest

theorem keyOpening?_keyword_append {blanks : List Char} (hblanks : blanks.all isBlank)
    (rest : List Char) :
    keyOpening? (keyword ++ blanks ++ '"' :: rest) = some (blanks, rest) := by
  have hblank : ∀ c ∈ blanks, isBlank c = true := List.all_eq_true.mp hblanks
  have hword : Token.after? keyword (keyword ++ blanks ++ '"' :: rest) =
      some (blanks ++ '"' :: rest) :=
    Token.after?_eq_some_iff.mpr (by simp)
  have hquote : Token.after? ['"'] ('"' :: rest) = some rest :=
    Token.after?_eq_some_iff.mpr rfl
  simp only [keyOpening?, hword, List.dropWhile_append_of_pos hblank,
    List.takeWhile_append_of_pos hblank,
    List.dropWhile_cons_of_neg (show ¬ isBlank '"' = true by decide),
    List.takeWhile_cons_of_neg (show ¬ isBlank '"' = true by decide), hquote, List.append_nil]

theorem keyOpening_at_iff : keyOpening.At s ↔ OpensKey s := by
  constructor
  · intro h
    obtain ⟨⟨lexeme, rest⟩, hscan⟩ := Option.isSome_iff_exists.mp h
    obtain ⟨⟨blanks, rest'⟩, hopening, -⟩ := Option.map_eq_some_iff.mp hscan
    obtain ⟨hs, hblanks⟩ := eq_of_keyOpening? hopening
    exact ⟨blanks, rest', hblanks, hs⟩
  · rintro ⟨blanks, rest, hblanks, rfl⟩
    simp only [Token.At, keyOpening, keyOpening?_keyword_append hblanks, Option.map_some,
      Option.isSome_some]

theorem keyOpening_occursIn_iff : keyOpening.OccursIn s ↔ HoldsOpening s := by
  simp only [Token.OccursIn, HoldsOpening, keyOpening_at_iff]

instance (s : List Char) : Decidable (HoldsOpening s) :=
  decidable_of_iff _ keyOpening_occursIn_iff

theorem OpensKey.head?_eq (h : OpensKey s) : s.head? = some 'm' := by
  obtain ⟨blanks, rest, -, rfl⟩ := h
  rfl

/-- An opening ends with a quote, so that what follows a text without one plays no part. -/
theorem OpensKey.of_append (h : OpensKey (a ++ b)) (hquote : '"' ∉ b) : OpensKey a := by
  obtain ⟨blanks, rest, hblanks, heq⟩ := h
  rcases List.append_eq_append_iff.mp heq with ⟨extra, -, hb⟩ | ⟨extra, ha, hb⟩
  · exact absurd (by simp [hb]) hquote
  · cases extra with
    | nil => exact absurd (by rw [← List.nil_append b, ← hb]; simp) hquote
    | cons c extra =>
        obtain ⟨rfl, -⟩ := List.cons.inj hb
        exact ⟨blanks, extra, hblanks, ha⟩

theorem quote_not_mem_keyword_append {blanks : List Char} (hblanks : blanks.all isBlank) :
    '"' ∉ keyword ++ blanks := by
  intro hmem
  rcases List.mem_append.mp hmem with hmem | hmem
  · exact absurd hmem (by decide)
  · exact absurd (List.all_eq_true.mp hblanks _ hmem) (by decide)

private theorem OpensKey.of_append_quote (h : OpensKey (a ++ '"' :: b)) :
    OpensKey (a ++ ['"']) := by
  obtain ⟨blanks, rest, hblanks, heq⟩ := h
  rcases first_mark_cases (quote_not_mem_keyword_append hblanks) heq with ⟨rfl, -⟩ | ⟨extra, rfl, -⟩
  · exact ⟨blanks, [], hblanks, rfl⟩
  · exact ⟨blanks, extra ++ ['"'], hblanks, by simp⟩

/-- What is opened reaches at least over everything behind a quote of the text. -/
theorem suffix_of_scan_keyOpening {m r : List Char}
    (h : keyOpening.scan (a ++ '"' :: b) = some (m, r)) : b <:+ r := by
  obtain ⟨⟨blanks, rest⟩, hopening, heq⟩ := Option.map_eq_some_iff.mp h
  cases heq
  obtain ⟨htext, hblanks⟩ := eq_of_keyOpening? hopening
  rcases first_mark_cases (quote_not_mem_keyword_append hblanks) htext with
    ⟨-, rfl⟩ | ⟨extra, -, rfl⟩
  · exact List.suffix_refl _
  · exact ⟨extra ++ ['"'], by simp⟩

theorem OpensKey.mem_quote (h : OpensKey s) : '"' ∈ s := by
  obtain ⟨blanks, rest, -, rfl⟩ := h
  simp

/-- A text without quotes adds no opening at the end of another one. -/
theorem HoldsOpening.of_append (h : HoldsOpening (a ++ b)) (hquote : '"' ∉ b) :
    HoldsOpening a := by
  obtain ⟨rest, hrest, hopen⟩ := h
  rcases Token.suffix_append_cases hrest with hrest | ⟨front, -, hfront, rfl⟩
  · exact absurd (hrest.mem hopen.mem_quote) hquote
  · exact ⟨front, hfront, hopen.of_append hquote⟩

theorem HoldsOpening.of_append_quote (h : HoldsOpening (a ++ '"' :: b)) :
    HoldsOpening (a ++ ['"']) ∨ HoldsOpening b := by
  obtain ⟨rest, hrest, hopen⟩ := h
  rcases Token.suffix_append_cases hrest with hrest | ⟨front, -, ⟨lead, rfl⟩, rfl⟩
  · rcases List.suffix_cons_iff.mp hrest with rfl | hrest
    · exact absurd hopen.head?_eq (by simp)
    · exact .inr ⟨rest, hrest, hopen⟩
  · exact .inl ⟨front ++ ['"'], ⟨lead, by simp⟩, hopen.of_append_quote⟩

/-- Only the first letter of the keyword can add an opening in front of a text. -/
theorem HoldsOpening.of_cons {c : Char} (h : HoldsOpening (c :: s)) (hc : c ≠ 'm') :
    HoldsOpening s := by
  obtain ⟨rest, hrest, hopen⟩ := h
  rcases List.suffix_cons_iff.mp hrest with rfl | hrest
  · exact absurd (by simpa using hopen.head?_eq) hc
  · exact ⟨rest, hrest, hopen⟩

/-! ### Closings -/

/-- A text starts with a quote that ends its line: nothing but spaces and tabs stands between
the quote and a line end. -/
def AtLineEndingQuote (s : List Char) : Prop :=
  ∃ padding rest, padding.all isPadding ∧
    (s = '"' :: padding ++ '\n' :: rest ∨ s = '"' :: padding ++ '\r' :: '\n' :: rest)

/-- Somewhere in a text a quote ends its line. -/
def HoldsLineEndingQuote (s : List Char) : Prop :=
  ∃ rest, rest <:+ s ∧ AtLineEndingQuote rest

theorem keyClosing?_quote_append {padding : List Char} (hpadding : padding.all isPadding)
    {c : Char} (hc : isPadding c = false) (rest : List Char) :
    keyClosing? ('"' :: padding ++ c :: rest) =
      (lineEnd? (c :: rest)).map fun p => (padding, p.1, p.2) := by
  have hpad : ∀ d ∈ padding, isPadding d = true := List.all_eq_true.mp hpadding
  have hquote : Token.after? ['"'] ('"' :: padding ++ c :: rest) = some (padding ++ c :: rest) :=
    Token.after?_eq_some_iff.mpr rfl
  simp only [keyClosing?, hquote, List.dropWhile_append_of_pos hpad,
    List.takeWhile_append_of_pos hpad,
    List.dropWhile_cons_of_neg (show ¬ isPadding c = true by simp [hc]),
    List.takeWhile_cons_of_neg (show ¬ isPadding c = true by simp [hc]), List.append_nil]
  cases lineEnd? (c :: rest) <;> rfl

/-- A text is a quote, padding and what follows the padding, or it starts with no quote. -/
theorem padding_cases (s : List Char) :
    (∃ padding, padding.all isPadding ∧
        (s = '"' :: padding ∨ ∃ c rest, isPadding c = false ∧ s = '"' :: padding ++ c :: rest)) ∨
      keyClosing? s = none ∧ s.head? ≠ some '"' := by
  cases s with
  | nil => exact .inr ⟨rfl, by simp⟩
  | cons q w =>
      by_cases hq : q = '"'
      · subst hq
        refine .inl ⟨w.takeWhile isPadding, List.all_takeWhile, ?_⟩
        have hsplit := List.takeWhile_append_dropWhile (p := isPadding) (l := w)
        cases hdrop : w.dropWhile isPadding with
        | nil => exact .inl (by rw [hdrop, List.append_nil] at hsplit; rw [hsplit])
        | cons c rest =>
            refine .inr ⟨c, rest, ?_, by rw [List.cons_append, ← hdrop, hsplit]⟩
            have hhead := List.head?_dropWhile_not isPadding w
            rw [hdrop] at hhead
            simpa using hhead
      · refine .inr ⟨?_, by simpa using hq⟩
        have hafter : Token.after? ['"'] (q :: w) = none := by
          simp [Token.after?, Ne.symm hq]
        simp [keyClosing?, hafter]

theorem lineEnd?_isSome_iff {c : Char} {rest : List Char} :
    (lineEnd? (c :: rest)).isSome ↔ c = '\n' ∨ c = '\r' ∧ rest.head? = some '\n' := by
  cases rest with
  | nil => by_cases hn : c = '\n' <;> by_cases hr : c = '\r' <;> simp [lineEnd?, hn, hr]
  | cons d rest =>
      by_cases hn : c = '\n' <;> by_cases hr : c = '\r' <;> by_cases hd : d = '\n' <;>
        simp [lineEnd?, hn, hr, hd]

theorem keyClosing_at_iff_of_padding {padding : List Char} (hpadding : padding.all isPadding)
    {c : Char} (hc : isPadding c = false) (rest : List Char) :
    keyClosing.At ('"' :: padding ++ c :: rest) ↔
      c = '\n' ∨ c = '\r' ∧ rest.head? = some '\n' := by
  simp only [Token.At, keyClosing, keyClosing?_quote_append hpadding hc, Option.isSome_map,
    lineEnd?_isSome_iff]

theorem AtLineEndingQuote.at_keyClosing (h : AtLineEndingQuote a) (b : List Char) :
    keyClosing.At (a ++ b) := by
  obtain ⟨padding, rest, hpadding, rfl | rfl⟩ := h
  · rw [List.append_assoc, List.cons_append]
    exact (keyClosing_at_iff_of_padding hpadding (by decide) _).mpr (.inl rfl)
  · rw [List.append_assoc, List.cons_append, List.cons_append]
    exact (keyClosing_at_iff_of_padding hpadding (by decide) _).mpr (.inr ⟨rfl, rfl⟩)

theorem atLineEndingQuote_of_padding {padding : List Char} (hpadding : padding.all isPadding)
    {c : Char} {rest : List Char} (h : c = '\n' ∨ c = '\r' ∧ rest.head? = some '\n') :
    AtLineEndingQuote ('"' :: padding ++ c :: rest) := by
  rcases h with rfl | ⟨rfl, hhead⟩
  · exact ⟨padding, rest, hpadding, .inl rfl⟩
  · obtain ⟨rest, rfl⟩ : ∃ tail, rest = '\n' :: tail := by
      cases rest with
      | nil => simp at hhead
      | cons d rest => exact ⟨rest, by simpa using hhead⟩
    exact ⟨padding, rest, hpadding, .inr rfl⟩

/-- In front of another quote only a quote that ends its line closes a key. -/
theorem atLineEndingQuote_of_at_append_quote (hne : a ≠ []) (h : keyClosing.At (a ++ '"' :: b)) :
    AtLineEndingQuote a := by
  rcases padding_cases a with ⟨padding, hpadding, rfl | ⟨c, rest, hc, rfl⟩⟩ | ⟨-, hhead⟩
  · have := (keyClosing_at_iff_of_padding hpadding (show isPadding '"' = false by decide) b).mp h
    simp at this
  · have hat : keyClosing.At ('"' :: padding ++ c :: (rest ++ '"' :: b)) := by simpa using h
    rw [keyClosing_at_iff_of_padding hpadding hc] at hat
    refine atLineEndingQuote_of_padding hpadding (hat.imp_right fun hcr => ⟨hcr.1, ?_⟩)
    -- the line feed cannot be the quote that follows
    cases rest with
    | nil => simp at hcr
    | cons d rest => simpa using hcr.2
  · obtain ⟨p, hscan⟩ := Option.isSome_iff_exists.mp h
    obtain ⟨q, hclosing, -⟩ := Option.map_eq_some_iff.mp hscan
    obtain ⟨c, a, rfl⟩ := List.exists_cons_of_ne_nil hne
    have heq := (eq_of_keyClosing? hclosing).1
    simp only [List.cons_append, List.cons.injEq] at heq
    exact absurd (by simp [heq.1]) hhead

theorem atLineEndingQuote_iff :
    AtLineEndingQuote s ↔ (keyClosing? s).any fun p => !p.2.1.isEmpty := by
  constructor
  · rintro ⟨padding, rest, hpadding, rfl | rfl⟩
    · rw [keyClosing?_quote_append hpadding (by decide)]
      simp [lineEnd?]
    · rw [keyClosing?_quote_append hpadding (by decide)]
      simp [lineEnd?]
  · intro h
    -- padding up to the end of the text closes a key too, but it ends no line there
    rcases padding_cases s with ⟨padding, hpadding, rfl | ⟨c, rest, hc, rfl⟩⟩ | ⟨hnone, -⟩
    · have hpad : ∀ d ∈ padding, isPadding d = true := List.all_eq_true.mp hpadding
      have hquote : Token.after? ['"'] ('"' :: padding) = some padding :=
        Token.after?_eq_some_iff.mpr rfl
      have hdrop : padding.dropWhile isPadding = [] := List.dropWhile_eq_nil_iff.mpr hpad
      simp [keyClosing?, hquote, hdrop, lineEnd?] at h
    · rw [keyClosing?_quote_append hpadding hc] at h
      apply atLineEndingQuote_of_padding hpadding
      rw [← lineEnd?_isSome_iff]
      cases hend : lineEnd? (c :: rest) with
      | none => simp [hend] at h
      | some p => rfl
    · simp [hnone] at h

instance (s : List Char) : Decidable (AtLineEndingQuote s) :=
  decidable_of_iff _ atLineEndingQuote_iff.symm

instance (s : List Char) : Decidable (HoldsLineEndingQuote s) :=
  decidable_of_iff (∃ rest ∈ s.tails, AtLineEndingQuote rest) (by
    simp only [HoldsLineEndingQuote, List.mem_tails])

/-! ### Whole lines -/

/-- A text is empty or ends in a line feed. -/
def WholeLines (s : List Char) : Prop :=
  s = [] ∨ s.getLast? = some '\n'

instance (s : List Char) : Decidable (WholeLines s) :=
  inferInstanceAs (Decidable (_ ∨ _))

theorem WholeLines.getLast?_of_suffix (h : WholeLines a) {v : List Char} (hv : v ≠ [])
    (hsuffix : v <:+ a) : v.getLast? = some '\n' := by
  obtain ⟨lead, rfl⟩ := hsuffix
  rcases h with h | h
  · exact absurd (List.append_eq_nil_iff.mp h).2 hv
  · rwa [List.getLast?_append_of_ne_nil lead hv] at h

private theorem after?_append_of_some {w s r : List Char} (h : Token.after? w s = some r)
    (b : List Char) : Token.after? w (s ++ b) = some (r ++ b) := by
  rw [Token.after?_eq_some_iff] at h ⊢
  rw [h, List.append_assoc]

/-- A word without line feeds cannot reach over the end of a line. -/
private theorem after?_append_of_none {w s : List Char} (h : Token.after? w s = none)
    (hlast : s.getLast? = some '\n') (hw : '\n' ∉ w) (b : List Char) :
    Token.after? w (s ++ b) = none := by
  cases happ : Token.after? w (s ++ b) with
  | none => rfl
  | some r =>
      rw [Token.after?_eq_some_iff] at happ
      rcases List.append_eq_append_iff.mp happ with ⟨extra, hover, -⟩ | ⟨extra, hover, -⟩
      · have hmem : '\n' ∈ s := List.mem_of_getLast? hlast
        exact absurd (by rw [hover]; exact List.mem_append_left extra hmem) hw
      · rw [Token.after?_eq_some_iff.mpr hover] at h
        cases h

/-- Behind whole lines neither a blank nor a quote comes next. -/
def StartsPlainly (s : List Char) : Prop :=
  ∀ c ∈ s.head?, isBlank c = false ∧ c ≠ '"'

private theorem keyOpening?_append (hlast : a.getLast? = some '\n') (hb : StartsPlainly b) :
    keyOpening? (a ++ b) = (keyOpening? a).map fun p => (p.1, p.2 ++ b) := by
  unfold keyOpening?
  cases hword : Token.after? keyword a with
  | none => simp [after?_append_of_none hword hlast (by decide)]
  | some s =>
      rw [after?_append_of_some hword b]
      have hsplit := List.takeWhile_append_dropWhile (p := isBlank) (l := s)
      cases hdrop : s.dropWhile isBlank with
      | nil =>
          -- the blanks reach the end of the line, and no quote comes next
          have hblank : ∀ c ∈ s, isBlank c = true := List.dropWhile_eq_nil_iff.mp hdrop
          have hnone : Token.after? ['"'] (b.dropWhile isBlank) = none := by
            cases b with
            | nil => rfl
            | cons c b =>
                obtain ⟨hplain, hquote⟩ := hb c rfl
                rw [List.dropWhile_cons_of_neg (by simp [hplain])]
                simp [Token.after?, Ne.symm hquote]
          simp only [List.dropWhile_append_of_pos hblank, hnone, hdrop]
          rfl
      | cons c rest =>
          have htake : (s.takeWhile isBlank).length ≠ s.length := by
            have hlength := congrArg List.length hsplit
            rw [hdrop, List.length_append, List.length_cons] at hlength
            omega
          have happend : (s ++ b).dropWhile isBlank = c :: rest ++ b := by
            rw [List.dropWhile_append, hdrop]
            rfl
          simp only [happend, hdrop, List.takeWhile_append, if_neg htake]
          by_cases hc : c = '"'
          · simp [Token.after?, hc]
          · simp [Token.after?, Ne.symm hc]

/-- Over whole lines with a plain start behind them no key is opened. -/
theorem settled_keyOpening (ha : WholeLines a) (hb : StartsPlainly b) :
    keyOpening.Settled a b := by
  intro v hv hsuffix
  simp only [keyOpening, keyOpening?_append (ha.getLast?_of_suffix hv hsuffix) hb, Option.map_map]
  rfl

private theorem lineEnd?_append {c : Char} {rest : List Char}
    (hlast : (c :: rest).getLast? = some '\n') (b : List Char) :
    lineEnd? (c :: rest ++ b) = (lineEnd? (c :: rest)).map fun p => (p.1, p.2 ++ b) := by
  cases rest with
  | nil =>
      obtain rfl : c = '\n' := by simpa using hlast
      rfl
  | cons d rest =>
      by_cases hn : c = '\n' <;> by_cases hr : c = '\r' <;> by_cases hd : d = '\n' <;>
        simp [lineEnd?, hn, hr, hd]

private theorem keyClosing?_append (hlast : a.getLast? = some '\n') (b : List Char) :
    keyClosing? (a ++ b) = (keyClosing? a).map fun p => (p.1, p.2.1, p.2.2 ++ b) := by
  rcases padding_cases a with ⟨padding, hpadding, rfl | ⟨c, rest, hc, rfl⟩⟩ | ⟨hnone, hhead⟩
  · -- a line feed is neither a quote nor padding
    have hmem : '\n' ∈ '"' :: padding := List.mem_of_getLast? hlast
    rcases List.mem_cons.mp hmem with hmem | hmem
    · exact absurd hmem (by decide)
    · exact absurd (List.all_eq_true.mp hpadding _ hmem) (by decide)
  · have hend : (c :: rest).getLast? = some '\n' := by
      rwa [List.getLast?_append_of_ne_nil _ (List.cons_ne_nil c rest)] at hlast
    have htext : '"' :: padding ++ c :: rest ++ b = '"' :: padding ++ c :: (rest ++ b) := by simp
    rw [htext, keyClosing?_quote_append hpadding hc, keyClosing?_quote_append hpadding hc,
      ← List.cons_append, lineEnd?_append hend]
    cases lineEnd? (c :: rest) <;> rfl
  · cases a with
    | nil => simp at hlast
    | cons q a =>
        have hafter : Token.after? ['"'] (q :: (a ++ b)) = none := by
          have hq : '"' ≠ q := fun h => hhead (by rw [h]; rfl)
          simp [Token.after?, hq]
        rw [hnone, List.cons_append]
        simp [keyClosing?, hafter]

/-- Over whole lines no key is closed. -/
theorem settled_keyClosing (ha : WholeLines a) (b : List Char) : keyClosing.Settled a b := by
  intro v hv hsuffix
  simp only [keyClosing, keyClosing?_append (ha.getLast?_of_suffix hv hsuffix) b, Option.map_map]
  rfl

end MessageCatalog.Catalog
