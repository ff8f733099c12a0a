import MessageCatalog.Proofs.Text.Search

/-!
# Texts with other line ends

A text may end its lines by line feeds, or by carriage returns with line feeds.  One form becomes
the other when each line feed is paired with a carriage return (`pairEnds`) or each pair is made a
bare line feed again (`bareEnds`).  A text in which carriage returns and line feeds stand in pairs
only (`EndsPaired`) is the paired form of its bare form.

A search goes alike through both forms, as long as the token is recognised alike in them and never
starts at a line feed (`Token.find_pairEnds`).  Then both forms are cut at the same places
(`Cut.ofText_pairEnds`), although every offset behind the first line end is another one.
-/

namespace MessageCatalog.Text

variable {s a b : List Char}

/-! ### Both forms of a text -/

/-- A text with a carriage return in front of every line feed. -/
def pairEnds : List Char → List Char
  | [] => []
  | c :: s => if c = '\n' then '\r' :: '\n' :: pairEnds s else c :: pairEnds s

/-- A text in which every carriage return that a line feed follows is left out. -/
def bareEnds : List Char → List Char
  | '\r' :: '\n' :: s => '\n' :: bareEnds s
  | c :: s => c :: bareEnds s
  | [] => []

/-- Carriage returns and line feeds stand in pairs only. -/
structure EndsPaired (s : List Char) : Prop where
  behind : ∀ front back, s = front ++ '\r' :: back → back.head? = some '\n'
  before : ∀ front back, s = front ++ '\n' :: back → front.getLast? = some '\r'

@[simp] theorem pairEnds_nil : pairEnds [] = [] := rfl

@[simp] theorem pairEnds_lineFeed (s : List Char) :
    pairEnds ('\n' :: s) = '\r' :: '\n' :: pairEnds s := rfl

theorem pairEnds_cons {c : Char} (hc : c ≠ '\n') (s : List Char) :
    pairEnds (c :: s) = c :: pairEnds s :=
  if_neg hc

@[simp] theorem pairEnds_append (a b : List Char) :
    pairEnds (a ++ b) = pairEnds a ++ pairEnds b := by
  induction a with
  | nil => rfl
  | cons c a ih =>
      simp only [List.cons_append, pairEnds, ih]
      split <;> rfl

theorem pairEnds_flatten (texts : List (List Char)) :
    pairEnds texts.flatten = (texts.map pairEnds).flatten := by
  induction texts with
  | nil => rfl
  | cons s texts ih => simp [ih]

/-- Pairing adds no line. -/
theorem count_pairEnds (s : List Char) : (pairEnds s).count '\n' = s.count '\n' := by
  induction s with
  | nil => rfl
  | cons c s ih =>
      by_cases hc : c = '\n'
      · simp [hc, ih]
      · simp [pairEnds_cons hc, ih, hc]

private theorem head?_pairEnds (s : List Char) : (pairEnds s).head? ≠ some '\n' := by
  cases s with
  | nil => simp
  | cons c s =>
      by_cases hc : c = '\n'
      · simp [hc]
      · simp [pairEnds_cons hc, hc]

theorem bareEnds_cons {c : Char} (h : c = '\r' → s.head? ≠ some '\n') :
    bareEnds (c :: s) = c :: bareEnds s := by
  rw [bareEnds.eq_def]
  split
  · rename_i heq
    obtain ⟨rfl, rfl⟩ := List.cons.inj heq
    exact absurd rfl (h rfl)
  · rename_i heq
    obtain ⟨rfl, rfl⟩ := List.cons.inj heq
    rfl
  · rename_i heq
    cases heq

/-- What is paired is made bare again, whatever carriage returns the text has of its own. -/
@[simp] theorem bareEnds_pairEnds (s : List Char) : bareEnds (pairEnds s) = s := by
  induction s with
  | nil => rfl
  | cons c s ih =>
      by_cases hc : c = '\n'
      · simp [hc, bareEnds, ih]
      · rw [pairEnds_cons hc, bareEnds_cons fun _ => head?_pairEnds s, ih]

theorem getLast?_cons_eq_return_iff {c : Char} (hc : c ≠ '\r') (front : List Char) :
    (c :: front).getLast? = some '\r' ↔ front.getLast? = some '\r' := by
  cases front with
  | nil => simp [hc]
  | cons d front => rw [List.getLast?_cons_cons]

/-- A character that belongs to no line end makes no difference. -/
theorem endsPaired_cons_iff {c : Char} (hreturn : c ≠ '\r') (hlineFeed : c ≠ '\n') :
    EndsPaired (c :: s) ↔ EndsPaired s := by
  constructor
  · rintro ⟨hbehind, hbefore⟩
    refine ⟨fun front back hs => hbehind (c :: front) back (by rw [hs]; rfl),
      fun front back hs => ?_⟩
    exact (getLast?_cons_eq_return_iff hreturn front).mp
      (hbefore (c :: front) back (by rw [hs]; rfl))
  · rintro ⟨hbehind, hbefore⟩
    refine ⟨fun front back hs => ?_, fun front back hs => ?_⟩
    · cases front with
      | nil => exact absurd (List.cons.inj hs).1 hreturn
      | cons d front => exact hbehind front back (List.cons.inj hs).2
    · cases front with
      | nil => exact absurd (List.cons.inj hs).1 hlineFeed
      | cons d front =>
          obtain ⟨rfl, htail⟩ := List.cons.inj hs
          exact (getLast?_cons_eq_return_iff hreturn front).mpr (hbefore front back htail)

theorem endsPaired_pair_iff : EndsPaired ('\r' :: '\n' :: s) ↔ EndsPaired s := by
  constructor
  · rintro ⟨hbehind, hbefore⟩
    refine ⟨fun front back hs => hbehind ('\r' :: '\n' :: front) back (by rw [hs]; rfl),
      fun front back hs => ?_⟩
    have hlast := hbefore ('\r' :: '\n' :: front) back (by rw [hs]; rfl)
    rw [List.getLast?_cons_cons] at hlast
    exact (getLast?_cons_eq_return_iff (by decide) front).mp hlast
  · rintro ⟨hbehind, hbefore⟩
    refine ⟨fun front back hs => ?_, fun front back hs => ?_⟩
    · rcases front with _ | ⟨d, _ | ⟨e, front⟩⟩
      · obtain ⟨-, rfl⟩ := List.cons.inj hs
        rfl
      · simp at hs
      · simp only [List.cons_append, List.cons.injEq] at hs
        exact hbehind front back hs.2.2
    · rcases front with _ | ⟨d, _ | ⟨e, front⟩⟩
      · simp at hs
      · simp only [List.cons_append, List.cons.injEq] at hs
        rw [← hs.1]
        rfl
      · simp only [List.cons_append, List.cons.injEq] at hs
        obtain ⟨rfl, rfl, hs⟩ := hs
        rw [List.getLast?_cons_cons]
        exact (getLast?_cons_eq_return_iff (by decide) front).mpr (hbefore front back hs)

theorem endsPaired_pairEnds (hs : '\r' ∉ s) : EndsPaired (pairEnds s) := by
  induction s with
  | nil => exact ⟨by simp, by simp⟩
  | cons c s ih =>
      obtain ⟨hreturn, hs⟩ := List.ne_and_not_mem_of_not_mem_cons hs
      by_cases hlineFeed : c = '\n'
      · rw [hlineFeed, pairEnds_lineFeed]
        exact endsPaired_pair_iff.mpr (ih hs)
      · rw [pairEnds_cons hlineFeed]
        exact (endsPaired_cons_iff hreturn.symm hlineFeed).mpr (ih hs)

/-- A text is paired exactly if it is the paired form of a text without carriage returns. -/
theorem endsPaired_iff : EndsPaired s ↔ '\r' ∉ bareEnds s ∧ pairEnds (bareEnds s) = s := by
  constructor
  · intro h
    fun_induction bareEnds s with
    | case1 s ih =>
        obtain ⟨hs, hpaired⟩ := ih (endsPaired_pair_iff.mp h)
        exact ⟨by simpa using hs, by simp [hpaired]⟩
    | case2 c s hpair ih =>
        -- a line feed would lack its carriage return, and a carriage return its line feed
        have hlineFeed : c ≠ '\n' := by
          rintro rfl
          simpa using h.before [] s rfl
        have hreturn : c ≠ '\r' := by
          rintro rfl
          have hhead := h.behind [] s rfl
          cases s with
          | nil => cases hhead
          | cons d s => exact hpair s rfl (congrArg (· :: s) (Option.some.inj hhead))
        obtain ⟨hs, hpaired⟩ := ih ((endsPaired_cons_iff hreturn hlineFeed).mp h)
        exact ⟨by simp [hs, hreturn.symm], by rw [pairEnds_cons hlineFeed, hpaired]⟩
    | case3 => simp
  · rintro ⟨hreturn, hpaired⟩
    rw [← hpaired]
    exact endsPaired_pairEnds hreturn

instance (s : List Char) : Decidable (EndsPaired s) :=
  decidable_of_iff _ endsPaired_iff.symm

/-! ### Parts of both forms -/

/-- A word without line ends stands in front of both forms or of none. -/
theorem after?_pairEnds {w : List Char} (hreturn : '\r' ∉ w) (hlineFeed : '\n' ∉ w)
    (s : List Char) :
    Token.after? w (pairEnds s) = (Token.after? w s).map pairEnds := by
  induction w generalizing s with
  | nil => rfl
  | cons d w ih =>
      obtain ⟨hd, hw⟩ := List.ne_and_not_mem_of_not_mem_cons hreturn
      obtain ⟨hd', hw'⟩ := List.ne_and_not_mem_of_not_mem_cons hlineFeed
      cases s with
      | nil => rfl
      | cons c s =>
          by_cases hc : c = '\n'
          · simp [hc, Token.after?, hd.symm, hd'.symm]
          · rw [pairEnds_cons hc, Token.after?, Token.after?, ih hw hw']
            split <;> rfl

/-- A class that takes both characters of a line end or none of them reaches equally far. -/
theorem takeWhile_pairEnds {p : Char → Bool} (hp : p '\r' = p '\n') (s : List Char) :
    (pairEnds s).takeWhile p = pairEnds (s.takeWhile p) := by
  induction s with
  | nil => rfl
  | cons c s ih =>
      by_cases hc : c = '\n'
      · subst hc
        cases hend : p '\n' <;> simp [hp, hend, ih]
      · rw [pairEnds_cons hc, List.takeWhile_cons, List.takeWhile_cons, ih]
        split
        · rw [pairEnds_cons hc]
        · rfl

theorem dropWhile_pairEnds {p : Char → Bool} (hp : p '\r' = p '\n') (s : List Char) :
    (pairEnds s).dropWhile p = pairEnds (s.dropWhile p) := by
  induction s with
  | nil => rfl
  | cons c s ih =>
      by_cases hc : c = '\n'
      · subst hc
        cases hend : p '\n' <;> simp [hp, hend, ih]
      · rw [pairEnds_cons hc, List.dropWhile_cons, List.dropWhile_cons, ih]
        split
        · rfl
        · rw [pairEnds_cons hc]

/-! ### Searching both forms -/

/-- A split of the paired form. -/
def Split.pairEnds (p : Split) : Split :=
  ⟨Text.pairEnds p.before, Text.pairEnds p.lexeme, Text.pairEnds p.rest⟩

/-- An enclosure of the paired form. -/
def Enclosure.pairEnds (e : Enclosure) : Enclosure :=
  ⟨Text.pairEnds e.gap, Text.pairEnds e.opening, Text.pairEnds e.body, Text.pairEnds e.closing⟩

/-- A cut of the paired form. -/
def Cut.pairEnds (c : Cut) : Cut :=
  ⟨c.enclosures.map Enclosure.pairEnds, Text.pairEnds c.tail⟩

/-- A token is recognised alike in both forms of a text and its ends, and not at a line feed. -/
structure Token.SeesBothForms (t : Token) (s : List Char) : Prop where
  lineFeed : ∀ rest, t.scan ('\n' :: rest) = none
  scan : ∀ v, v <:+ s →
    t.scan (Text.pairEnds v) = (t.scan v).map fun p => (Text.pairEnds p.1, Text.pairEnds p.2)

theorem Token.SeesBothForms.of_suffix {t : Token} {v : List Char} (h : t.SeesBothForms s)
    (hsuffix : v <:+ s) : t.SeesBothForms v :=
  ⟨h.lineFeed, fun w hw => h.scan w (hw.trans hsuffix)⟩

/-- **A search finds the same place in both forms.** -/
theorem Token.find_pairEnds {t : Token} (h : t.SeesBothForms s) :
    t.find (Text.pairEnds s) = (t.find s).map Split.pairEnds := by
  induction s with
  | nil => rfl
  | cons c s ih =>
      -- the token is at the front of both forms or of none, and never at a line feed
      have hscan := h.scan (c :: s) (List.suffix_refl _)
      have hothers := ih (h.of_suffix (List.suffix_cons c s))
      cases hfront : t.scan (c :: s) with
      | some p =>
          rw [hfront, Option.map_some] at hscan
          rw [find_cons_of_scan (m := p.1) (r := p.2) hfront]
          by_cases hc : c = '\n'
          · rw [hc] at hfront
            rw [h.lineFeed] at hfront
            cases hfront
          · rw [pairEnds_cons hc] at hscan ⊢
            rw [find_cons_of_scan hscan]
            rfl
      | none =>
          rw [hfront, Option.map_none] at hscan
          rw [find_cons_of_not_at hfront]
          by_cases hc : c = '\n'
          · subst hc
            rw [pairEnds_lineFeed] at hscan ⊢
            rw [find_cons_of_not_at hscan, find_cons_of_not_at (h.lineFeed _), hothers]
            cases t.find s <;> rfl
          · rw [pairEnds_cons hc] at hscan ⊢
            rw [find_cons_of_not_at hscan, hothers]
            cases t.find s with
            | none => rfl
            | some p => simp [Split.pairEnds, pairEnds_cons hc]

variable {opener closer : Token}

private theorem Enclosure.first?_pairEnds (hopener : opener.SeesBothForms s)
    (hcloser : closer.SeesBothForms s) :
    first? opener closer (Text.pairEnds s) =
      (first? opener closer s).map fun p => (p.1.pairEnds, Text.pairEnds p.2) := by
  unfold first?
  rw [Token.find_pairEnds hopener]
  cases hopen : opener.find s with
  | none => rfl
  | some p =>
      have hrest : p.rest <:+ s := by
        have htext := Token.text_of_find hopen
        rw [Split.text] at htext
        exact ⟨_, htext⟩
      simp only [Option.map_some, Split.pairEnds, Token.find_pairEnds (hcloser.of_suffix hrest)]
      cases closer.find p.rest <;> rfl

/-- **Both forms of a text are cut at the same places.** -/
theorem Cut.ofText_pairEnds {s : List Char} (hopener : opener.SeesBothForms s)
    (hcloser : closer.SeesBothForms s) :
    ofText opener closer (Text.pairEnds s) = (ofText opener closer s).pairEnds := by
  have hfirst := Enclosure.first?_pairEnds hopener hcloser
  cases h : Enclosure.first? opener closer s with
  | none =>
      rw [h, Option.map_none] at hfirst
      rw [ofText_of_first?_eq_none hfirst, ofText_of_first?_eq_none h]
      rfl
  | some p =>
      obtain ⟨e, r⟩ := p
      have hr : r <:+ s := ⟨e.text, Enclosure.text_of_first? h⟩
      rw [h, Option.map_some] at hfirst
      rw [ofText_of_first?_eq_some hfirst, ofText_of_first?_eq_some h,
        ofText_pairEnds (hopener.of_suffix hr) (hcloser.of_suffix hr)]
      rfl
termination_by s.length
decreasing_by exact Enclosure.length_of_first? h

private theorem Enclosure.text_pairEnds (e : Enclosure) :
    e.pairEnds.text = Text.pairEnds e.text := by
  simp [Enclosure.text, Enclosure.pairEnds]

theorem Cut.text_pairEnds (c : Cut) : c.pairEnds.text = Text.pairEnds c.text := by
  simp only [Cut.text, Cut.pairEnds, pairEnds_append, pairEnds_flatten, List.map_map]
  refine congrArg (List.flatten · ++ _) (List.map_congr_left fun e _ => ?_)
  exact e.text_pairEnds

end MessageCatalog.Text
