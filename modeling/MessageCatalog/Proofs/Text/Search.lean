import MessageCatalog.Text.Enclosure
import Mathlib.Data.List.Basic

/-!
# Searching a text that goes on

A search looks at the whole text, so what follows a text can change what is found in
it: a lexeme may reach over the end, or one that ended with the text may no longer do
so.  A token is `Settled` in a text before another one when nothing of that kind
happens.  Then a search in both texts together is a search in the first and, where that
fails, one in the second (`find_append_of_find_eq_some`, `find_append_of_not_occursIn`),
and a cut of both together consists of the two cuts, as long as no opening is left in
the tail of the first (`Cut.bodies_append`).
-/

namespace MessageCatalog.Text

/-- Where a mark is the first one of a text, every other place of the mark lies behind it. -/
theorem first_mark_cases {mark : Char} {a b w rest : List Char} (hw : mark ∉ w)
    (h : a ++ mark :: b = w ++ mark :: rest) :
    a = w ∧ rest = b ∨ ∃ extra, a = w ++ mark :: extra ∧ rest = extra ++ mark :: b := by
  rcases List.append_eq_append_iff.mp h with ⟨extra, hfront, hb⟩ | ⟨extra, ha, hrest⟩
  · cases extra with
    | nil => exact .inl ⟨by rw [hfront, List.append_nil], (List.cons.inj hb).2.symm⟩
    | cons c extra =>
        obtain ⟨rfl, -⟩ := List.cons.inj hb
        exact absurd (by simp [hfront]) hw
  · cases extra with
    | nil => exact .inl ⟨by rw [ha, List.append_nil], (List.cons.inj hrest).2⟩
    | cons c extra =>
        obtain ⟨rfl, htail⟩ := List.cons.inj hrest
        exact .inr ⟨extra, ha, htail⟩

namespace Token

variable {t : Token} {a b s : List Char}

/-! ### Occurrences -/

/-- A token stands somewhere in a text. -/
def OccursIn (t : Token) (s : List Char) : Prop :=
  ∃ rest, rest <:+ s ∧ t.At rest

private theorem occursIn_of_find {p : Split} (h : t.find s = some p) : t.OccursIn s := by
  refine ⟨p.lexeme ++ p.rest, ⟨p.before, ?_⟩, ?_⟩
  · rw [← List.append_assoc]
    exact text_of_find h
  · simp [At, scan_of_find h]

theorem occursIn_iff_isSome_find : t.OccursIn s ↔ (t.find s).isSome := by
  constructor
  · rintro ⟨rest, ⟨front, hfront⟩, hat⟩
    by_contra hnone
    exact not_at_of_find_eq_none (by simpa using hnone) hfront hat
  · intro h
    obtain ⟨p, hp⟩ := Option.isSome_iff_exists.mp h
    exact occursIn_of_find hp

instance (t : Token) (s : List Char) : Decidable (t.OccursIn s) :=
  decidable_of_iff _ occursIn_iff_isSome_find.symm

theorem find_eq_none_iff : t.find s = none ↔ ¬ t.OccursIn s := by
  rw [occursIn_iff_isSome_find]
  cases t.find s <;> simp

theorem OccursIn.of_suffix (h : t.OccursIn a) (hsuffix : a <:+ s) : t.OccursIn s := by
  obtain ⟨rest, hrest, hat⟩ := h
  exact ⟨rest, hrest.trans hsuffix, hat⟩

/-- A suffix of two texts together lies in the second or starts in the first. -/
theorem suffix_append_cases {rest : List Char} (h : rest <:+ a ++ b) :
    rest <:+ b ∨ ∃ front, front ≠ [] ∧ front <:+ a ∧ rest = front ++ b := by
  rcases List.suffix_or_suffix_of_suffix h (List.suffix_append a b) with hrest | ⟨front, rfl⟩
  · exact .inl hrest
  · by_cases hnil : front = []
    · exact .inl (by simp [hnil])
    · refine .inr ⟨front, hnil, ?_, rfl⟩
      obtain ⟨lead, hlead⟩ := h
      exact ⟨lead, List.append_cancel_right (by rw [List.append_assoc, hlead])⟩

/-- A search passes over a text in which no occurrence starts. -/
theorem find_append_of_forall_not_at
    (h : ∀ v, v ≠ [] → v <:+ a → ¬ t.At (v ++ b)) :
    t.find (a ++ b) = (t.find b).map fun p => { p with before := a ++ p.before } := by
  induction a with
  | nil => simp
  | cons c a ih =>
      have hscan : t.scan (c :: (a ++ b)) = none := by
        simpa [At] using h (c :: a) (List.cons_ne_nil c a) (List.suffix_refl _)
      rw [List.cons_append, find_cons_of_not_at hscan,
        ih fun v hv hsuffix => h v hv (hsuffix.trans (List.suffix_cons c a)), Option.map_map]
      rfl

theorem find_append_of_scan {m r : List Char}
    (h : ∀ v, v ≠ [] → v <:+ a → ¬ t.At (v ++ b)) (hscan : t.scan b = some (m, r)) :
    t.find (a ++ b) = some ⟨a, m, r⟩ := by
  have hfind : t.find b = some ⟨[], m, r⟩ := by
    cases b with
    | nil => simp [scan_nil] at hscan
    | cons c b => exact find_cons_of_scan hscan
  rw [find_append_of_forall_not_at h, hfind]
  simp

/-! ### Texts in which a token is settled -/

/-- What stands at the places of a text is not affected by the text that follows it. -/
def Settled (t : Token) (a b : List Char) : Prop :=
  ∀ v, v ≠ [] → v <:+ a → t.scan (v ++ b) = (t.scan v).map fun p => (p.1, p.2 ++ b)

theorem Settled.of_suffix {v : List Char} (h : t.Settled a b) (hsuffix : v <:+ a) :
    t.Settled v b :=
  fun w hw hwv => h w hw (hwv.trans hsuffix)

theorem find_append_of_find_eq_some (hsettled : t.Settled a b) {p : Split}
    (h : t.find a = some p) : t.find (a ++ b) = some { p with rest := p.rest ++ b } := by
  induction a generalizing p with
  | nil => simp [find_nil] at h
  | cons c a ih =>
      -- the front is settled: a token stands there with or without what follows
      have hscan := hsettled (c :: a) (List.cons_ne_nil c a) (List.suffix_refl _)
      rw [List.cons_append] at hscan ⊢
      cases hfront : t.scan (c :: a) with
      | some q =>
          rw [find_cons_of_scan (m := q.1) (r := q.2) hfront] at h
          cases h
          rw [hfront] at hscan
          exact find_cons_of_scan hscan
      | none =>
          rw [hfront] at hscan
          rw [find_cons_of_not_at hfront] at h
          obtain ⟨q, hq, rfl⟩ := Option.map_eq_some_iff.mp h
          have hrest := ih (hsettled.of_suffix (List.suffix_cons c a)) hq
          rw [find_cons_of_not_at hscan, hrest]
          rfl

theorem find_append_of_not_occursIn (hsettled : t.Settled a b) (h : ¬ t.OccursIn a) :
    t.find (a ++ b) = (t.find b).map fun p => { p with before := a ++ p.before } := by
  refine find_append_of_forall_not_at fun v hv hsuffix hat => h ⟨v, hsuffix, ?_⟩
  simpa [At, hsettled v hv hsuffix] using hat

end Token

/-! ### Cuts -/

namespace Cut

variable {opener closer : Token} {a b s : List Char}

theorem tail_suffix (opener closer : Token) (s : List Char) :
    (ofText opener closer s).tail <:+ s :=
  ⟨_, text_ofText opener closer s⟩

@[simp] theorem bodies_ofText_of_first?_eq_none
    (h : Enclosure.first? opener closer s = none) : (ofText opener closer s).bodies = [] := by
  rw [ofText_of_first?_eq_none h]
  rfl

theorem bodies_ofText_of_first?_eq_some {e : Enclosure} {r : List Char}
    (h : Enclosure.first? opener closer s = some (e, r)) :
    (ofText opener closer s).bodies = e.body :: (ofText opener closer r).bodies := by
  rw [ofText_of_first?_eq_some h]
  rfl

/-- The first enclosure of a text, from where its opening and its closing are found. -/
theorem first?_of_find {p q : Split} (hopen : opener.find s = some p)
    (hclose : closer.find p.rest = some q) :
    Enclosure.first? opener closer s =
      some (⟨p.before, p.lexeme, q.before, q.lexeme⟩, q.rest) := by
  simp [Enclosure.first?, hopen, hclose]

private theorem first?_tail (opener closer : Token) (s : List Char) :
    Enclosure.first? opener closer (ofText opener closer s).tail = none := by
  cases h : Enclosure.first? opener closer s with
  | none => rwa [ofText_of_first?_eq_none h]
  | some p =>
      rw [ofText_of_first?_eq_some h]
      exact first?_tail opener closer p.2
termination_by s.length
decreasing_by exact Enclosure.length_of_first? h

/-- Where every opening is followed by a closing, nothing is left open. -/
theorem not_occursIn_tail
    (h : ∀ v m r, v <:+ s → opener.scan v = some (m, r) → closer.OccursIn r) :
    ¬ opener.OccursIn (ofText opener closer s).tail := by
  intro hopen
  obtain ⟨p, hp⟩ := Option.isSome_iff_exists.mp (Token.occursIn_iff_isSome_find.mp hopen)
  have hsuffix : p.lexeme ++ p.rest <:+ s := by
    have htext := Token.text_of_find hp
    rw [Split.text, List.append_assoc] at htext
    exact List.IsSuffix.trans ⟨p.before, htext⟩ (tail_suffix opener closer s)
  have hclose := h _ _ _ hsuffix (Token.scan_of_find hp)
  obtain ⟨q, hq⟩ := Option.isSome_iff_exists.mp (Token.occursIn_iff_isSome_find.mp hclose)
  have hnone := first?_tail opener closer s
  rw [first?_of_find hp hq] at hnone
  cases hnone

theorem bodies_ofText_of_not_occursIn (h : ¬ opener.OccursIn s) :
    (ofText opener closer s).bodies = [] := by
  apply bodies_ofText_of_first?_eq_none
  simp [Enclosure.first?, Token.find_eq_none_iff.mpr h]

theorem bodies_append_of_not_occursIn (closer : Token) (hsettled : opener.Settled a b)
    (h : ¬ opener.OccursIn a) :
    (ofText opener closer (a ++ b)).bodies = (ofText opener closer b).bodies := by
  have hfind := Token.find_append_of_not_occursIn hsettled h
  cases hopen : opener.find b with
  | none =>
      rw [hopen] at hfind
      rw [bodies_ofText_of_not_occursIn (Token.find_eq_none_iff.mp hfind),
        bodies_ofText_of_not_occursIn (Token.find_eq_none_iff.mp hopen)]
  | some p =>
      rw [hopen, Option.map_some] at hfind
      cases hclose : closer.find p.rest with
      | none =>
          rw [bodies_ofText_of_first?_eq_none (by simp [Enclosure.first?, hfind, hclose]),
            bodies_ofText_of_first?_eq_none (by simp [Enclosure.first?, hopen, hclose])]
      | some q =>
          rw [bodies_ofText_of_first?_eq_some (first?_of_find hfind hclose),
            bodies_ofText_of_first?_eq_some (first?_of_find hopen hclose)]

/-- The enclosures of a text stay where they are when it goes on, if it leaves nothing open and what
stands in it is settled.  Behind them come enclosures with the bodies of the second text. -/
theorem exists_enclosures_append {a : List Char} (hopener : opener.Settled a b)
    (hcloser : closer.Settled a b) (htail : ¬ opener.OccursIn (ofText opener closer a).tail) :
    ∃ others, (ofText opener closer (a ++ b)).enclosures =
        (ofText opener closer a).enclosures ++ others ∧
      others.map Enclosure.body = (ofText opener closer b).bodies := by
  cases h : Enclosure.first? opener closer a with
  | none =>
      rw [ofText_of_first?_eq_none h] at htail ⊢
      exact ⟨_, rfl, bodies_append_of_not_occursIn closer hopener htail⟩
  | some p =>
      obtain ⟨e, r⟩ := p
      rw [ofText_of_first?_eq_some h] at htail
      obtain ⟨hopen, hclose⟩ := Enclosure.first?_eq_some h
      have hr : r <:+ a := ⟨e.text, Enclosure.text_of_first? h⟩
      have hrest : e.body ++ e.closing ++ r <:+ a := by
        have htext := Enclosure.text_of_first? h
        simp only [Enclosure.text, List.append_assoc] at htext
        exact ⟨e.gap ++ e.opening, by simpa using htext⟩
      -- both lexemes of the first enclosure stay where they are
      have hfirst : Enclosure.first? opener closer (a ++ b) = some (e, r ++ b) :=
        first?_of_find (Token.find_append_of_find_eq_some hopener hopen)
          (Token.find_append_of_find_eq_some (hcloser.of_suffix hrest) hclose)
      obtain ⟨others, henclosures, hbodies⟩ :=
        exists_enclosures_append (hopener.of_suffix hr) (hcloser.of_suffix hr) htail
      refine ⟨others, ?_, hbodies⟩
      rw [ofText_of_first?_eq_some hfirst, ofText_of_first?_eq_some h, henclosures,
        List.cons_append]
termination_by a.length
decreasing_by exact Enclosure.length_of_first? h

/-- The bodies of two texts together are those of the first and those of the second, if the
first leaves nothing open and what stands in it is settled. -/
theorem bodies_append {a : List Char} (hopener : opener.Settled a b)
    (hcloser : closer.Settled a b) (htail : ¬ opener.OccursIn (ofText opener closer a).tail) :
    (ofText opener closer (a ++ b)).bodies =
      (ofText opener closer a).bodies ++ (ofText opener closer b).bodies := by
  obtain ⟨others, henclosures, hbodies⟩ := exists_enclosures_append hopener hcloser htail
  rw [bodies, henclosures, List.map_append, hbodies]
  rfl

end Cut

end MessageCatalog.Text
