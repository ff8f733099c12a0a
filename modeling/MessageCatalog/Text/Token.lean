/-!
# Tokens and where they first occur

A `Token` recognises one kind of lexeme at the front of a text.  Its two laws
say that a lexeme is never empty and that nothing is lost: the lexeme and the
rest make up the text again.

`Token.find` looks for the first position at which a token stands and splits
the text there.  No occurrence starts inside the first part of the split
(`not_at_of_find`), and where there is no split no suffix of the text starts with
the token (`not_at_of_find_eq_none`).
-/

namespace MessageCatalog.Text

/-- A kind of lexeme, given by the function that takes one off the front. -/
structure Token where
  /-- The lexeme at the front of a text and the rest after it. -/
  scan : List Char → Option (List Char × List Char)
  append_eq : ∀ {s m r}, scan s = some (m, r) → m ++ r = s
  ne_nil : ∀ {s m r}, scan s = some (m, r) → m ≠ []

/-- A text cut around one lexeme. -/
structure Split where
  before : List Char
  lexeme : List Char
  rest : List Char
  deriving DecidableEq, Repr

namespace Split

/-- The text that was cut. -/
def text (p : Split) : List Char :=
  p.before ++ p.lexeme ++ p.rest

end Split

namespace Token

/-- The search of `find`, with the characters passed so far in reverse. -/
def findFrom (t : Token) (passed : List Char) : List Char → Option Split
  | [] => none
  | c :: s =>
    match t.scan (c :: s) with
    | some (m, r) => some ⟨passed.reverse, m, r⟩
    | none => findFrom t (c :: passed) s

/-- The split of a text at the first occurrence of a token. -/
def find (t : Token) (s : List Char) : Option Split :=
  t.findFrom [] s

/-- The token stands at the front of the text. -/
def At (t : Token) (s : List Char) : Prop :=
  (t.scan s).isSome

instance (t : Token) (s : List Char) : Decidable (t.At s) :=
  inferInstanceAs (Decidable ((t.scan s).isSome = true))

theorem scan_nil (t : Token) : t.scan [] = none := by
  cases h : t.scan [] with
  | none => rfl
  | some p =>
    obtain ⟨m, r⟩ := p
    have happ := t.append_eq h
    exact absurd (List.append_eq_nil_iff.mp happ).1 (t.ne_nil h)

theorem findFrom_eq (t : Token) (s : List Char) :
    ∀ passed, t.findFrom passed s =
      (t.find s).map fun p => { p with before := passed.reverse ++ p.before } := by
  induction s with
  | nil => intro passed; rfl
  | cons c s ih =>
    intro passed
    simp only [find, findFrom]
    cases h : t.scan (c :: s) with
    | some p => simp
    | none =>
      simp only [ih (c :: passed), ih [c], Option.map_map]
      cases t.find s <;> simp

theorem find_nil (t : Token) : t.find [] = none := rfl

theorem find_cons_of_scan {t : Token} {c : Char} {s m r : List Char}
    (h : t.scan (c :: s) = some (m, r)) : t.find (c :: s) = some ⟨[], m, r⟩ := by
  simp [find, findFrom, h]

theorem find_cons_of_not_at {t : Token} {c : Char} {s : List Char}
    (h : t.scan (c :: s) = none) :
    t.find (c :: s) = (t.find s).map fun p => { p with before := c :: p.before } := by
  simp only [find, findFrom, h]
  rw [findFrom_eq]
  simp [find]

/-- A search cuts the text without losing any of it. -/
theorem text_of_find {t : Token} {s : List Char} {p : Split} (h : t.find s = some p) :
    p.text = s := by
  induction s generalizing p with
  | nil => simp [find_nil] at h
  | cons c s ih =>
    cases hscan : t.scan (c :: s) with
    | some q =>
      obtain ⟨m, r⟩ := q
      rw [find_cons_of_scan hscan] at h
      cases h
      simpa [Split.text] using t.append_eq hscan
    | none =>
      rw [find_cons_of_not_at hscan] at h
      obtain ⟨q, hq, rfl⟩ := Option.map_eq_some_iff.mp h
      have := ih hq
      simp_all [Split.text]

/-- The lexeme that a search finds stands in front of what follows the first part. -/
theorem scan_of_find {t : Token} {s : List Char} {p : Split} (h : t.find s = some p) :
    t.scan (p.lexeme ++ p.rest) = some (p.lexeme, p.rest) := by
  induction s generalizing p with
  | nil => simp [find_nil] at h
  | cons c s ih =>
    cases hscan : t.scan (c :: s) with
    | some q =>
      obtain ⟨m, r⟩ := q
      rw [find_cons_of_scan hscan] at h
      cases h
      simpa [t.append_eq hscan] using hscan
    | none =>
      rw [find_cons_of_not_at hscan] at h
      obtain ⟨q, hq, rfl⟩ := Option.map_eq_some_iff.mp h
      exact ih (p := q) hq

/-- No occurrence starts inside the first part. -/
theorem not_at_of_find {t : Token} {s : List Char} {p : Split} (h : t.find s = some p)
    {u v : List Char} (huv : u ++ v = p.before) (hv : v ≠ []) :
    ¬ t.At (v ++ p.lexeme ++ p.rest) := by
  induction s generalizing p u with
  | nil => simp [find_nil] at h
  | cons c s ih =>
    cases hscan : t.scan (c :: s) with
    | some q =>
      obtain ⟨m, r⟩ := q
      rw [find_cons_of_scan hscan] at h
      cases h
      exact absurd (List.append_eq_nil_iff.mp huv).2 hv
    | none =>
      have htext := text_of_find h
      rw [find_cons_of_not_at hscan] at h
      obtain ⟨q, hq, rfl⟩ := Option.map_eq_some_iff.mp h
      cases u with
      | nil =>
        simp only [List.nil_append] at huv
        subst huv
        have hnone : t.scan (c :: q.before ++ q.lexeme ++ q.rest) = none := by
          rw [show c :: q.before ++ q.lexeme ++ q.rest = c :: s from htext, hscan]
        simp only [At, hnone, Option.isSome_none, Bool.false_eq_true, not_false_eq_true]
      | cons d u =>
        simp only [List.cons_append, List.cons.injEq] at huv
        exact ih (p := q) hq huv.2

/-- A failed search means that the token stands nowhere. -/
theorem not_at_of_find_eq_none {t : Token} {s : List Char} (h : t.find s = none)
    {u v : List Char} (huv : u ++ v = s) : ¬ t.At v := by
  induction s generalizing u with
  | nil =>
    obtain ⟨-, rfl⟩ := List.append_eq_nil_iff.mp huv
    simp [At, scan_nil]
  | cons c s ih =>
    cases hscan : t.scan (c :: s) with
    | some q =>
      rw [find_cons_of_scan (m := q.1) (r := q.2) hscan] at h
      cases h
    | none =>
      rw [find_cons_of_not_at hscan] at h
      cases u with
      | nil =>
        simp only [List.nil_append] at huv
        subst huv
        simp only [At, hscan, Option.isSome_none, Bool.false_eq_true, not_false_eq_true]
      | cons d u =>
        simp only [List.cons_append, List.cons.injEq] at huv
        exact ih (Option.map_eq_none_iff.mp h) huv.2

theorem lexeme_ne_nil_of_find {t : Token} {s : List Char} {p : Split} (h : t.find s = some p) :
    p.lexeme ≠ [] :=
  t.ne_nil (scan_of_find h)

/-- What is left after a search is shorter than the text. -/
theorem length_rest_of_find {t : Token} {s : List Char} {p : Split} (h : t.find s = some p) :
    p.rest.length < s.length := by
  have htext := text_of_find h
  have hpos := List.length_pos_iff.mpr (lexeme_ne_nil_of_find h)
  rw [← htext]
  simp only [Split.text, List.length_append]
  omega

/-! ### A fixed word -/

/-- The text after a word that stands at its front. -/
def after? (w s : List Char) : Option (List Char) :=
  match w, s with
  | [], s => some s
  | _ :: _, [] => none
  | a :: w, c :: s => if a = c then after? w s else none

theorem after?_eq_some_iff {w s r : List Char} : after? w s = some r ↔ s = w ++ r := by
  fun_induction after? w s with
  | case1 s => simp [eq_comm]
  | case2 a w => simp
  | case3 w c s ih => simp [ih]
  | case4 a w c s hne =>
    simp only [reduceCtorEq, List.cons_append, List.cons.injEq, false_iff, not_and]
    exact fun h => absurd h.symm hne

/-- The token whose only lexeme is a given word. -/
def word (w : List Char) (hne : w ≠ []) : Token where
  scan s := (after? w s).map fun r => (w, r)
  append_eq h := by
    obtain ⟨r, hr, heq⟩ := Option.map_eq_some_iff.mp h
    cases heq
    exact (after?_eq_some_iff.mp hr).symm
  ne_nil h := by
    obtain ⟨r, hr, heq⟩ := Option.map_eq_some_iff.mp h
    cases heq
    exact hne

theorem word_scan_eq_some_iff {w s m r : List Char} {hne : w ≠ []} :
    (word w hne).scan s = some (m, r) ↔ m = w ∧ s = w ++ r := by
  simp only [word, Option.map_eq_some_iff, after?_eq_some_iff, Prod.mk.injEq]
  constructor
  · rintro ⟨r', rfl, rfl, rfl⟩
    exact ⟨rfl, rfl⟩
  · rintro ⟨rfl, rfl⟩
    exact ⟨r, rfl, rfl, rfl⟩

end Token

end MessageCatalog.Text
