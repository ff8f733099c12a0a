import MessageCatalog.Proofs.Call.Grammar
import MessageCatalog.Proofs.Call.Joining

/-!
# Literals written in fragments

A call is written with a literal whose fragments are added together, `t("Save " + "all")`.  In a
fragment every quote is escaped, but a call is found and joined by its spelling alone, and an escape
means nothing there.  So an escaped quote closes the call when a parenthesis follows it, the quote
between two fragments does when the second fragment starts with one, and an escaped quote starts a
split marker when only a plus sign follows it in its fragment.

Where none of this happens the call is read as the one literal that it is written with, and only
there (`literals_eq_singleton_iff`).
-/

namespace MessageCatalog.Call

open Text

/-! ### The written form -/

/-- A unit of a fragment: a character that means itself, or a backslash with the character it
escapes. -/
inductive LiteralUnit where
  | plain (c : Char) (hquote : c ≠ '"') (hbackslash : c ≠ '\\')
  | escape (c : Char)

def LiteralUnit.text : LiteralUnit → List Char
  | .plain c _ _ => [c]
  | .escape c => ['\\', c]

/-- What stands between the quotes of a fragment. -/
def fragmentText (units : List LiteralUnit) : List Char :=
  units.flatMap LiteralUnit.text

/-- A further fragment with the plus sign in front of it. -/
structure Continuation where
  joint : Joint
  units : List LiteralUnit

/-- What stands between the first and the last quote of a literal. -/
def splitLiteral (first : List LiteralUnit) : List Continuation → List Char
  | [] => fragmentText first
  | k :: ks => fragmentText first ++ '"' :: (k.joint.text ++ '"' :: splitLiteral k.units ks)

/-- The fragments of a literal put together. -/
def wholeLiteral (first : List LiteralUnit) (ks : List Continuation) : List Char :=
  fragmentText first ++ ks.flatMap fun k => fragmentText k.units

/-- The call with a literal. -/
def callText (name : FunctionName) (first : List LiteralUnit) (ks : List Continuation) :
    List Char :=
  openingWord name ++ splitLiteral first ks ++ closingWord

/-- The fragments of a literal in their order. -/
def fragments (first : List LiteralUnit) (ks : List Continuation) : List (List Char) :=
  fragmentText first :: ks.map fun k => fragmentText k.units

variable {name : FunctionName} {first : List LiteralUnit} {k : Continuation}
  {ks : List Continuation}

theorem wholeLiteral_cons :
    wholeLiteral first (k :: ks) = fragmentText first ++ wholeLiteral k.units ks := by
  simp [wholeLiteral]

theorem fragments_cons :
    fragments first (k :: ks) = fragmentText first :: fragments k.units ks := rfl

/-! ### Quotes in fragments -/

theorem fragmentText_cons (unit : LiteralUnit) (units : List LiteralUnit) :
    fragmentText (unit :: units) = unit.text ++ fragmentText units := List.flatMap_cons

theorem quotesEscaped_fragmentText (units : List LiteralUnit) :
    QuotesEscaped (fragmentText units) := by
  intro u v huv
  induction units generalizing u with
  | nil => simp [fragmentText] at huv
  | cons unit units ih =>
      have hlast : ∀ front w : List Char, w.getLast? = some '\\' →
          (front ++ w).getLast? = some '\\' := by
        intro front w hw
        rw [List.getLast?_append, hw]
        rfl
      rw [fragmentText_cons] at huv
      -- the quote is no plain unit: this unit escapes it, or it lies in the units behind
      cases unit with
      | plain c hquote hbackslash =>
          cases u with
          | nil => exact absurd (List.cons.inj huv).1 hquote
          | cons d u => exact hlast [d] u (ih u (List.cons.inj huv).2)
      | escape c =>
          rcases u with - | ⟨d, - | ⟨e, u⟩⟩
          · exact absurd (List.cons.inj huv).1 (by decide)
          · rw [← (List.cons.inj huv).1]
            rfl
          · exact hlast [d, e] u (ih u (List.cons.inj (List.cons.inj huv).2).2)

private theorem wholeLiteral_eq_fragmentText :
    wholeLiteral first ks = fragmentText (first ++ ks.flatMap Continuation.units) := by
  rw [wholeLiteral, fragmentText, fragmentText, List.flatMap_append, List.flatMap_assoc]
  rfl

private theorem head?_wholeLiteral_ne : (wholeLiteral first ks).head? ≠ some '"' := by
  rw [wholeLiteral_eq_fragmentText]
  exact (quotesEscaped_fragmentText _).head?_ne

/-! ### Closings in a literal -/

theorem closing_isInfix_cons_iff {c : Char} {s : List Char} :
    closingWord <:+: c :: s ↔ (c = '"' ∧ s.head? = some ')') ∨ closingWord <:+: s := by
  rw [List.infix_cons_iff, closingWord, List.cons_prefix_cons, eq_comm, List.head?_eq_some_iff]
  exact or_congr_left (and_congr_right fun _ => exists_congr fun _ => eq_comm)

private theorem closing_isInfix_append_iff {a s : List Char} (h : '"' ∉ a) :
    closingWord <:+: a ++ s ↔ closingWord <:+: s := by
  induction a with
  | nil => rfl
  | cons c a ih =>
      have hc : c ≠ '"' := fun hc => h (hc ▸ List.mem_cons_self)
      rw [List.cons_append, closing_isInfix_cons_iff, ih fun ha => h (List.mem_cons_of_mem c ha)]
      simp [hc]

private theorem closing_isInfix_append_quote_iff {a s : List Char} :
    closingWord <:+: a ++ '"' :: s ↔ closingWord <:+: a ∨ closingWord <:+: '"' :: s := by
  induction a with
  | nil => simp [closingWord]
  | cons c a ih =>
      have hhead : (a ++ '"' :: s).head? = some ')' ↔ a.head? = some ')' := by
        cases a <;> simp
      rw [List.cons_append, closing_isInfix_cons_iff, ih, hhead, ← or_assoc,
        ← closing_isInfix_cons_iff]

private theorem head?_splitLiteral_eq_paren_iff :
    (splitLiteral first ks).head? = some ')' ↔ (fragmentText first).head? = some ')' := by
  cases ks with
  | nil => rfl
  | cons k ks => cases h : fragmentText first <;> simp [splitLiteral, h]

/-- A literal holds a closing if one of its fragments does or a later one starts with its
parenthesis. -/
private theorem closing_isInfix_splitLiteral_iff :
    closingWord <:+: splitLiteral first ks ↔
      (∃ s ∈ fragments first ks, closingWord <:+: s) ∨
        ∃ k ∈ ks, (fragmentText k.units).head? = some ')' := by
  induction ks generalizing first with
  | nil => simp [splitLiteral, fragments]
  | cons k ks ih =>
      have hjoint : (k.joint.text ++ '"' :: splitLiteral k.units ks).head? ≠ some ')' := by
        rw [List.head?_append_of_ne_nil _ k.joint.text_ne_nil]
        exact fun h => Joint.notMem_text (by decide) (by decide) k.joint (List.mem_of_head? h)
      have hbehind : closingWord <:+: '"' :: (k.joint.text ++ '"' :: splitLiteral k.units ks) ↔
          (fragmentText k.units).head? = some ')' ∨ closingWord <:+: splitLiteral k.units ks := by
        rw [closing_isInfix_cons_iff, closing_isInfix_append_iff k.joint.quote_notMem,
          closing_isInfix_cons_iff, head?_splitLiteral_eq_paren_iff]
        simp only [hjoint, and_false, false_or, true_and]
      rw [splitLiteral, closing_isInfix_append_quote_iff, hbehind, ih, fragments_cons]
      simp only [List.mem_cons, exists_eq_or_imp, or_assoc, or_left_comm]

/-! ### Joining a literal -/

private theorem not_closing_isPrefix_half (j : Joint) (t : List Char) :
    ¬ closingWord <+: '"' :: (j.text ++ t) := by
  rintro ⟨u, hu⟩
  have hhead : (j.text ++ t).head? = some ')' := by
    rw [← (List.cons.inj hu).2]
    rfl
  rw [List.head?_append_of_ne_nil _ j.text_ne_nil] at hhead
  exact Joint.notMem_text (by decide) (by decide) j (List.mem_of_head? hhead)

/-- A text that holds a quote is cut in front of it or behind it. -/
theorem cut_at_quote_cases {a c d s : List Char} (h : c ++ d = a ++ '"' :: s) :
    (∃ m, a = c ++ m ∧ d = m ++ '"' :: s) ∨ ∃ m, c = a ++ '"' :: m ∧ m ++ d = s := by
  rcases List.append_eq_append_iff.mp h with hfront | ⟨m, rfl, hm⟩
  · exact .inl hfront
  · cases m with
    | nil => exact .inl ⟨[], by simp, hm.symm⟩
    | cons e m =>
        obtain ⟨rfl, hbehind⟩ := List.cons.inj hm
        exact .inr ⟨m, rfl, hbehind.symm⟩

/-- What is cut at a closing goes over a joint to the quote behind it. -/
private theorem cut_behind_joint {j : Joint} {c d s : List Char} (h : c ++ d = j.text ++ '"' :: s)
    (hd : d = [] ∨ closingWord <+: d) :
    (c = j.text ∧ d = '"' :: s) ∨ ∃ m, c = j.text ++ '"' :: m ∧ m ++ d = s := by
  rcases cut_at_quote_cases h with ⟨m, hjoint, rfl⟩ | hbehind
  · cases m with
    | nil => exact .inl ⟨by rw [hjoint, List.append_nil], rfl⟩
    | cons e m =>
        obtain ⟨u, hu⟩ := hd.resolve_left (List.cons_ne_nil _ _)
        obtain ⟨rfl, -⟩ := List.cons.inj hu
        exact absurd (by rw [hjoint]; simp) j.quote_notMem
  · exact .inr hbehind

/-- **The front of a literal, cut at a closing or at the end, is joined to the whole literal exactly
if nothing is cut off and no fragment but the last ends in half a marker.** -/
theorem joinFragments_eq_wholeLiteral_iff {c d : List Char} (h : c ++ d = splitLiteral first ks)
    (hd : d = [] ∨ closingWord <+: d) :
    joinFragments c = wholeLiteral first ks ↔
      d = [] ∧ ∀ s ∈ (fragments first ks).dropLast, ¬ EndsInHalfMarker s := by
  -- induction on the continuations: the cut is compared with the first joint, and what lies
  -- behind the joint is cut in the same place
  induction ks generalizing first c with
  | nil =>
      have hc : QuotesEscaped c := (quotesEscaped_fragmentText first).of_isPrefix ⟨d, h⟩
      rw [hc.joinFragments_eq, wholeLiteral, ← show c ++ d = fragmentText first from h]
      simp [fragments]
  | cons k ks ih =>
      have hfirst := quotesEscaped_fragmentText first
      have hdropLast : (fragments first (k :: ks)).dropLast =
          fragmentText first :: (fragments k.units ks).dropLast := rfl
      rw [splitLiteral] at h
      rw [wholeLiteral_cons, hdropLast, List.forall_mem_cons]
      rcases cut_at_quote_cases h with ⟨m, hm, rfl⟩ | ⟨m, rfl, hm⟩
      · -- the cut lies in the first fragment or right behind it
        refine iff_of_false ?_ (by simp)
        rw [(hfirst.of_isPrefix ⟨m, hm.symm⟩).joinFragments_eq, hm, List.append_assoc,
          List.self_eq_append_right, List.append_eq_nil_iff]
        rintro ⟨rfl, -⟩
        exact not_closing_isPrefix_half _ _ (hd.resolve_left (List.cons_ne_nil _ _))
      by_cases hhalf : EndsInHalfMarker (fragmentText first)
      · -- the quote behind the first fragment ends a split marker
        refine iff_of_false ?_ fun hall => hall.2.1 hhalf
        rcases cut_behind_joint hm hd with ⟨rfl, -⟩ | ⟨m, rfl, -⟩
        · simpa using hfirst.joinFragments_ne_of_endsInHalfMarker hhalf k.joint [] _
        · exact hfirst.joinFragments_ne_of_endsInHalfMarker hhalf k.joint _ _
      rw [hfirst.joinFragments_append_quote hhalf, List.append_cancel_left_eq]
      rcases cut_behind_joint hm hd with ⟨rfl, rfl⟩ | ⟨m, rfl, hbehind⟩
      · -- the cut lies at the quote in front of the next fragment
        refine iff_of_false ?_ (by simp)
        rw [joinFragments_half]
        intro heq
        exact head?_wholeLiteral_ne (by rw [← heq]; rfl)
      · rw [joinFragments_marker, ih hbehind]
        simp [hhalf]

/-! ### Reading the call -/

private theorem literals_callText_of_not_closing (h : ¬ closingWord <:+: splitLiteral first ks) :
    literals name (String.ofList (callText name first ks)) =
      [String.ofList (joinFragments (splitLiteral first ks))] := by
  have hfinds : (Reading.mk [⟨[], splitLiteral first ks⟩] []).FindsCalls name := by
    refine Reading.findsCalls_cons_iff.mpr ⟨?_, h, Reading.findsCalls_nil_iff.mpr ?_⟩
    · intro u v huv
      have hlength := congrArg List.length huv
      simp only [List.length_append, List.length_nil] at hlength
      exact List.eq_nil_of_length_eq_zero (by omega)
    · intro u v huv
      simp [openingWord] at huv
  exact hfinds.literals_eq (by simp [Reading.text, callText])

/-- If one literal is read, then from the front of the one written, up to its end or to a
closing. -/
private theorem exists_cut_of_literals_callText_eq {s : List Char}
    (h : literals name (String.ofList (callText name first ks)) = [String.ofList s]) :
    ∃ c d, c ++ d = splitLiteral first ks ∧ (d = [] ∨ closingWord <+: d) ∧
      ¬ closingWord <:+: c ∧ joinFragments c = s := by
  obtain ⟨⟨sites, rest⟩, htext, hfinds⟩ :=
    Reading.exists_findsCalls name (callText name first ks)
  rw [hfinds.literals_eq (by rw [htext, String.toList_ofList])] at h
  obtain ⟨⟨gap, c⟩, rfl, hjoined⟩ := List.map_eq_singleton_iff.mp h
  -- the text starts with the opening of the call, so that no gap stands in front of the site
  have hgap : gap = [] := by
    have hopening : openingWord name <+: callText name first ks := by
      rw [callText, List.append_assoc]
      exact List.prefix_append _ _
    have hsite : gap ++ openingWord name <+: callText name first ks := by
      rw [← htext]
      simp [Reading.text]
    obtain ⟨v, hv⟩ := List.prefix_of_prefix_length_le hopening hsite (by simp)
    exact (hfinds.gap ⟨gap, c⟩ List.mem_cons_self [] v hv.symm).symm
  have hcut : c ++ (closingWord ++ rest) = splitLiteral first ks ++ closingWord := by
    simpa [Reading.text, callText, hgap] using htext
  have hc : ¬ closingWord <:+: c := hfinds.argument ⟨gap, c⟩ List.mem_cons_self
  have hs : joinFragments c = s := String.ofList_injective hjoined
  rw [closingWord, List.cons_append] at hcut
  -- the site is closed where the call is, or earlier within the literal
  rcases cut_at_quote_cases hcut.symm with ⟨m, hm, hbehind⟩ | ⟨m, hm, hbehind⟩
  · have hlength := congrArg List.length hbehind
    simp only [List.length_append, List.length_cons, List.length_nil] at hlength
    have hnil : m = [] := List.eq_nil_of_length_eq_zero (by omega)
    exact ⟨c, [], by rw [hm, hnil, List.append_nil, List.append_nil], .inl rfl, hc, hs⟩
  · refine ⟨c, '"' :: m, hm.symm, .inr ?_, hc, hs⟩
    cases m with
    | nil => exact absurd (List.cons.inj hbehind).1 (by decide)
    | cons e m =>
        rw [(List.cons.inj hbehind).1]
        exact ⟨m, rfl⟩

/-- **The call with a literal is read as the whole literal exactly if no fragment holds a closing,
no fragment but the first starts with a parenthesis, and no fragment but the last ends in half a
split marker.** -/
theorem literals_eq_singleton_iff (name : FunctionName) (first : List LiteralUnit)
    (ks : List Continuation) :
    literals name (String.ofList (callText name first ks)) =
        [String.ofList (wholeLiteral first ks)] ↔
      (∀ s ∈ fragments first ks, ¬ closingWord <:+: s) ∧
        (∀ k ∈ ks, (fragmentText k.units).head? ≠ some ')') ∧
        ∀ s ∈ (fragments first ks).dropLast, ¬ EndsInHalfMarker s := by
  have hclosing : ¬ closingWord <:+: splitLiteral first ks ↔
      (∀ s ∈ fragments first ks, ¬ closingWord <:+: s) ∧
        ∀ k ∈ ks, (fragmentText k.units).head? ≠ some ')' := by
    rw [closing_isInfix_splitLiteral_iff, not_or]
    simp only [not_exists, not_and, ne_eq]
  rw [← and_assoc, ← hclosing]
  constructor
  · intro h
    obtain ⟨c, d, hsplit, hd, hc, hjoined⟩ := exists_cut_of_literals_callText_eq h
    obtain ⟨rfl, hhalf⟩ := (joinFragments_eq_wholeLiteral_iff hsplit hd).mp hjoined
    rw [List.append_nil] at hsplit
    exact ⟨hsplit ▸ hc, hhalf⟩
  · rintro ⟨hc, hhalf⟩
    rw [literals_callText_of_not_closing hc,
      (joinFragments_eq_wholeLiteral_iff (List.append_nil _) (.inl rfl)).mpr ⟨rfl, hhalf⟩]

/-! ### Literals that are cut or garbled -/

/-- The name `_`. -/
def underscore : FunctionName :=
  ⟨['_'], by simp, fun c hc => by rw [List.mem_singleton.mp hc]; decide⟩

/-- A quote that is escaped in front of a parenthesis closes the call `_("a\")")`. -/
theorem literals_of_escaped_quote_before_paren :
    literals underscore (String.ofList (callText underscore
        [.plain 'a' (by decide) (by decide), .escape '"', .plain ')' (by decide) (by decide)] [])) =
      ["a\\"] ∧
    ["a\\"] ≠ [String.ofList (wholeLiteral
        [.plain 'a' (by decide) (by decide), .escape '"', .plain ')' (by decide) (by decide)]
        [])] := by
  decide +kernel

/-- A quote that is escaped in front of a plus sign at the end of a fragment is lost, as in
`_("a\" +" + "b")`. -/
example :
    literals underscore (String.ofList (callText underscore
        [.plain 'a' (by decide) (by decide), .escape '"', .plain ' ' (by decide) (by decide),
          .plain '+' (by decide) (by decide)]
        [⟨⟨[' '], [' '], rfl, rfl⟩, [.plain 'b' (by decide) (by decide)]⟩])) =
      ["a\\ + \"b"] := by
  decide +kernel

end MessageCatalog.Call
