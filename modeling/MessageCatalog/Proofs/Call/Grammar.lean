import MessageCatalog.Call.Basic
import MessageCatalog.Proofs.Text.Leftmost

/-!
# The calls in a source text

The calls of a function are told without a search.  A source text is read as calls with gaps in
front of them and a rest (`Reading`).  The reading finds every call (`Reading.FindsCalls`) if no gap
holds an opening, no argument holds a closing, and behind no opening of the rest there is a closing.

Every source text has exactly one such reading, and the literals of the text are the arguments of
its calls with their fragments joined (`existsUnique_reading`).  What the name of the function is
made of makes no difference.
-/

namespace MessageCatalog.Call

open Text

/-- What a call is written with in front of its argument. -/
def openingWord (name : FunctionName) : List Char :=
  name.chars ++ ['(', '"']

/-- What a call is written with behind its argument. -/
def closingWord : List Char :=
  ['"', ')']

/-- The argument of a call and the text in front of the call. -/
structure Site where
  gap : List Char
  argument : List Char

/-- A source text told by its calls. -/
structure Reading where
  sites : List Site
  rest : List Char

namespace Reading

variable {name : FunctionName}

/-- The source text that is read. -/
def text (name : FunctionName) (r : Reading) : List Char :=
  r.sites.flatMap (fun site => site.gap ++ openingWord name ++ site.argument ++ closingWord) ++
    r.rest

/-- The first opening behind each gap is the one at its end, no argument holds a closing, and behind
no opening of the rest there is a closing. -/
structure FindsCalls (name : FunctionName) (r : Reading) : Prop where
  gap : ∀ site ∈ r.sites, ∀ u v,
    site.gap ++ openingWord name = u ++ openingWord name ++ v → u = site.gap
  argument : ∀ site ∈ r.sites, ¬ closingWord <:+: site.argument
  rest : ∀ u v, r.rest = u ++ openingWord name ++ v → ¬ closingWord <:+: v

/-! ### Readings as cuts -/

theorem openingWord_ne_nil (name : FunctionName) : openingWord name ≠ [] :=
  List.append_ne_nil_of_right_ne_nil _ (List.cons_ne_nil _ _)

theorem closingWord_ne_nil : closingWord ≠ [] :=
  List.cons_ne_nil _ _

theorem opening_eq (name : FunctionName) :
    opening name = Token.word (openingWord name) (openingWord_ne_nil name) := rfl

theorem closing_eq : closing = Token.word closingWord closingWord_ne_nil := rfl

/-- The cut that a reading describes. -/
def toCut (name : FunctionName) (r : Reading) : Cut where
  enclosures := r.sites.map fun site => ⟨site.gap, openingWord name, site.argument, closingWord⟩
  tail := r.rest

theorem text_toCut (r : Reading) : (r.toCut name).text = r.text name := by
  simp only [toCut, Cut.text, text, List.map_map, List.flatMap_def]
  rfl

private theorem closing_standsFirst_iff {argument rest : List Char} :
    closing.StandsFirst argument closingWord rest ↔ ¬ closingWord <:+: argument := by
  rw [closing_eq, Token.standsFirst_word_iff]
  constructor
  · rintro h ⟨u, v, rfl⟩
    have hfirst := h u (v ++ closingWord) (by simp only [List.append_assoc])
    have hlength := congrArg List.length hfirst
    simp [closingWord] at hlength
  · intro h u v huv
    -- the two closings cannot share a character
    rcases List.eq_nil_or_concat v with rfl | ⟨v, c, rfl⟩
    · rw [List.append_nil] at huv
      exact (List.append_cancel_right huv).symm
    · rw [List.concat_eq_append, ← List.append_assoc, closingWord,
        show ['"', ')'] = ['"'] ++ [')'] from rfl, ← List.append_assoc, ← List.append_assoc] at huv
      have hfront := (List.append_inj' huv rfl).1
      rcases List.eq_nil_or_concat v with rfl | ⟨v, d, rfl⟩
      · rw [List.append_nil] at hfront
        have hlast := (List.append_inj' hfront rfl).2
        simp at hlast
      · rw [List.concat_eq_append, ← List.append_assoc] at hfront
        have hargument := (List.append_inj' hfront rfl).1
        exact absurd ⟨u, v, by rw [hargument]; simp [closingWord]⟩ h

theorem findsCalls_nil_iff {rest : List Char} :
    (Reading.mk [] rest).FindsCalls name ↔
      ∀ u v, rest = u ++ openingWord name ++ v → ¬ closingWord <:+: v :=
  ⟨fun h => h.rest, fun h => ⟨by simp, by simp, h⟩⟩

theorem findsCalls_cons_iff {site : Site} {sites : List Site} {rest : List Char} :
    (Reading.mk (site :: sites) rest).FindsCalls name ↔
      (∀ u v, site.gap ++ openingWord name = u ++ openingWord name ++ v → u = site.gap) ∧
        ¬ closingWord <:+: site.argument ∧ (Reading.mk sites rest).FindsCalls name := by
  constructor
  · rintro ⟨hgap, hargument, hrest⟩
    obtain ⟨hgap, hgaps⟩ := List.forall_mem_cons.mp hgap
    obtain ⟨hargument, harguments⟩ := List.forall_mem_cons.mp hargument
    exact ⟨hgap, hargument, hgaps, harguments, hrest⟩
  · rintro ⟨hgap, hargument, hothers⟩
    exact ⟨List.forall_mem_cons.mpr ⟨hgap, hothers.gap⟩,
      List.forall_mem_cons.mpr ⟨hargument, hothers.argument⟩, hothers.rest⟩

/-- A reading finds every call exactly if it divides its text where the search does. -/
theorem findsCalls_iff {r : Reading} :
    r.FindsCalls name ↔
      Cut.FallsLeftmost (opening name) closing (r.toCut name).enclosures (r.toCut name).tail := by
  obtain ⟨sites, rest⟩ := r
  induction sites with
  | nil =>
      have hcut : toCut name ⟨[], rest⟩ = ⟨[], rest⟩ := rfl
      rw [findsCalls_nil_iff, hcut, Cut.fallsLeftmost_nil_iff, opening_eq,
        Token.forall_find_word_iff]
      simp only [closing_eq, Token.word_occursIn_iff]
  | cons site sites ih =>
      have hcut : toCut name ⟨site :: sites, rest⟩ =
          ⟨⟨site.gap, openingWord name, site.argument, closingWord⟩ ::
            (toCut name ⟨sites, rest⟩).enclosures, (toCut name ⟨sites, rest⟩).tail⟩ := rfl
      rw [findsCalls_cons_iff, ih, hcut, Cut.fallsLeftmost_cons_iff,
        closing_standsFirst_iff, opening_eq, Token.standsFirst_word_iff]

theorem FindsCalls.cut_eq {r : Reading} (h : r.FindsCalls name) :
    cut name (r.text name) = r.toCut name := by
  exact (Cut.eq_ofText_iff.mpr ⟨text_toCut r, findsCalls_iff.mp h⟩).symm

theorem FindsCalls.literals_eq {source : String} {r : Reading} (h : r.FindsCalls name)
    (htext : r.text name = source.toList) :
    literals name source = r.sites.map fun site => String.ofList (joinFragments site.argument) := by
  rw [literals, ← htext, h.cut_eq, Cut.bodies, toCut, List.map_map, List.map_map]
  rfl

private theorem toCut_injective (name : FunctionName) : Function.Injective (toCut name) := by
  rintro ⟨sites, rest⟩ ⟨sites', rest'⟩ h
  obtain ⟨hsites, rfl⟩ := Cut.mk.inj h
  refine congrArg (Reading.mk · rest) (List.map_injective_iff.mpr ?_ hsites)
  rintro ⟨gap, argument⟩ ⟨gap', argument'⟩ hsite
  obtain ⟨rfl, -, rfl, -⟩ := Enclosure.mk.inj hsite
  rfl

/-- There are no two readings of one text that both find every call. -/
theorem FindsCalls.eq {r r' : Reading} (h : r.FindsCalls name) (h' : r'.FindsCalls name)
    (htext : r.text name = r'.text name) : r = r' := by
  apply toCut_injective name
  rw [← h.cut_eq, ← h'.cut_eq, htext]

/-- The reading of a text that is cut. -/
def ofCut (c : Cut) : Reading where
  sites := c.enclosures.map fun e => ⟨e.gap, e.body⟩
  rest := c.tail

private theorem toCut_ofCut {c : Cut}
    (h : ∀ e ∈ c.enclosures, e.opening = openingWord name ∧ e.closing = closingWord) :
    (ofCut c).toCut name = c := by
  have henclosures : (c.enclosures.map fun e =>
      (⟨e.gap, openingWord name, e.body, closingWord⟩ : Enclosure)) = c.enclosures := by
    refine (List.map_congr_left fun e he => ?_).trans (List.map_id _)
    obtain ⟨hopening, hclosing⟩ := h e he
    rw [← hopening, ← hclosing, id]
  simp only [ofCut, toCut, List.map_map]
  exact congrArg (Cut.mk · c.tail) henclosures

/-- Every source text has a reading that finds every call. -/
theorem exists_findsCalls (name : FunctionName) (source : List Char) :
    ∃ r : Reading, r.text name = source ∧ r.FindsCalls name := by
  obtain ⟨htext, hfalls⟩ := Cut.eq_ofText_iff.mp (show cut name source = _ from rfl)
  have hcut : (ofCut (cut name source)).toCut name = cut name source := toCut_ofCut hfalls.eq_words
  refine ⟨ofCut (cut name source), ?_, findsCalls_iff.mpr ?_⟩
  · rw [← text_toCut, hcut, htext]
  · rw [hcut]
    exact hfalls

end Reading

/-- **A source text has exactly one reading that finds every call, and the literals of the text are
the arguments of these calls.** -/
theorem existsUnique_reading (name : FunctionName) (source : String) :
    (∃! r : Reading, r.text name = source.toList ∧ r.FindsCalls name) ∧
      ∃ r : Reading, (r.text name = source.toList ∧ r.FindsCalls name) ∧
        literals name source =
          r.sites.map fun site => String.ofList (joinFragments site.argument) := by
  obtain ⟨r, htext, hfinds⟩ := Reading.exists_findsCalls name source.toList
  refine ⟨⟨r, ⟨htext, hfinds⟩, ?_⟩, r, ⟨htext, hfinds⟩, hfinds.literals_eq htext⟩
  rintro r' ⟨htext', hfinds'⟩
  exact hfinds'.eq hfinds (htext'.trans htext.symm)

end MessageCatalog.Call
