import MessageCatalog.Proofs.Catalog.Readback

/-!
# What translations do to the keys

A reader of a catalog does not tell a key from a translation: it looks for the keyword, any
blanks and a quote, wherever they stand.  Behind every translation there is a quote, so a
translation that ends in the keyword and blanks opens a key that nobody wrote
(`Entry.LeavesKeyOpen`).  That key reaches over the first line of the next entry up to the end of
its key line (`Entry.swallowedKey`), and the key of the next entry is never read.

As long as no source reference and no translation holds a quote and no key a line feed, nothing
else goes wrong.  What is read from such entries is told entry by entry (`keysRead`), with one bit
handed on from each entry to the next.  Hence two ways of filling in the translations are read as
the same keys exactly if the same entries leave a key open, the last entry aside
(`keyTexts_eq_iff_leftOpen_eq`).
-/

namespace MessageCatalog.Catalog

open Text

variable {s : List Char}

/-! ### Openings that end with a text -/

theorem not_holdsOpening_of_quote_not_mem (h : '"' ∉ s) : ¬ HoldsOpening s := by
  rintro ⟨rest, hrest, hopen⟩
  exact h (hrest.mem hopen.mem_quote)

private theorem exists_keyword_of_holdsOpening_append_quote (hquote : '"' ∉ s)
    (h : HoldsOpening (s ++ ['"'])) :
    ∃ front blanks, blanks.all isBlank ∧ s = front ++ (keyword ++ blanks) := by
  obtain ⟨rest, hrest, hopen⟩ := h
  rcases Token.suffix_append_cases hrest with hrest | ⟨back, -, ⟨front, rfl⟩, rfl⟩
  · -- the quote alone is no opening
    have hhead : rest.head? = some 'm' := hopen.head?_eq
    rcases List.suffix_cons_iff.mp hrest with rfl | hnil
    · simp at hhead
    · obtain rfl := List.suffix_nil.mp hnil
      simp at hhead
  · obtain ⟨blanks, tail, hblanks, heq⟩ := hopen
    rcases first_mark_cases (quote_not_mem_keyword_append hblanks) heq with
      ⟨rfl, -⟩ | ⟨extra, rfl, -⟩
    · exact ⟨front, blanks, hblanks, rfl⟩
    · exact absurd (by simp) hquote

/-- The keyword does not start again within itself and the blanks behind it. -/
private theorem eq_nil_of_append_keyword {v blanks blanks' : List Char}
    (hblanks : blanks'.all isBlank) (h : v ++ (keyword ++ blanks) = keyword ++ blanks') :
    v = [] := by
  cases v with
  | nil => rfl
  | cons c v =>
      have hblank : 'm' ∉ blanks' := fun hmem =>
        absurd (List.all_eq_true.mp hblanks _ hmem) (by decide)
      have hc : 'm' = c := by
        have hhead := congrArg List.head? h
        simpa [keyword, eq_comm] using hhead
      -- the keyword holds one `m`, and a text in front of it would add a second one
      have hcount : ((c :: v) ++ (keyword ++ blanks)).count 'm' = (keyword ++ blanks').count 'm' :=
        congrArg _ h
      have hright : (keyword ++ blanks').count 'm' = 1 := by
        rw [List.count_append, List.count_eq_zero_of_not_mem hblank]
        decide
      have hkeyword : keyword.count 'm' = 1 := by decide
      rw [hright, List.count_append, List.count_append, hkeyword, ← hc, List.count_cons_self]
        at hcount
      omega

/-- The opening that a text ends with is found, and what is read as a key starts behind it. -/
theorem find_keyOpening_of_keyword {front blanks : List Char} (hblanks : blanks.all isBlank)
    (hfront : ¬ HoldsOpening front) (b : List Char) :
    keyOpening.find (front ++ (keyword ++ blanks ++ '"' :: b)) =
      some ⟨front, keyword ++ blanks ++ ['"'], b⟩ := by
  have hscan : keyOpening.scan (keyword ++ blanks ++ '"' :: b) =
      some (keyword ++ blanks ++ ['"'], b) := by
    simp only [keyOpening, keyOpening?_keyword_append hblanks, Option.map_some]
  apply Token.find_append_of_scan _ hscan
  intro v hv hsuffix hat
  obtain ⟨blanks', rest, hblanks', heq⟩ := keyOpening_at_iff.mp hat
  rw [← List.append_assoc] at heq
  -- an opening that starts earlier ends with the same quote or within the front
  rcases first_mark_cases (quote_not_mem_keyword_append hblanks') heq with
    ⟨hsame, -⟩ | ⟨extra, hearlier, -⟩
  · exact hv (eq_nil_of_append_keyword hblanks' hsame)
  · have hopens : OpensKey (v ++ (keyword ++ blanks)) := ⟨blanks', extra, hblanks', hearlier⟩
    exact hfront ⟨v, hsuffix, hopens.of_append (quote_not_mem_keyword_append hblanks)⟩

/-! ### Keys that stand behind an opening -/

/-- What stands between an opening and the first quote that ends its line is read as a key. -/
theorem keyBodies_of_find_keyOpening {p : Split} {key rest : List Char}
    (hopen : keyOpening.find s = some p) (hrest : p.rest = key ++ '"' :: '\r' :: '\n' :: rest)
    (hkey : ¬ HoldsLineEndingQuote key) : keyBodies s = key :: keyBodies rest := by
  have hscan : keyClosing.scan ('"' :: '\r' :: '\n' :: rest) =
      some (['"', '\r', '\n'], rest) := rfl
  have hclose : keyClosing.find p.rest = some ⟨key, ['"', '\r', '\n'], rest⟩ := by
    rw [hrest]
    refine Token.find_append_of_scan (fun v hv hsuffix hat => hkey ⟨v, hsuffix, ?_⟩) hscan
    exact atLineEndingQuote_of_at_append_quote hv hat
  exact Cut.bodies_ofText_of_first?_eq_some (Cut.first?_of_find hopen hclose)

private theorem keyBodies_of_quote_not_mem {p : Split} (hopen : keyOpening.find s = some p)
    (hquote : '"' ∉ p.rest) : keyBodies s = [] := by
  have hclose : keyClosing.find p.rest = none := by
    rw [Token.find_eq_none_iff]
    rintro ⟨v, hsuffix, hat⟩
    obtain ⟨q, hscan⟩ := Option.isSome_iff_exists.mp hat
    obtain ⟨q', hclosing, -⟩ := Option.map_eq_some_iff.mp hscan
    have htext := (eq_of_keyClosing? hclosing).1
    exact hquote (hsuffix.mem (by rw [htext]; simp))
  exact Cut.bodies_ofText_of_first?_eq_none (by simp [Enclosure.first?, hopen, hclose])

private theorem not_holdsLineEndingQuote_append_quote {a b : List Char} (ha : '"' ∉ a)
    (hb : '\n' ∉ b) : ¬ HoldsLineEndingQuote (a ++ '"' :: b) := by
  rintro ⟨rest, hrest, padding, tail, -, hspelled⟩
  have hhead : rest.head? = some '"' := by rcases hspelled with rfl | rfl <;> rfl
  have hmem : '\n' ∈ rest := by rcases hspelled with rfl | rfl <;> simp
  rcases Token.suffix_append_cases hrest with hrest | ⟨front, hne, hfront, rfl⟩
  · rcases List.suffix_cons_iff.mp hrest with rfl | hrest
    · simp [hb] at hmem
    · exact hb (hrest.mem hmem)
  · -- a quote in front of the only one
    obtain ⟨c, front, rfl⟩ := List.exists_cons_of_ne_nil hne
    obtain rfl : c = '"' := by simpa using hhead
    exact ha (hfront.mem (by simp))

namespace Entry

/-! ### Entries whose texts stay in their quotes -/

/-- The key of an entry ends on its line, and no other text of the entry holds a quote. -/
structure FitsLines (e : Entry) : Prop where
  sourceRef : '"' ∉ e.sourceRef.toList
  key : '\n' ∉ e.key.toList
  translation : '"' ∉ e.translation.toList

instance (e : Entry) : Decidable e.FitsLines :=
  decidable_of_iff ('"' ∉ e.sourceRef.toList ∧ '\n' ∉ e.key.toList ∧
    '"' ∉ e.translation.toList) ⟨fun h => ⟨h.1, h.2.1, h.2.2⟩, fun h => ⟨h.1, h.2, h.3⟩⟩

/-- The end of the translation opens a key together with the quote behind it. -/
def LeavesKeyOpen (e : Entry) : Prop :=
  HoldsOpening (e.translation.toList ++ ['"'])

instance (e : Entry) : Decidable e.LeavesKeyOpen :=
  inferInstanceAs (Decidable (HoldsOpening _))

/-- What is read of an entry if the one before it leaves a key open. -/
def swallowedKey (e : Entry) : String :=
  "\r\n\r\n#: " ++ e.sourceRef ++ "\r\nmsgid \"" ++ e.key

/-- An entry without its translation. -/
def template (e : Entry) : Entry :=
  untranslated e.sourceRef e.key

variable {e e' : Entry}

private theorem template_eq_iff :
    e.template = e'.template ↔ e.sourceRef = e'.sourceRef ∧ e.key = e'.key := by
  simp [template, untranslated]

private theorem swallowedKey_ne_key (e : Entry) : e.swallowedKey ≠ e.key := by
  intro h
  have hlength := congrArg String.length h
  simp only [swallowedKey, String.length_append] at hlength
  have hfront : "\r\n\r\n#: ".length = 7 := by decide
  omega

private theorem FitsLines.not_holdsLineEndingQuote (h : e.FitsLines) :
    ¬ HoldsLineEndingQuote e.key.toList := by
  rintro ⟨rest, hrest, padding, tail, -, hspelled⟩
  refine h.key (hrest.mem ?_)
  rcases hspelled with rfl | rfl <;> simp

/-- The key of the first entry is read, and then what its translation and the other entries
give. -/
theorem FitsLines.keyBodies_textOfList (h : e.FitsLines) (entries : List Entry) :
    keyBodies (textOfList (e :: entries)).toList =
      e.key.toList :: keyBodies (e.translationLines ++ (textOfList entries).toList) := by
  have hskip : keyBodies (e.sourceLine ++ (e.keyLines ++ (textOfList entries).toList)) =
      keyBodies (e.keyLines ++ (textOfList entries).toList) :=
    Cut.bodies_append_of_not_occursIn keyClosing
      (settled_keyOpening e.wholeLines_sourceLine (e.startsPlainly_keyLines _))
      (mt keyOpening_occursIn_iff.mp
        (not_holdsOpening_sourceLine (not_holdsOpening_of_quote_not_mem h.sourceRef)))
  have hopen : keyOpening.find (e.keyLines ++ (textOfList entries).toList) =
      some ⟨[], keyword ++ [' '] ++ ['"'], e.key.toList ++
        '"' :: '\r' :: '\n' :: (e.translationLines ++ (textOfList entries).toList)⟩ := by
    have hfind := find_keyOpening_of_keyword (show [' '].all isBlank by decide)
      (show ¬ HoldsOpening [] by decide)
      (e.key.toList ++ '"' :: '\r' :: '\n' :: (e.translationLines ++ (textOfList entries).toList))
    simpa [keyLines] using hfind
  rw [textOfList_cons, String.toList_append, toList_text, List.append_assoc, hskip]
  exact keyBodies_of_find_keyOpening hopen rfl h.not_holdsLineEndingQuote

theorem keyBodies_translationLines (h : ¬ e.LeavesKeyOpen) (entries : List Entry) :
    keyBodies (e.translationLines ++ (textOfList entries).toList) =
      keyBodies (textOfList entries).toList := by
  have hlines : WholeLines e.translationLines :=
    .inr (by simp [translationLines, List.getLast?_append, List.getLast?_cons])
  exact Cut.bodies_append_of_not_occursIn keyClosing
    (settled_keyOpening hlines (startsPlainly_textOfList entries))
    (mt keyOpening_occursIn_iff.mp (not_holdsOpening_translationLines h))

/-- A translation that leaves a key open opens it with the quote at its end. -/
theorem FitsLines.exists_find_keyOpening (h : e.FitsLines) (hopen : e.LeavesKeyOpen)
    (b : List Char) :
    ∃ p, keyOpening.find (e.translationLines ++ b) = some p ∧
      p.rest = '\r' :: '\n' :: '\r' :: '\n' :: b := by
  obtain ⟨front, blanks, hblanks, htranslation⟩ :=
    exists_keyword_of_holdsOpening_append_quote h.translation hopen
  have hfront : ¬ HoldsOpening (['m', 's', 'g', 's', 't', 'r', ' '] ++ '"' :: front) := by
    intro hholds
    rcases hholds.of_append_quote with hholds | hholds
    · exact absurd hholds (by decide)
    · refine not_holdsOpening_of_quote_not_mem (fun hmem => h.translation ?_) hholds
      rw [htranslation]
      exact List.mem_append_left _ hmem
  have hfind := find_keyOpening_of_keyword hblanks hfront ('\r' :: '\n' :: '\r' :: '\n' :: b)
  refine ⟨_, Eq.trans (congrArg _ ?_) hfind, rfl⟩
  simp [translationLines, htranslation]

/-- The key that a translation leaves open reaches to the end of the next key, if there is one. -/
private theorem FitsLines.keyBodies_translationLines_cons (h : e.FitsLines)
    (hopen : e.LeavesKeyOpen) (h' : e'.FitsLines) (entries : List Entry) :
    keyBodies (e.translationLines ++ (textOfList (e' :: entries)).toList) =
      e'.swallowedKey.toList ::
        keyBodies (e'.translationLines ++ (textOfList entries).toList) := by
  obtain ⟨p, hfind, hrest⟩ :=
    h.exists_find_keyOpening hopen (textOfList (e' :: entries)).toList
  have hswallowed : e'.swallowedKey.toList =
      ('\r' :: '\n' :: '\r' :: '\n' :: e'.sourceLine ++ (keyword ++ [' '])) ++
        '"' :: e'.key.toList := by
    simp [swallowedKey, sourceLine, keyword]
  have hfront : '"' ∉ '\r' :: '\n' :: '\r' :: '\n' :: e'.sourceLine ++ (keyword ++ [' ']) := by
    simp [sourceLine, keyword, h'.sourceRef]
  refine keyBodies_of_find_keyOpening hfind ?_ ?_
  · rw [hrest, hswallowed, textOfList_cons, String.toList_append, toList_text]
    simp [keyLines]
  · rw [hswallowed]
    exact not_holdsLineEndingQuote_append_quote hfront h'.key

private theorem FitsLines.keyBodies_translationLines_nil (h : e.FitsLines) :
    keyBodies (e.translationLines ++ (textOfList []).toList) = [] := by
  by_cases hopen : e.LeavesKeyOpen
  · obtain ⟨p, hfind, hrest⟩ := h.exists_find_keyOpening hopen (textOfList []).toList
    exact keyBodies_of_quote_not_mem hfind (by rw [hrest]; simp)
  · rw [keyBodies_translationLines hopen]
    decide +kernel

end Entry

/-! ### What is read of several entries -/

/-- What is read of some entries, where `opened` says that a key was left open before them. -/
def keysRead (opened : Bool) : List Entry → List String
  | [] => []
  | e :: entries =>
    (if opened then e.swallowedKey else e.key) :: keysRead (decide e.LeavesKeyOpen) entries

/-- Which of some entries leave a key open. -/
def leftOpen (entries : List Entry) : List Bool :=
  entries.map fun e => decide e.LeavesKeyOpen

private theorem keyBodies_translationLines_eq_keysRead {e : Entry} (he : e.FitsLines)
    {entries : List Entry} (hentries : ∀ f ∈ entries, f.FitsLines) :
    keyBodies (e.translationLines ++ (Entry.textOfList entries).toList) =
      (keysRead (decide e.LeavesKeyOpen) entries).map String.toList := by
  induction entries generalizing e with
  | nil => exact he.keyBodies_translationLines_nil
  | cons f entries ih =>
      obtain ⟨hf, hentries⟩ := List.forall_mem_cons.mp hentries
      have hrest := ih hf hentries
      by_cases hopen : e.LeavesKeyOpen
      · rw [he.keyBodies_translationLines_cons hopen hf, hrest]
        simp [keysRead, hopen]
      · rw [Entry.keyBodies_translationLines hopen, hf.keyBodies_textOfList, hrest]
        simp [keysRead, hopen]

/-- What is read of a catalog is told entry by entry. -/
theorem keyTexts_textOfList_eq_keysRead {entries : List Entry}
    (hentries : ∀ e ∈ entries, e.FitsLines) :
    keyTexts (Entry.textOfList entries) = keysRead false entries := by
  cases entries with
  | nil => exact keyTexts_empty
  | cons e entries =>
      obtain ⟨he, hothers⟩ := List.forall_mem_cons.mp hentries
      have hbodies : keyBodies (Entry.textOfList (e :: entries)).toList =
          (keysRead false (e :: entries)).map String.toList := by
        rw [he.keyBodies_textOfList, keyBodies_translationLines_eq_keysRead he hothers]
        simp [keysRead]
      rw [keyTexts_eq, hbodies, List.map_map]
      have hid : String.ofList ∘ String.toList = id := funext fun s => String.ofList_toList
      rw [hid, List.map_id]

private theorem leftOpen_dropLast_cons {e : Entry} {entries : List Entry} (hne : entries ≠ []) :
    leftOpen (e :: entries).dropLast =
      decide e.LeavesKeyOpen :: leftOpen entries.dropLast := by
  rw [List.dropLast_cons_of_ne_nil hne]
  rfl

/-- Entries that differ in their translations only are read alike if a key is left open before them
and within them alike. -/
theorem keysRead_eq_iff {first second : List Entry}
    (hsame : first.map Entry.template = second.map Entry.template) (opened opened' : Bool) :
    keysRead opened first = keysRead opened' second ↔
      (first ≠ [] → opened = opened') ∧ leftOpen first.dropLast = leftOpen second.dropLast := by
  induction first generalizing second opened opened' with
  | nil =>
      obtain rfl := List.map_eq_nil_iff.mp hsame.symm
      simp [keysRead]
  | cons e first ih =>
      cases second with
      | nil => simp at hsame
      | cons e' second =>
          obtain ⟨htemplate, hrest⟩ := List.cons.inj hsame
          obtain ⟨href, hkey⟩ := Entry.template_eq_iff.mp htemplate
          have hswallowed : e'.swallowedKey = e.swallowedKey := by
            simp only [Entry.swallowedKey, href, hkey]
          have hhead : (if opened then e.swallowedKey else e.key) =
              (if opened' then e'.swallowedKey else e'.key) ↔ opened = opened' := by
            have hne := e.swallowedKey_ne_key
            rw [hswallowed, ← hkey]
            cases opened <;> cases opened' <;> simp [hne, hne.symm]
          have htail := ih hrest (decide e.LeavesKeyOpen) (decide e'.LeavesKeyOpen)
          simp only [keysRead, List.cons.injEq, hhead, htail]
          -- the bit of the last entry is handed on to nobody
          by_cases hnil : first = []
          · subst hnil
            obtain rfl := List.map_eq_nil_iff.mp hrest.symm
            simp
          · have hnil' : second ≠ [] := by
              rintro rfl
              exact hnil (List.map_eq_nil_iff.mp hrest)
            rw [leftOpen_dropLast_cons hnil, leftOpen_dropLast_cons hnil', List.cons.injEq]
            simp [hnil]

private theorem keysRead_of_forall_not {entries : List Entry}
    (h : ∀ e ∈ entries, ¬ e.LeavesKeyOpen) :
    keysRead false entries = entries.map Entry.key := by
  induction entries with
  | nil => rfl
  | cons e entries ih =>
      obtain ⟨he, hothers⟩ := List.forall_mem_cons.mp h
      simp [keysRead, he, ih hothers]

private theorem Entry.not_leavesKeyOpen_template (e : Entry) : ¬ e.template.LeavesKeyOpen := by
  show ¬ HoldsOpening ("".toList ++ ['"'])
  decide

private theorem leftOpen_eq_iff_forall_not {entries : List Entry} :
    leftOpen entries = leftOpen (entries.map Entry.template) ↔
      ∀ e ∈ entries, ¬ e.LeavesKeyOpen := by
  simp [leftOpen, Entry.not_leavesKeyOpen_template, List.map_inj_left]

/-- **Which keys are read depends on the translations that leave a key open, and on nothing else in
them.**  For entries without quotes in source references and translations and without line feeds in
keys, two ways of filling in the translations are read as the same keys exactly if the same entries,
the last one aside, leave a key open.  The keys that were written are read exactly if none of these
entries does. -/
theorem keyTexts_eq_iff_leftOpen_eq {first second : List Entry}
    (hsame : first.map Entry.template = second.map Entry.template)
    (hfirst : ∀ e ∈ first, e.FitsLines) (hsecond : ∀ e ∈ second, e.FitsLines) :
    (keyTexts (Entry.textOfList first) = keyTexts (Entry.textOfList second) ↔
      leftOpen first.dropLast = leftOpen second.dropLast) ∧
    (keyTexts (Entry.textOfList first) = first.map Entry.key ↔
      ∀ e ∈ first.dropLast, ¬ e.LeavesKeyOpen) := by
  have htemplates : ∀ e ∈ first.map Entry.template, e.FitsLines := by
    intro e he
    obtain ⟨f, hf, rfl⟩ := List.mem_map.mp he
    exact ⟨(hfirst f hf).sourceRef, (hfirst f hf).key, by simp [Entry.template, Entry.untranslated]⟩
  -- as they were written, the entries leave no key open, and their keys are the ones that are read
  have hidem : first.map Entry.template = (first.map Entry.template).map Entry.template := by
    rw [List.map_map]
    rfl
  have hkeys : keysRead false (first.map Entry.template) = first.map Entry.key := by
    rw [keysRead_of_forall_not fun e he => ?_, List.map_map]
    · rfl
    · obtain ⟨f, -, rfl⟩ := List.mem_map.mp he
      exact f.not_leavesKeyOpen_template
  rw [keyTexts_textOfList_eq_keysRead hfirst, keyTexts_textOfList_eq_keysRead hsecond]
  constructor
  · rw [keysRead_eq_iff hsame]
    simp
  · rw [← hkeys, keysRead_eq_iff hidem, ← List.map_dropLast, leftOpen_eq_iff_forall_not]
    simp

/-- The last translation may end in the keyword, and another one may hold it. -/
theorem keyTexts_eq_of_harmless_translations :
    keyTexts (Entry.textOfList [⟨"A.cs", "Save", "msgid: Guardar"⟩, ⟨"B.cs", "Open", "msgid "⟩]) =
      keyTexts (Entry.textOfList [⟨"A.cs", "Save", ""⟩, ⟨"B.cs", "Open", "Abrir"⟩]) := by
  have hsame : [(⟨"A.cs", "Save", "msgid: Guardar"⟩ : Entry), ⟨"B.cs", "Open", "msgid "⟩].map
      Entry.template = [(⟨"A.cs", "Save", ""⟩ : Entry), ⟨"B.cs", "Open", "Abrir"⟩].map
        Entry.template := by decide
  exact (keyTexts_eq_iff_leftOpen_eq hsame (by decide) (by decide)).1.mpr (by decide)

/-- A translation that ends in the keyword hides the key of the next entry. -/
theorem keyTexts_ne_of_keyword_translation :
    let translated : List Entry := [⟨"A.cs", "Save", "Guardar"⟩, ⟨"B.cs", "Open", "Abrir"⟩]
    let edited : List Entry := [⟨"A.cs", "Save", "msgid"⟩, ⟨"B.cs", "Open", "Abrir"⟩]
    translated.map Entry.template = edited.map Entry.template ∧
      keyTexts (Entry.textOfList translated) = ["Save", "Open"] ∧
      keyTexts (Entry.textOfList edited) = ["Save", "\r\n\r\n#: B.cs\r\nmsgid \"Open"] := by
  decide +kernel

end MessageCatalog.Catalog
