import MessageCatalog.Catalog.Entry
import MessageCatalog.Proofs.Catalog.KeyGrammar

/-!
# Reading back what was written

Entries are written without escapes, so the text of an entry can be read as something
else than the entry.  How far reading undoes writing is settled entry by entry:

* the text of an entry consists of whole lines and leaves no key open
  (`Entry.wholeLines_text`, `Entry.not_holdsOpening_tail`), so what is read from several
  entries is what is read from each of them (`keyTexts_append_textOfList`);
* from one entry at least a front part of its key is read, and exactly the key if no quote
  of the key ends its line (`Entry.keyTexts_text`, `Entry.exists_keyTexts_text`).

Hence the sequence of keys is read back exactly when no key holds a quote that ends its
line (`keyTexts_append_eq_iff`).  No text at all reads as a key of that kind
(`not_holdsLineEndingQuote_of_mem_keyTexts`).
-/

namespace MessageCatalog.Catalog

open Text

/-- The keys of a catalog text in file order. -/
def keyTexts (text : String) : List String :=
  (keySites text).map KeySite.key

/-- The keys of a text in characters. -/
def keyBodies (s : List Char) : List (List Char) :=
  (keyCut s).bodies

theorem map_key_ofEnclosures (offset : Nat) (enclosures : List Enclosure) :
    (KeySite.ofEnclosures offset enclosures).map KeySite.key =
      enclosures.map fun e => String.ofList e.body := by
  induction enclosures generalizing offset with
  | nil => rfl
  | cons e enclosures ih => simp [KeySite.ofEnclosures, ih]

theorem keyTexts_eq (text : String) :
    keyTexts text = (keyBodies text.toList).map String.ofList := by
  simp [keyTexts, keySites, map_key_ofEnclosures, keyBodies, Cut.bodies]

theorem mem_keys_iff {text key : String} : key ∈ keys text ↔ key ∈ keyTexts text := by
  simp [keys, keyTexts, Std.TreeSet.mem_ofList]

@[simp] theorem keyTexts_empty : keyTexts "" = [] := by
  decide +kernel

/-! ### Quotes that end a line -/

theorem not_holdsLineEndingQuote_of_mem_keyBodies {s body : List Char}
    (h : body ∈ keyBodies s) : ¬ HoldsLineEndingQuote body := by
  cases hfirst : Enclosure.first? keyOpening keyClosing s with
  | none =>
      rw [keyBodies, keyCut, Cut.bodies_ofText_of_first?_eq_none hfirst] at h
      cases h
  | some p =>
      rw [keyBodies, keyCut, Cut.bodies_ofText_of_first?_eq_some hfirst] at h
      rcases List.mem_cons.mp h with rfl | h
      · rintro ⟨rest, ⟨front, hfront⟩, hquote⟩
        have hne : rest ≠ [] := by
          rintro rfl
          obtain ⟨padding, tail, -, heq | heq⟩ := hquote <;> simp at heq
        have hclose := (Enclosure.first?_eq_some hfirst).2
        refine Token.not_at_of_find hclose hfront hne ?_
        rw [List.append_assoc]
        exact hquote.at_keyClosing _
      · exact not_holdsLineEndingQuote_of_mem_keyBodies h
termination_by s.length
decreasing_by exact Enclosure.length_of_first? hfirst

theorem not_holdsLineEndingQuote_of_mem_keyTexts {text key : String}
    (h : key ∈ keyTexts text) : ¬ HoldsLineEndingQuote key.toList := by
  rw [keyTexts_eq] at h
  obtain ⟨body, hbody, rfl⟩ := List.mem_map.mp h
  rw [String.toList_ofList]
  exact not_holdsLineEndingQuote_of_mem_keyBodies hbody

/-- What is read from an opened key: a front part of what stands before a quote that ends its
line, and all of it if that is the first such quote. -/
private theorem exists_keyBodies_opened (key rest : List Char) :
    ∃ body others,
      keyBodies (keyword ++ [' '] ++ '"' :: (key ++ '"' :: '\r' :: '\n' :: rest)) =
        body :: others ∧
      (body = key → ¬ HoldsLineEndingQuote key) ∧
      (¬ HoldsLineEndingQuote key → body = key ∧ others = keyBodies rest) := by
  have hopen : keyOpening.find
      (keyword ++ [' '] ++ '"' :: (key ++ '"' :: '\r' :: '\n' :: rest)) =
        some ⟨[], keyword ++ [' '] ++ ['"'], key ++ '"' :: '\r' :: '\n' :: rest⟩ := by
    have hopening : keyOpening?
        (keyword ++ [' '] ++ '"' :: (key ++ '"' :: '\r' :: '\n' :: rest)) =
          some ([' '], key ++ '"' :: '\r' :: '\n' :: rest) := keyOpening?_keyword_append rfl _
    apply Token.find_cons_of_scan
    exact congrArg (Option.map fun p => (keyword ++ p.1 ++ ['"'], p.2)) hopening
  -- the quote behind the key ends its line, so that the search for a closing finds one
  have hscan : keyClosing.scan ('"' :: '\r' :: '\n' :: rest) =
      some (['"', '\r', '\n'], rest) := rfl
  have hoccurs : keyClosing.OccursIn (key ++ '"' :: '\r' :: '\n' :: rest) :=
    ⟨_, List.suffix_append _ _, by simp [Token.At, hscan]⟩
  obtain ⟨q, hclose⟩ := Option.isSome_iff_exists.mp (Token.occursIn_iff_isSome_find.mp hoccurs)
  have hfirst := Cut.first?_of_find hopen hclose
  refine ⟨q.before, keyBodies q.rest, Cut.bodies_ofText_of_first?_eq_some hfirst, ?_, ?_⟩
  · rintro rfl
    exact not_holdsLineEndingQuote_of_mem_keyBodies
      (by rw [keyBodies, keyCut, Cut.bodies_ofText_of_first?_eq_some hfirst]; simp)
  · intro hkey
    have hfind : keyClosing.find (key ++ '"' :: '\r' :: '\n' :: rest) =
        some ⟨key, ['"', '\r', '\n'], rest⟩ := by
      refine Token.find_append_of_scan (fun v hv hsuffix hat => hkey ⟨v, hsuffix, ?_⟩) hscan
      exact atLineEndingQuote_of_at_append_quote hv hat
    rw [hclose] at hfind
    cases hfind
    exact ⟨rfl, rfl⟩

/-! ### The text of one entry -/

namespace Entry

variable (e : Entry)

/-- The line that names the source. -/
def sourceLine : List Char :=
  ['#', ':', ' '] ++ e.sourceRef.toList ++ ['\r', '\n']

/-- What follows the line of the key. -/
def translationLines : List Char :=
  ['m', 's', 'g', 's', 't', 'r', ' '] ++
    '"' :: (e.translation.toList ++ '"' :: ['\r', '\n', '\r', '\n'])

/-- The line of the key with what follows it. -/
def keyLines : List Char :=
  keyword ++ [' '] ++ '"' :: (e.key.toList ++ '"' :: '\r' :: '\n' :: e.translationLines)

theorem toList_text : e.text.toList = e.sourceLine ++ e.keyLines := by
  simp [text, sourceLine, keyLines, translationLines, keyword]

theorem wholeLines_sourceLine : WholeLines e.sourceLine :=
  .inr (by simp [sourceLine, List.getLast?_append, List.getLast?_cons])

theorem wholeLines_text : WholeLines e.text.toList :=
  .inr (by simp [toList_text, keyLines, translationLines, List.getLast?_append, List.getLast?_cons])

theorem startsPlainly_keyLines (rest : List Char) : StartsPlainly (e.keyLines ++ rest) := by
  rintro c hc
  obtain rfl : c = 'm' := by simpa [keyLines, keyword, eq_comm] using hc
  decide

private theorem startsPlainly_text (rest : List Char) : StartsPlainly (e.text.toList ++ rest) := by
  rintro c hc
  obtain rfl : c = '#' := by simpa [toList_text, sourceLine, eq_comm] using hc
  decide

theorem startsPlainly_textOfList (entries : List Entry) :
    StartsPlainly (textOfList entries).toList := by
  cases entries with
  | nil =>
      intro c hc
      cases hc
  | cons e entries =>
      rw [textOfList_cons, String.toList_append]
      exact e.startsPlainly_text _

variable {e}

theorem not_holdsOpening_sourceLine (h : ¬ HoldsOpening e.sourceRef.toList) :
    ¬ HoldsOpening e.sourceLine := by
  intro hopen
  have hfront := HoldsOpening.of_append hopen (b := ['\r', '\n']) (by decide)
  exact h (((hfront.of_cons (by decide)).of_cons (by decide)).of_cons (by decide))

theorem not_holdsOpening_translationEnd (h : ¬ HoldsOpening (e.translation.toList ++ ['"'])) :
    ¬ HoldsOpening (e.translation.toList ++ '"' :: ['\r', '\n', '\r', '\n']) := by
  intro hopen
  rcases hopen.of_append_quote with hopen | hopen
  · exact h hopen
  · exact absurd hopen (by decide)

theorem not_holdsOpening_translationLines
    (h : ¬ HoldsOpening (e.translation.toList ++ ['"'])) :
    ¬ HoldsOpening e.translationLines := by
  intro hopen
  rcases hopen.of_append_quote with hopen | hopen
  · exact absurd hopen (by decide)
  · exact not_holdsOpening_translationEnd h hopen

/-- The text of an entry leaves no key open, even if one is opened in its source reference or in
its key: the quote behind the translation ends its line. -/
private theorem not_holdsOpening_tail (h : ¬ HoldsOpening (e.translation.toList ++ ['"'])) :
    ¬ HoldsOpening (keyCut e.text.toList).tail := by
  rw [← keyOpening_occursIn_iff]
  apply Cut.not_occursIn_tail
  intro v m r hsuffix hscan
  -- the text up to the quote in front of the translation, and from there on
  have htext : e.text.toList =
      (e.sourceLine ++ (keyword ++ [' '] ++ '"' :: (e.key.toList ++
          '"' :: '\r' :: '\n' :: ['m', 's', 'g', 's', 't', 'r', ' ']))) ++
        '"' :: (e.translation.toList ++ '"' :: ['\r', '\n', '\r', '\n']) := by
    simp [toList_text, keyLines, translationLines]
  have hopens : OpensKey v := keyOpening_at_iff.mp (by simp [Token.At, hscan])
  rw [htext] at hsuffix
  rcases Token.suffix_append_cases hsuffix with hbehind | ⟨front, -, -, rfl⟩
  · rcases List.suffix_cons_iff.mp hbehind with rfl | hbehind
    · exact absurd hopens.head?_eq (by simp)
    · exact absurd ⟨v, hbehind, hopens⟩ (not_holdsOpening_translationEnd h)
  · have hrest := suffix_of_scan_keyOpening hscan
    refine Token.OccursIn.of_suffix ⟨_, List.suffix_append _ _, ?_⟩ hrest
    exact AtLineEndingQuote.at_keyClosing (a := '"' :: ['\r', '\n'])
      ⟨[], [], rfl, .inr rfl⟩ ['\r', '\n']

end Entry

/-! ### Several entries -/

/-- A text to which entries can be added: it consists of whole lines, and no key is opened behind
its last key. -/
structure Extensible (text : String) : Prop where
  wholeLines : WholeLines text.toList
  tail : ¬ HoldsOpening (keyCut text.toList).tail

instance (text : String) : Decidable (Extensible text) :=
  decidable_of_iff (WholeLines text.toList ∧ ¬ HoldsOpening (keyCut text.toList).tail)
    ⟨fun h => ⟨h.1, h.2⟩, fun h => ⟨h.1, h.2⟩⟩

theorem extensible_empty : Extensible "" where
  wholeLines := .inl rfl
  tail := by
    rintro ⟨rest, hrest, hopen⟩
    have htext : rest <:+ [] := hrest.trans (Cut.tail_suffix keyOpening keyClosing [])
    obtain rfl := List.suffix_nil.mp htext
    simpa using hopen.head?_eq

/-- Behind such a text a text with a plain start is read by itself. -/
theorem Extensible.keyTexts_append {text₁ text₂ : String} (h : Extensible text₁)
    (hplain : StartsPlainly text₂.toList) :
    keyTexts (text₁ ++ text₂) = keyTexts text₁ ++ keyTexts text₂ := by
  have hbodies : keyBodies (text₁.toList ++ text₂.toList) =
      keyBodies text₁.toList ++ keyBodies text₂.toList :=
    Cut.bodies_append (settled_keyOpening h.wholeLines hplain)
      (settled_keyClosing h.wholeLines _) (mt keyOpening_occursIn_iff.mp h.tail)
  rw [keyTexts_eq, keyTexts_eq, keyTexts_eq, String.toList_append, hbodies, List.map_append]

namespace Entry

private theorem extensible_text {e : Entry} (h : ¬ HoldsOpening (e.translation.toList ++ ['"'])) :
    Extensible e.text :=
  ⟨e.wholeLines_text, not_holdsOpening_tail h⟩

/-- From an entry with a plain source reference a front part of its key is read first, and then
nothing else unless a quote of the key ends its line. -/
theorem exists_keyTexts_text {e : Entry} (href : ¬ HoldsOpening e.sourceRef.toList) :
    ∃ key others, keyTexts e.text = key :: others ∧
      (key = e.key → ¬ HoldsLineEndingQuote e.key.toList) ∧
      (¬ HoldsLineEndingQuote e.key.toList →
        key = e.key ∧ others = (keyBodies e.translationLines).map String.ofList) := by
  obtain ⟨body, others, hbodies, hne, heq⟩ :=
    exists_keyBodies_opened e.key.toList e.translationLines
  have htext : keyBodies e.text.toList = body :: others := by
    have hplain : StartsPlainly e.keyLines := by
      simpa using e.startsPlainly_keyLines []
    -- the source line opens no key, and so reading starts at the key line
    have hskip := Cut.bodies_append_of_not_occursIn keyClosing
      (settled_keyOpening e.wholeLines_sourceLine hplain)
      (mt keyOpening_occursIn_iff.mp (not_holdsOpening_sourceLine href))
    rw [toList_text]
    exact hskip.trans hbodies
  refine ⟨String.ofList body, others.map String.ofList, ?_, ?_, ?_⟩
  · rw [keyTexts_eq, htext, List.map_cons]
  · intro hkey
    exact hne (by rw [← hkey, String.toList_ofList])
  · intro hkey
    obtain ⟨rfl, rfl⟩ := heq hkey
    exact ⟨String.ofList_toList, rfl⟩

/-- A plain entry is read back if no quote of its key ends its line. -/
theorem keyTexts_text {e : Entry} (href : ¬ HoldsOpening e.sourceRef.toList)
    (htranslation : ¬ HoldsOpening (e.translation.toList ++ ['"']))
    (hkey : ¬ HoldsLineEndingQuote e.key.toList) : keyTexts e.text = [e.key] := by
  obtain ⟨key, others, htext, -, heq⟩ := exists_keyTexts_text href
  obtain ⟨rfl, rfl⟩ := heq hkey
  rw [htext, keyBodies, keyCut, Cut.bodies_ofText_of_not_occursIn
    (mt keyOpening_occursIn_iff.mp (not_holdsOpening_translationLines htranslation)), List.map_nil]

end Entry

/-- What is read from added entries is what is read from each of them. -/
theorem keyTexts_append_textOfList {text : String} (h : Extensible text) {entries : List Entry}
    (htranslations : ∀ e ∈ entries, ¬ HoldsOpening (e.translation.toList ++ ['"'])) :
    keyTexts (text ++ Entry.textOfList entries) =
      keyTexts text ++ entries.flatMap fun e => keyTexts e.text := by
  induction entries generalizing text with
  | nil => simp
  | cons e entries ih =>
      obtain ⟨htranslation, hothers⟩ := List.forall_mem_cons.mp htranslations
      have hplain := Entry.startsPlainly_textOfList (e :: entries)
      rw [Entry.textOfList_cons] at hplain ⊢
      rw [h.keyTexts_append hplain, List.flatMap_cons,
        ih (Entry.extensible_text htranslation) hothers]

/-- The entries of a list are read back one by one exactly if no quote of a key ends its line. -/
private theorem flatMap_keyTexts_eq_iff {entries : List Entry}
    (hrefs : ∀ e ∈ entries, ¬ HoldsOpening e.sourceRef.toList)
    (htranslations : ∀ e ∈ entries, ¬ HoldsOpening (e.translation.toList ++ ['"'])) :
    (entries.flatMap fun e => keyTexts e.text) = entries.map Entry.key ↔
      ∀ e ∈ entries, ¬ HoldsLineEndingQuote e.key.toList := by
  induction entries with
  | nil => simp
  | cons e entries ih =>
      obtain ⟨href, hrefs⟩ := List.forall_mem_cons.mp hrefs
      obtain ⟨htranslation, htranslations⟩ := List.forall_mem_cons.mp htranslations
      rw [List.flatMap_cons, List.map_cons, List.forall_mem_cons, ← ih hrefs htranslations]
      constructor
      · intro heq
        -- the first key that is read from an entry tells whether it is read back
        have hkey : ¬ HoldsLineEndingQuote e.key.toList := by
          obtain ⟨key, others, htext, hne, -⟩ := Entry.exists_keyTexts_text href
          rw [htext, List.cons_append] at heq
          exact hne (List.cons.inj heq).1
        rw [Entry.keyTexts_text href htranslation hkey] at heq
        exact ⟨hkey, by simpa using heq⟩
      · rintro ⟨hkey, heq⟩
        rw [Entry.keyTexts_text href htranslation hkey, heq, List.singleton_append]

/-- **Reading undoes writing exactly where it can.**  Behind a text to which entries can be added,
entries whose source references and translations open no key are read back as the sequence of
their keys if and only if no key holds a quote that ends its line. -/
theorem keyTexts_append_eq_iff {text : String} (htext : Extensible text) {entries : List Entry}
    (hrefs : ∀ e ∈ entries, ¬ HoldsOpening e.sourceRef.toList)
    (htranslations : ∀ e ∈ entries, ¬ HoldsOpening (e.translation.toList ++ ['"'])) :
    keyTexts (text ++ Entry.textOfList entries) = keyTexts text ++ entries.map Entry.key ↔
      ∀ e ∈ entries, ¬ HoldsLineEndingQuote e.key.toList := by
  rw [keyTexts_append_textOfList htext htranslations, List.append_cancel_left_eq]
  exact flatMap_keyTexts_eq_iff hrefs htranslations

/-- Quotes inside a line and line ends are read back behind an older entry. -/
theorem keyTexts_append_of_raw_quotes :
    keyTexts ("#: A.cs\r\nmsgid \"a\"\r\nmsgstr \"\"\r\n\r\n" ++
        Entry.textOfList [⟨"B.cs", "say \"hi\" to\nall", "sag es"⟩, ⟨"B.cs", "", ""⟩]) =
      ["a", "say \"hi\" to\nall", ""] := by
  have hread := (keyTexts_append_eq_iff
    (show Extensible "#: A.cs\r\nmsgid \"a\"\r\nmsgstr \"\"\r\n\r\n" by decide +kernel)
    (show ∀ e ∈ [(⟨"B.cs", "say \"hi\" to\nall", "sag es"⟩ : Entry), ⟨"B.cs", "", ""⟩],
      ¬ HoldsOpening e.sourceRef.toList by decide +kernel)
    (by decide +kernel)).mpr (by decide +kernel)
  rw [hread]
  decide +kernel

end MessageCatalog.Catalog
