import MessageCatalog.Proofs.Catalog.Division
import MessageCatalog.Proofs.Catalog.Repetition
import MessageCatalog.Proofs.Text.LineEnding

/-!
# Keys of texts with other line ends

Making the line ends of a catalog bare moves every key behind the first line end, and changes the
keys that span lines.  It changes neither which keys are read nor their lines: the blanks that open
a key may be line ends of both forms, and so may what closes it (`keyCut_pairEnds`).  Different keys
stay different, because the bare form of a paired key is the key again (`bareText_pairKey`).

So the keys of the bare text are the bare forms of the keys, and the same ones are reported as
duplicates on the same lines (`keys_bareText`).
-/

namespace MessageCatalog.Catalog

open Text

variable {s : List Char}

/-! ### The tokens around a key -/

private theorem keyOpening?_pairEnds (s : List Char) :
    keyOpening? (pairEnds s) = (keyOpening? s).map fun p => (pairEnds p.1, pairEnds p.2) := by
  have hblank : isBlank '\r' = isBlank '\n' := by decide
  unfold keyOpening?
  rw [after?_pairEnds (by decide) (by decide)]
  cases Token.after? keyword s with
  | none => rfl
  | some behind =>
      simp only [Option.map_some, dropWhile_pairEnds hblank, takeWhile_pairEnds hblank]
      rw [after?_pairEnds (by decide) (by decide)]
      cases Token.after? ['"'] (behind.dropWhile isBlank) <;> rfl

/-- A line end is one in both forms, if no carriage return stands alone. -/
private theorem lineEnd?_pairEnds (hs : '\r' ∉ s) :
    lineEnd? (pairEnds s) = (lineEnd? s).map fun p => (pairEnds p.1, pairEnds p.2) := by
  cases s with
  | nil => rfl
  | cons c s =>
      have hreturn : c ≠ '\r' := (List.ne_and_not_mem_of_not_mem_cons hs).1.symm
      by_cases hc : c = '\n'
      · subst hc
        rfl
      · rw [pairEnds_cons hc]
        simp [lineEnd?, hc, hreturn]

private theorem keyClosing?_pairEnds (hs : '\r' ∉ s) :
    keyClosing? (pairEnds s) =
      (keyClosing? s).map fun p => (pairEnds p.1, pairEnds p.2.1, pairEnds p.2.2) := by
  have hpadding : isPadding '\r' = isPadding '\n' := by decide
  unfold keyClosing?
  rw [after?_pairEnds (by decide) (by decide)]
  cases hquote : Token.after? ['"'] s with
  | none => rfl
  | some behind =>
      have hbehind : '\r' ∉ behind.dropWhile isPadding := by
        rw [Token.after?_eq_some_iff.mp hquote] at hs
        exact fun hmem => hs (List.mem_append_right _ ((List.dropWhile_suffix _).mem hmem))
      simp only [Option.map_some, dropWhile_pairEnds hpadding, takeWhile_pairEnds hpadding,
        lineEnd?_pairEnds hbehind]
      cases lineEnd? (behind.dropWhile isPadding) <;> rfl

private theorem keyOpening_seesBothForms (s : List Char) : keyOpening.SeesBothForms s where
  lineFeed _ := rfl
  scan v _ := by
    simp only [keyOpening, keyOpening?_pairEnds, Option.map_map]
    refine congrArg (Option.map · _) (funext fun p => ?_)
    simp only [Function.comp_apply, pairEnds_append]
    rfl

private theorem keyClosing_seesBothForms (hs : '\r' ∉ s) : keyClosing.SeesBothForms s where
  lineFeed _ := rfl
  scan v hv := by
    simp only [keyClosing, keyClosing?_pairEnds fun hmem => hs (hv.mem hmem), Option.map_map]
    refine congrArg (Option.map · _) (funext fun p => ?_)
    simp [pairEnds_cons]

/-! ### Keys and their lines -/

/-- **Both forms of a text are cut into keys at the same places.** -/
theorem keyCut_pairEnds (hs : '\r' ∉ s) : keyCut (pairEnds s) = (keyCut s).pairEnds :=
  Cut.ofText_pairEnds (keyOpening_seesBothForms s) (keyClosing_seesBothForms hs)

/-- The keys of a division with one more than the number of line feeds in front of each. -/
def divisionLines (c : Cut) : List (String × Nat) :=
  c.enclosures.zipIdx.map fun (e, place) =>
    (String.ofList e.body,
      1 + (Cut.mk (c.enclosures.take place) (e.gap ++ e.opening)).text.count '\n')

private theorem exists_text_eq_front {c : Cut} {place : Nat} {e : Enclosure}
    (h : c.enclosures[place]? = some e) :
    ∃ back, c.text = (Cut.mk (c.enclosures.take place) (e.gap ++ e.opening)).text ++ back := by
  obtain ⟨hlt, he⟩ := List.getElem?_eq_some_iff.mp h
  have hsplit : c.enclosures = c.enclosures.take place ++ e :: c.enclosures.drop (place + 1) := by
    rw [← he, ← List.drop_eq_getElem_cons hlt, List.take_append_drop]
  refine ⟨e.body ++ e.closing ++ (Cut.mk (c.enclosures.drop (place + 1)) c.tail).text, ?_⟩
  conv_lhs => rw [Cut.text, hsplit]
  rw [List.map_append, List.flatten_append, List.map_cons, List.flatten_cons]
  simp only [Cut.text, Enclosure.text, List.append_assoc]

private theorem keyLines_eq_divisionLines (text : String) :
    keyLines text = divisionLines (keyCut text.toList) := by
  rw [keyLines, keySites_eq_divisionSites, divisionSites, divisionLines, List.map_map]
  refine List.map_congr_left fun entry hentry => ?_
  obtain ⟨e, place⟩ := entry
  obtain ⟨back, hfront⟩ := exists_text_eq_front (c := keyCut text.toList)
    (List.mem_zipIdx_iff_getElem?.mp hentry)
  have htext : (keyCut text.toList).text = text.toList :=
    Cut.text_ofText keyOpening keyClosing text.toList
  rw [htext] at hfront
  refine Prod.ext rfl ?_
  simp only [Function.comp_apply, ← byteLength_eq_utf8ByteSize]
  generalize Cut.text _ = front at hfront ⊢
  rw [hfront]
  exact LineIndex.lineAt_byteLength front back

/-- A key in the form in which every line feed is paired. -/
def pairKey (key : String) : String :=
  String.ofList (pairEnds key.toList)

/-- A text with bare line feeds for its pairs. -/
def bareText (text : String) : String :=
  String.ofList (bareEnds text.toList)

theorem bareText_pairKey (key : String) : bareText (pairKey key) = key := by
  rw [bareText, pairKey, String.toList_ofList, bareEnds_pairEnds, String.ofList_toList]

/-- **The keys of the paired form stand on the lines of the keys of the bare form.** -/
theorem keyLines_pairKey {text : String} (hs : '\r' ∉ text.toList) :
    keyLines (pairKey text) = (keyLines text).map fun line => (pairKey line.1, line.2) := by
  rw [keyLines_eq_divisionLines, keyLines_eq_divisionLines, pairKey, String.toList_ofList,
    keyCut_pairEnds hs, divisionLines, divisionLines]
  simp only [Cut.pairEnds, List.zipIdx_map, List.map_map]
  refine List.map_congr_left fun entry _ => ?_
  obtain ⟨e, place⟩ := entry
  have hfront := Cut.text_pairEnds ⟨(keyCut text.toList).enclosures.take place, e.gap ++ e.opening⟩
  rw [Cut.pairEnds, pairEnds_append, List.map_take] at hfront
  refine Prod.ext ?_ ?_
  · simp [pairKey, Enclosure.pairEnds]
  · simp only [Function.comp_apply, Prod.map_apply, Enclosure.pairEnds, id]
    rw [hfront, count_pairEnds]

/-! ### Duplicates -/

/-- A duplicate with another spelling of its key. -/
def Duplicate.mapKey (f : String → String) (d : Duplicate) : Duplicate :=
  { d with key := f d.key }

private theorem repeats_map {f : String → String} (hf : Function.Injective f)
    (lines : List (String × Nat)) :
    repeats (lines.map fun line => (f line.1, line.2)) =
      (repeats lines).map (Duplicate.mapKey f) := by
  unfold repeats
  rw [List.zipIdx_map, List.filterMap_map, List.map_filterMap]
  refine List.filterMap_congr fun entry _ => ?_
  obtain ⟨line, place⟩ := entry
  simp only [Function.comp_apply, Prod.map_apply, id, ← List.map_take, List.find?_map,
    Option.map_map]
  refine congrArg₂ Option.map (funext fun first => rfl) ?_
  refine congrArg₂ List.find? (funext fun earlier => ?_) rfl
  exact decide_eq_decide.mpr hf.eq_iff

theorem pairKey_injective : Function.Injective pairKey :=
  Function.LeftInverse.injective bareText_pairKey

/-- **Which keys are read does not depend on the form of the line ends.**  The keys of the bare text
are the bare forms of the keys in their order, as many different ones, and the duplicates are the
same on the same lines. -/
theorem keys_bareText {text : String} (h : EndsPaired text.toList) :
    keyTexts (bareText text) = (keyTexts text).map bareText ∧
      (∀ key, key ∈ keys (bareText text) ↔ ∃ original ∈ keys text, bareText original = key) ∧
      (keys (bareText text)).size = (keys text).size ∧
      duplicates (bareText text) = (duplicates text).map (Duplicate.mapKey bareText) := by
  obtain ⟨hreturn, hpaired⟩ := endsPaired_iff.mp h
  have hbare : '\r' ∉ (bareText text).toList := by rwa [bareText, String.toList_ofList]
  have htext : pairKey (bareText text) = text := by
    rw [pairKey, bareText, String.toList_ofList, hpaired, String.ofList_toList]
  -- the text is the paired form of its bare form, so that its keys stand on the same lines
  have hlines := keyLines_pairKey hbare
  rw [htext] at hlines
  have hkeys : keyTexts (bareText text) = (keyTexts text).map bareText := by
    rw [← map_fst_keyLines text, hlines, ← map_fst_keyLines, List.map_map, List.map_map]
    exact List.map_congr_left fun line _ => (bareText_pairKey line.1).symm
  have hduplicates : duplicates (bareText text) =
      (duplicates text).map (Duplicate.mapKey bareText) := by
    rw [duplicates_eq_repeats, duplicates_eq_repeats, hlines, repeats_map pairKey_injective,
      List.map_map]
    refine (List.map_id _).symm.trans (List.map_congr_left fun d _ => ?_)
    simp [Duplicate.mapKey, bareText_pairKey]
  refine ⟨hkeys, fun key => ?_, ?_, hduplicates⟩
  · simp only [mem_keys_iff, hkeys, List.mem_map]
  · -- both texts have as many places of keys and as many duplicates
    have hsize := size_keys_add_length_duplicates text
    have hsize' := size_keys_add_length_duplicates (bareText text)
    have hsites : (keySites (bareText text)).length = (keySites text).length := by
      have hlength := congrArg List.length hkeys
      simpa [keyTexts] using hlength
    rw [hduplicates, List.length_map] at hsize'
    omega

theorem keys_bareText_of_spanning_key :
    let text := "msgid\r\n \"a\r\nb\"\r\nmsgstr \"\"\r\nmsgid \"a\r\nb\""
    EndsPaired text.toList ∧ duplicates text = [⟨"a\r\nb", 5, 2⟩] ∧
      duplicates (bareText text) = [⟨"a\nb", 5, 2⟩] := by
  intro text
  have hpaired : EndsPaired text.toList := by decide +kernel
  have hduplicates : duplicates text = [⟨"a\r\nb", 5, 2⟩] := by decide +kernel
  refine ⟨hpaired, hduplicates, ?_⟩
  rw [(keys_bareText hpaired).2.2.2, hduplicates]
  decide +kernel

end MessageCatalog.Catalog
