import MessageCatalog.Proofs.Catalog.Repetition

/-!
# The lines of keys

A key is closed by a line feed, unless it reaches up to the end of the text and is the last one.
So between the starts of two keys there is a line feed, however many there are inside a key or
between `msgid` and its quote, and the lines of the keys of a text increase from key to key
(`pairwise_lines`).

A duplicate therefore stands on a later line than the first key of its kind, and the report goes
down the text line by line (`duplicates_increase`).
-/

namespace MessageCatalog.Catalog

open Text

/-! ### What closes a key -/

private theorem lineFeed_mem_of_lineEnd? {s m r : List Char} (h : lineEnd? s = some (m, r)) :
    r = [] ∨ '\n' ∈ m := by
  unfold lineEnd? at h
  split at h
  · cases h
    exact .inl rfl
  · split at h
    · cases h
      exact .inr (List.mem_singleton.mpr rfl)
    · split at h
      · split at h
        · cases h
        · split at h
          · cases h
            exact .inr (by simp)
          · cases h
      · cases h

private theorem lineFeed_mem_of_scan_keyClosing {s m r : List Char}
    (h : keyClosing.scan s = some (m, r)) : r = [] ∨ '\n' ∈ m := by
  obtain ⟨⟨padding, lineEnd, rest⟩, hclosing, heq⟩ := Option.map_eq_some_iff.mp h
  cases heq
  unfold keyClosing? at hclosing
  split at hclosing
  · cases hclosing
  · split at hclosing
    · cases hclosing
    · rename_i lineEnd' rest' hlineEnd
      cases hclosing
      rcases lineFeed_mem_of_lineEnd? hlineEnd with hrest | hmem
      · exact .inl hrest
      · exact .inr (List.mem_append_right _ hmem)

private theorem lineFeed_mem_text_of_first? {s r : List Char} {e : Enclosure}
    (h : Enclosure.first? keyOpening keyClosing s = some (e, r)) : r = [] ∨ '\n' ∈ e.closing :=
  lineFeed_mem_of_scan_keyClosing (Token.scan_of_find (Enclosure.first?_eq_some h).2)

/-! ### Lines of keys -/

/-- The lines of the sites of keys in a text. -/
def siteLines (s : List Char) (sites : List KeySite) : List Nat :=
  sites.map fun site => (LineIndex.ofText s).lineAt site.offset

/-- The keys behind some text stand on increasing lines, none before the line that the text
reaches. -/
private theorem siteLines_ofEnclosures (front s : List Char) :
    (siteLines (front ++ s)
        (KeySite.ofEnclosures (byteLength front) (keyCut s).enclosures)).Pairwise (· < ·) ∧
      ∀ line ∈ siteLines (front ++ s)
          (KeySite.ofEnclosures (byteLength front) (keyCut s).enclosures),
        front.count '\n' < line := by
  cases h : Enclosure.first? keyOpening keyClosing s with
  | none =>
      rw [keyCut, Cut.ofText_of_first?_eq_none h]
      simp [siteLines, KeySite.ofEnclosures]
  | some p =>
      obtain ⟨e, r⟩ := p
      have htext : e.text ++ r = s := Enclosure.text_of_first? h
      have hlead : e.text = e.lead ++ (e.body ++ e.closing) := by
        simp [Enclosure.text, Enclosure.lead]
      have hsplit : front ++ s = front ++ e.text ++ r := by rw [← htext, List.append_assoc]
      -- the first key, and the others behind the text up to its end
      have hsites : siteLines (front ++ s)
          (KeySite.ofEnclosures (byteLength front) (keyCut s).enclosures) =
            (1 + (front ++ e.lead).count '\n') :: siteLines (front ++ e.text ++ r)
              (KeySite.ofEnclosures (byteLength (front ++ e.text)) (keyCut r).enclosures) := by
        have hfirst :
            (LineIndex.ofText (front ++ s)).lineAt (byteLength front + byteLength e.lead) =
              1 + (front ++ e.lead).count '\n' := by
          have hfront : front ++ s = (front ++ e.lead) ++ (e.body ++ e.closing ++ r) := by
            rw [← htext, hlead]
            simp only [List.append_assoc]
          rw [hfront, ← byteLength_append, LineIndex.lineAt_byteLength]
        rw [keyCut, Cut.ofText_of_first?_eq_some h, ← hsplit]
        simp only [siteLines, KeySite.ofEnclosures, List.map_cons, hfirst, byteLength_append]
        rfl
      obtain ⟨hincreasing, hbeyond⟩ := siteLines_ofEnclosures (front ++ e.text) r
      rw [hsites]
      have hcount : (front ++ e.text).count '\n' =
          (front ++ e.lead).count '\n' + (e.body ++ e.closing).count '\n' := by
        rw [hlead, ← List.append_assoc, List.count_append]
      refine ⟨List.pairwise_cons.mpr ⟨fun line hline => ?_, hincreasing⟩,
        List.forall_mem_cons.mpr ⟨?_, fun line hline => ?_⟩⟩
      · have hlt := hbeyond line hline
        rcases lineFeed_mem_text_of_first? h with rfl | hmem
        · -- no key is left at the end of the text
          rw [keyCut, Cut.ofText_of_first?_eq_none rfl] at hline
          cases hline
        · have hpos : 0 < (e.body ++ e.closing).count '\n' :=
            List.count_pos_iff.mpr (List.mem_append_right _ hmem)
          omega
      · rw [List.count_append]
        omega
      · have hlt := hbeyond line hline
        rw [List.count_append] at hlt
        omega
termination_by s.length
decreasing_by exact Enclosure.length_of_first? h

/-- **The lines of the keys of a text increase.** -/
theorem pairwise_lines (text : String) : ((keyLines text).map Prod.snd).Pairwise (· < ·) := by
  have hlines := (siteLines_ofEnclosures [] text.toList).1
  have hsame : (keyLines text).map Prod.snd = siteLines text.toList (keySites text) := by
    rw [keyLines, List.map_map]
    rfl
  rw [hsame]
  exact hlines

/-! ### Lines of duplicates -/

private theorem Duplicate.lines_sublist {firstLines : Std.TreeMap String Nat}
    {lines : List (String × Nat)} :
    ((ofKeyLines firstLines lines).map Duplicate.line).Sublist (lines.map Prod.snd) := by
  induction lines generalizing firstLines with
  | nil => exact List.Sublist.slnil
  | cons head lines ih =>
      obtain ⟨key, line⟩ := head
      rw [ofKeyLines]
      cases firstLines[key]? with
      | some firstLine => exact ih.cons_cons line
      | none => exact ih.cons line

private theorem firstLine_lt_line_of_mem_repeats {lines : List (String × Nat)} {d : Duplicate}
    (hincreasing : (lines.map Prod.snd).Pairwise (· < ·)) (h : d ∈ repeats lines) :
    d.firstLine < d.line := by
  obtain ⟨first, place, hlt, hfirst, hplace⟩ := exists_places_of_mem_repeats h
  obtain ⟨hfirstLt, hfirst⟩ := List.getElem?_eq_some_iff.mp hfirst
  obtain ⟨hplaceLt, hplace⟩ := List.getElem?_eq_some_iff.mp hplace
  rw [List.pairwise_map, List.pairwise_iff_getElem] at hincreasing
  have hless := hincreasing first place hfirstLt hplaceLt hlt
  rwa [hfirst, hplace] at hless

/-- **Lines are counted by line feeds, and a report goes down the text.**  The line of a place is
one more than the number of line feeds in front of it, the keys of a text stand on increasing lines,
and each duplicate stands below the first key of its kind and below the duplicate before it. -/
theorem duplicates_increase :
    (∀ front back : String, (LineIndex.ofText (front ++ back).toList).lineAt front.utf8ByteSize =
      1 + front.toList.count '\n') ∧
    ∀ text : String,
      ((keyLines text).map Prod.snd).Pairwise (· < ·) ∧
      (∀ duplicate ∈ duplicates text, duplicate.firstLine < duplicate.line) ∧
      ((duplicates text).map Duplicate.line).Pairwise (· < ·) := by
  constructor
  · intro front back
    rw [String.toList_append, ← byteLength_toList, LineIndex.lineAt_byteLength]
  · intro text
    refine ⟨pairwise_lines text, fun duplicate hduplicate => ?_, ?_⟩
    · rw [duplicates_eq_repeats] at hduplicate
      exact firstLine_lt_line_of_mem_repeats (pairwise_lines text) hduplicate
    · exact (pairwise_lines text).sublist Duplicate.lines_sublist

/-- A key that spans lines is repeated behind one whose quote stands on the next line. -/
theorem duplicates_increase_over_spanning_keys :
    let text := "msgid \"é\r\nb\"\r\nmsgid\n\"é\r\nb\""
    (⟨"é\r\nb", 4, 1⟩ : Duplicate) ∈ duplicates text ∧ 1 < 4 := by
  intro text
  have hmem : (⟨"é\r\nb", 4, 1⟩ : Duplicate) ∈ duplicates text := by decide +kernel
  exact ⟨hmem, (duplicates_increase.2 text).2.1 _ hmem⟩

end MessageCatalog.Catalog
