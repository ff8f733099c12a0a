import MessageCatalog.Catalog.Duplicate
import MessageCatalog.Proofs.Catalog.Readback
import MessageCatalog.Proofs.Text.LineNumber

/-!
# Duplicates in a catalog that is extended

The keys of a text that goes on stay at their lines (`Extensible.exists_keyLines_append`).  If the
keys behind it are pairwise different and new, no duplicate comes in and none goes away, and each
keeps its two line numbers (`Extensible.duplicates_append`).
-/

namespace MessageCatalog.Catalog

open Text

/-! ### Keys and their lines -/

theorem KeySite.ofEnclosures_append (offset : Nat) (first second : List Enclosure) :
    ofEnclosures offset (first ++ second) = ofEnclosures offset first ++
      ofEnclosures (offset + byteLength (first.map Enclosure.text).flatten) second := by
  induction first generalizing offset with
  | nil => simp [ofEnclosures]
  | cons e first ih => simp [ofEnclosures, ih, Nat.add_assoc]

private theorem KeySite.offset_le_of_mem_ofEnclosures {enclosures : List Enclosure} {offset : Nat}
    {site : KeySite} (h : site ∈ ofEnclosures offset enclosures) :
    site.offset ≤ offset + byteLength (enclosures.map Enclosure.text).flatten := by
  induction enclosures generalizing offset with
  | nil => cases h
  | cons e enclosures ih =>
      have htext : byteLength e.lead ≤ byteLength e.text := by
        simp only [Enclosure.lead, Enclosure.text, byteLength_append]
        omega
      simp only [List.map_cons, List.flatten_cons, byteLength_append]
      rcases List.mem_cons.mp h with rfl | h
      · dsimp only
        omega
      · have hle := ih h
        omega

private theorem offset_le_of_mem_keySites {text : String} {site : KeySite}
    (h : site ∈ keySites text) :
    site.offset ≤ byteLength text.toList := by
  have htext := Cut.text_ofText keyOpening keyClosing text.toList
  have hle := KeySite.offset_le_of_mem_ofEnclosures h
  calc site.offset
      ≤ byteLength ((keyCut text.toList).enclosures.map Enclosure.text).flatten := by
        rwa [Nat.zero_add] at hle
    _ ≤ byteLength text.toList := by
        conv => rhs; rw [← htext]
        rw [Cut.text, byteLength_append]
        exact Nat.le_add_right _ _

private theorem Extensible.exists_keySites_append {text₁ text₂ : String} (h : Extensible text₁)
    (hplain : StartsPlainly text₂.toList) :
    ∃ others, keySites (text₁ ++ text₂) = keySites text₁ ++ others ∧
      others.map KeySite.key = keyTexts text₂ := by
  obtain ⟨others, henclosures, hbodies⟩ := Cut.exists_enclosures_append
    (settled_keyOpening h.wholeLines hplain) (settled_keyClosing h.wholeLines _)
    (mt keyOpening_occursIn_iff.mp h.tail)
  refine ⟨KeySite.ofEnclosures
    (0 + byteLength ((keyCut text₁.toList).enclosures.map Enclosure.text).flatten) others, ?_, ?_⟩
  · rw [keySites, String.toList_append, keyCut, henclosures, KeySite.ofEnclosures_append]
    rfl
  · rw [map_key_ofEnclosures, keyTexts_eq, keyBodies, keyCut, ← hbodies, List.map_map]
    rfl

/-- The keys of a text to which entries can be added stay at their lines. -/
theorem Extensible.exists_keyLines_append {text₁ text₂ : String} (h : Extensible text₁)
    (hplain : StartsPlainly text₂.toList) :
    ∃ others, keyLines (text₁ ++ text₂) = keyLines text₁ ++ others ∧
      others.map Prod.fst = keyTexts text₂ := by
  obtain ⟨others, hsites, hkeys⟩ := h.exists_keySites_append hplain
  have hfront : (keySites text₁).map (fun site => (site.key,
        (LineIndex.ofText (text₁ ++ text₂).toList).lineAt site.offset)) = keyLines text₁ := by
    refine List.map_congr_left fun site hsite => ?_
    rw [String.toList_append,
      LineIndex.lineAt_ofText_append _ (offset_le_of_mem_keySites hsite)]
  refine ⟨others.map fun site => (site.key,
    (LineIndex.ofText (text₁ ++ text₂).toList).lineAt site.offset), ?_, ?_⟩
  · rw [← hfront, ← List.map_append, ← hsites]
    rfl
  · rw [← hkeys, List.map_map]
    rfl

theorem map_fst_keyLines (text : String) : (keyLines text).map Prod.fst = keyTexts text := by
  simp [keyLines, keyTexts]

/-! ### Duplicates -/

namespace Duplicate

private theorem ofKeyLines_eq_nil {firstLines : Std.TreeMap String Nat}
    {lines : List (String × Nat)} (hnodup : (lines.map Prod.fst).Nodup)
    (hnew : ∀ line ∈ lines, line.1 ∉ firstLines) :
    ofKeyLines firstLines lines = [] := by
  induction lines generalizing firstLines with
  | nil => rfl
  | cons line lines ih =>
      obtain ⟨hline, hnodup⟩ := List.nodup_cons.mp hnodup
      obtain ⟨hfirst, hothers⟩ := List.forall_mem_cons.mp hnew
      have hnone : firstLines[line.1]? = none := Std.TreeMap.getElem?_eq_none hfirst
      simp only [ofKeyLines, hnone]
      refine ih hnodup fun other hother hmem => ?_
      rcases Std.TreeMap.mem_insert.mp hmem with hsame | hmem
      · have heq : line.1 = other.1 := Std.LawfulEqCmp.eq_of_compare hsame
        exact hline (heq ▸ List.mem_map_of_mem hother)
      · exact hothers other hother hmem

/-- Behind some keys, keys that are pairwise different and new change nothing. -/
theorem ofKeyLines_append {firstLines : Std.TreeMap String Nat}
    {lines added : List (String × Nat)} (hnodup : (added.map Prod.fst).Nodup)
    (hnew : ∀ line ∈ added, line.1 ∉ firstLines ∧ line.1 ∉ lines.map Prod.fst) :
    ofKeyLines firstLines (lines ++ added) = ofKeyLines firstLines lines := by
  induction lines generalizing firstLines with
  | nil => exact ofKeyLines_eq_nil hnodup fun line hline => (hnew line hline).1
  | cons first lines ih =>
      have hothers : ∀ line ∈ added, line.1 ∉ lines.map Prod.fst := fun line hline hmem =>
        (hnew line hline).2 (List.mem_cons_of_mem _ hmem)
      simp only [List.cons_append, ofKeyLines]
      cases firstLines[first.1]? with
      | some firstLine =>
          rw [ih fun line hline => ⟨(hnew line hline).1, hothers line hline⟩]
      | none =>
          refine ih fun line hline => ⟨fun hmem => ?_, hothers line hline⟩
          rcases Std.TreeMap.mem_insert.mp hmem with hsame | hmem
          · have heq : first.1 = line.1 := Std.LawfulEqCmp.eq_of_compare hsame
            exact (hnew line hline).2 (heq ▸ List.mem_cons_self ..)
          · exact (hnew line hline).1 hmem

end Duplicate

@[simp] theorem duplicates_empty : duplicates "" = [] := by
  decide +kernel

/-- **A text whose keys are pairwise different and new brings no duplicate and moves none.** -/
theorem Extensible.duplicates_append {text₁ text₂ : String} (h : Extensible text₁)
    (hplain : StartsPlainly text₂.toList) (hnodup : (keyTexts text₂).Nodup)
    (hnew : ∀ key ∈ keyTexts text₂, key ∉ keyTexts text₁) :
    duplicates (text₁ ++ text₂) = duplicates text₁ := by
  obtain ⟨others, hlines, hkeys⟩ := h.exists_keyLines_append hplain
  unfold duplicates
  rw [hlines]
  refine Duplicate.ofKeyLines_append (by rwa [hkeys]) fun line hline => ⟨by simp, ?_⟩
  rw [map_fst_keyLines]
  exact hnew _ (hkeys ▸ List.mem_map_of_mem hline)

theorem keyCheck_ofText_eq (text : String) :
    KeyCheck.ofText text = ⟨(keyTexts text).length, duplicates text⟩ := by
  simp [KeyCheck.ofText, duplicates, ← map_fst_keyLines]

end MessageCatalog.Catalog
