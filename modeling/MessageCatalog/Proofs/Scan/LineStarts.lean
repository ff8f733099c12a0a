import MessageCatalog.Proofs.Catalog.Line
import MessageCatalog.Proofs.Scan.Rescan

/-!
# The lines of a scanned catalog

A scan appends its entries right behind what the catalog holds.  If the last line of the catalog has
ended, every line stays and every entry starts one.  Otherwise the first entry goes on with that
line, which is then no line of the catalog any more; the other lines stay and the other entries
start lines (`scan_keeps_lines_iff`).
-/

namespace MessageCatalog.Scan

open Catalog FileSystem

variable {fs : FileSystem} {name : FunctionName} {target : Target} {path : Path}
  {files : List Path} {text : String}

private theorem exists_appended_of_scan {summary : Summary}
    (hcollect : fs.answer (collectFiles target) = .ok files)
    (hbefore : (prepared fs path).fileBytes? path = some text.toUTF8)
    (hapart : ∀ p ∈ files,
      (prepared fs path).fileLocation? p ≠ (prepared fs path).fileLocation? path)
    (hscan : fs.answer (scan name target path) = .ok summary) :
    ∃ added : List Entry, added.length = summary.entriesAdded ∧
      (fs.after (scan name target path)).fileBytes? path =
        some (text ++ Entry.textOfList added).toUTF8 := by
  have hthere : (prepared fs path).fileBytes? path = (some text).map String.toUTF8 := hbefore
  obtain ⟨texts, hsources⟩ :=
    exists_isSource_of_scanFiles hthere hapart (run_scanFiles_of_scan hcollect hscan)
  obtain ⟨progress, hmerged, rfl⟩ := merged_of_scan hcollect hthere hsources hscan
  refine ⟨(contributions name texts (keysBefore (some text)) files).flatten, ?_, ?_⟩
  · rw [hmerged.reports, entriesAdded_eq]
  · rw [hmerged.fileBytes? hthere, scannedCatalog, catalogAfter]
    split
    · rename_i hnil
      rw [hnil, Entry.textOfList_nil, String.append_empty]
      rfl
    · rfl

/-- **A scan keeps the lines of the catalog and starts its entries on lines of their own exactly if
the last line of the catalog has ended.**  In any case it keeps all lines but the last one and
starts every entry but the first one on a line of its own. -/
theorem scan_keeps_lines_iff {summary : Summary}
    (hcollect : fs.answer (collectFiles target) = .ok files)
    (hbefore : (prepared fs path).fileBytes? path = some text.toUTF8)
    (hapart : ∀ p ∈ files,
      (prepared fs path).fileLocation? p ≠ (prepared fs path).fileLocation? path)
    (hscan : fs.answer (scan name target path) = .ok summary)
    (hadds : 0 < summary.entriesAdded) :
    ∃ added : List Entry, added.length = summary.entriesAdded ∧
      (fs.after (scan name target path)).fileBytes? path =
        some (text ++ Entry.textOfList added).toUTF8 ∧
      (lines text.toList <+: lines (text ++ Entry.textOfList added).toList ↔
        WholeLines text.toList) ∧
      ((∀ front e back, added = front ++ e :: back →
          WholeLines (text ++ Entry.textOfList front).toList) ↔
        WholeLines text.toList) ∧
      (lines text.toList).dropLast <+: lines (text ++ Entry.textOfList added).toList ∧
      ∀ front e back, added = front ++ e :: back → front ≠ [] →
        WholeLines (text ++ Entry.textOfList front).toList := by
  obtain ⟨added, hlength, hafter⟩ := exists_appended_of_scan hcollect hbefore hapart hscan
  have hne : added ≠ [] := List.ne_nil_of_length_pos (by rwa [hlength])
  refine ⟨added, hlength, hafter, lines_isPrefix_append_textOfList_iff hne, ?_, ?_, ?_⟩
  · constructor
    · intro h
      obtain ⟨e, back, rfl⟩ := List.exists_cons_of_ne_nil hne
      exact (wholeLines_append_textOfList_iff.mp (h [] e back rfl)).resolve_left (absurd rfl)
    · intro h front e back _
      exact wholeLines_append_textOfList_iff.mpr (.inr h)
  · rw [String.toList_append]
    exact dropLast_lines_isPrefix _ _
  · intro front e back _ hfront
    exact wholeLines_append_textOfList_iff.mpr (.inl hfront)

/-- A catalog whose last line has ended keeps its lines. -/
theorem scan_keeps_lines_of_site :
    ∃ added : List Entry, added.length = 2 ∧
      ((siteWithCatalog "t(\"Save\"); t(\"Open\")".toUTF8 "t(\"Close\")".toUTF8
            "msgid \"Close\"\nmsgstr \"Fermer\"\n".toUTF8).after
          (scan siteFunction siteTarget siteCatalog)).fileBytes? siteCatalog =
        some ("msgid \"Close\"\nmsgstr \"Fermer\"\n" ++ Entry.textOfList added).toUTF8 ∧
      lines "msgid \"Close\"\nmsgstr \"Fermer\"\n".toList <+:
        lines ("msgid \"Close\"\nmsgstr \"Fermer\"\n" ++ Entry.textOfList added).toList := by
  generalize hfs : siteWithCatalog _ _ _ = fs
  obtain ⟨added, hlength, hafter, hkept, -⟩ := scan_keeps_lines_iff
    (show fs.answer (collectFiles siteTarget) = .ok siteFiles by rw [← hfs]; decide +kernel)
    (show (prepared fs siteCatalog).fileBytes? siteCatalog =
      some "msgid \"Close\"\nmsgstr \"Fermer\"\n".toUTF8 by rw [← hfs]; decide +kernel)
    (by rw [← hfs]; decide +kernel)
    (show fs.answer (scan siteFunction siteTarget siteCatalog) =
      .ok ⟨siteCatalog, true, [⟨⟨"/site/Main.cs"⟩, 2, 2⟩, ⟨⟨"/site/Other.cs"⟩, 1, 0⟩]⟩
      by rw [← hfs]; decide +kernel)
    (by decide)
  exact ⟨added, hlength, hafter, hkept.mpr (by decide +kernel)⟩

/-- A catalog whose last line has not ended loses that line: the first entry goes on with it. -/
theorem scan_joins_unended_line :
    let fs := siteWithCatalog "t(\"Save\")".toUTF8 "".toUTF8
      "msgid \"Close\"\nmsgstr \"Fermer\"".toUTF8
    fs.answer (scan siteFunction siteTarget siteCatalog) =
        .ok ⟨siteCatalog, true, [⟨⟨"/site/Main.cs"⟩, 1, 1⟩, ⟨⟨"/site/Other.cs"⟩, 0, 0⟩]⟩ ∧
      (fs.after (scan siteFunction siteTarget siteCatalog)).fileBytes? siteCatalog =
        some ("msgid \"Close\"\nmsgstr \"Fermer\"" ++
          Entry.textOfList [.untranslated "Main.cs" "Save"]).toUTF8 ∧
      lines ("msgid \"Close\"\nmsgstr \"Fermer\"" ++
          Entry.textOfList [.untranslated "Main.cs" "Save"]).toList =
        ["msgid \"Close\"".toList, "msgstr \"Fermer\"#: Main.cs\r".toList,
          "msgid \"Save\"\r".toList, "msgstr \"\"\r".toList, "\r".toList] ∧
      "msgstr \"Fermer\"".toList ∈ lines "msgid \"Close\"\nmsgstr \"Fermer\"".toList ∧
      "msgstr \"Fermer\"".toList ∉ lines ("msgid \"Close\"\nmsgstr \"Fermer\"" ++
        Entry.textOfList [.untranslated "Main.cs" "Save"]).toList := by
  decide +kernel

end MessageCatalog.Scan
