import MessageCatalog.Proofs.CommandLine.Check
import MessageCatalog.Proofs.Scan.Rescan

/-!
# The catalog after a scan

What a scan wrote is read back key by key if no quote of a key ends its line and no file that
contributed has a name that opens a key (`keyTexts_scannedCatalog`).

So the catalog holds every key that was extracted, no duplicate comes in, those that were there
keep their lines, and there is one more key for each entry that was added (`scan_is_complete`).
-/

namespace MessageCatalog.Scan

open Catalog FileSystem CommandLine

variable {fs : FileSystem} {name : FunctionName} {texts : Path → String} {target : Target}
  {path : Path} {files : List Path} {before : Option String}

/-! ### What is extracted -/

/-- A key that is extracted from the file at a path. -/
def Extracts (fs : FileSystem) (name : FunctionName) (p : Path) (key : String) : Prop :=
  ∃ text, fs.textAt p = .ok text ∧ key ∈ Call.literals name text

theorem extracts_iff {p : Path} {text key : String} (htext : fs.textAt p = .ok text) :
    Extracts fs name p key ↔ key ∈ Call.literals name text := by
  simp [Extracts, htext]

/-! ### Reading the catalog -/

private theorem exists_report_of_mem_contributions {known : KeySet} {e : Entry}
    (he : e ∈ (contributions name texts known files).flatten) :
    ∃ report ∈ List.zipWith (reportOn name texts) files (contributions name texts known files),
      0 < report.added ∧ e.sourceRef = sourceRef report.path := by
  obtain ⟨entries, hentries, hmem⟩ := List.mem_flatten.mp he
  obtain ⟨i, hi, rfl⟩ := List.mem_mapIdx.mp hentries
  refine ⟨reportOn name texts files[i] (contribution name texts known (files.take i) files[i]),
    ?_, List.length_pos_of_mem hmem, ?_⟩
  · refine List.mem_iff_getElem.mpr ⟨i, by simpa [contributions] using hi, ?_⟩
    simp [contributions]
  · rw [eq_untranslated_of_mem_contribution hmem]
    rfl

section Readback

variable (hrefs : ∀ e ∈ (contributions name texts (keysBefore before) files).flatten,
    ¬ HoldsOpening e.sourceRef.toList)
  (hquotes : ∀ p ∈ files, ∀ key ∈ Call.literals name (texts p), ¬ HoldsLineEndingQuote key.toList)

include hrefs hquotes

/-- What a scan wrote is read as the keys that it added. -/
theorem keyTexts_textOfList_contributions :
    keyTexts (Entry.textOfList (contributions name texts (keysBefore before) files).flatten) =
      (contributions name texts (keysBefore before) files).flatten.map Entry.key := by
  have hread := (keyTexts_append_eq_iff extensible_empty hrefs
    untranslated_contributions.not_holdsOpening).mpr fun e he => by
      obtain ⟨⟨p, hp, hkey⟩, -⟩ := mem_keys_contributions_iff.mp (List.mem_map_of_mem he)
      exact hquotes p hp _ hkey
  rwa [String.empty_append, keyTexts_empty, List.nil_append] at hread

variable (hextensible : Extensible (before.getD ""))

include hextensible

/-- Behind the keys that the catalog held stand those that a scan added. -/
theorem keyTexts_scannedCatalog :
    keyTexts ((scannedCatalog name texts before files).getD "") =
      keyTexts (before.getD "") ++
        (contributions name texts (keysBefore before) files).flatten.map Entry.key := by
  rw [scannedCatalog, getD_catalogAfter,
    hextensible.keyTexts_append (Entry.startsPlainly_textOfList _),
    keyTexts_textOfList_contributions hrefs hquotes]

/-- The duplicates of a catalog are the same after a scan, their lines included. -/
private theorem duplicates_scannedCatalog :
    duplicates ((scannedCatalog name texts before files).getD "") =
      duplicates (before.getD "") := by
  rw [scannedCatalog, getD_catalogAfter]
  apply hextensible.duplicates_append (Entry.startsPlainly_textOfList _)
  · rw [keyTexts_textOfList_contributions hrefs hquotes]
    exact nodup_keys_contributions
  · intro key hkey hbefore
    rw [keyTexts_textOfList_contributions hrefs hquotes] at hkey
    exact (mem_keys_contributions_iff.mp hkey).2 (mem_keysBefore_iff.mpr hbefore)

private theorem mem_keyTexts_scannedCatalog_iff {key : String} :
    key ∈ keyTexts ((scannedCatalog name texts before files).getD "") ↔
      key ∈ keyTexts (before.getD "") ∨ ∃ p ∈ files, key ∈ Call.literals name (texts p) := by
  rw [keyTexts_scannedCatalog hrefs hquotes hextensible, List.mem_append,
    mem_keys_contributions_iff, mem_keysBefore_iff]
  constructor
  · exact Or.imp_right And.left
  · rintro (hold | hextracted)
    · exact .inl hold
    · by_cases hold : key ∈ keyTexts (before.getD "")
      · exact .inl hold
      · exact .inr ⟨hextracted, hold⟩

end Readback

/-! ### A whole scan -/

/-- **A successful scan is complete and introduces no duplicate.**  The catalog is judged once its
directory is there, and the keys are those of the files as they stood then. -/
theorem scan_is_complete {summary : Summary}
    (hcollect : fs.answer (collectFiles target) = .ok files)
    (hbefore : (prepared fs path).fileBytes? path = before.map String.toUTF8)
    (hextensible : Extensible (before.getD ""))
    (hapart : ∀ p ∈ files,
      (prepared fs path).fileLocation? p ≠ (prepared fs path).fileLocation? path)
    (hscan : fs.answer (scan name target path) = .ok summary)
    (hnames : ∀ report ∈ summary.files, 0 < report.added →
      ¬ HoldsOpening (sourceRef report.path).toList)
    (hquotes : ∀ p ∈ files, ∀ key, Extracts (prepared fs path) name p key →
      ¬ HoldsLineEndingQuote key.toList) :
    let scanned := fs.after (scan name target path)
    ∃ after : Option String, scanned.fileBytes? path = after.map String.toUTF8 ∧
      (∀ key, key ∈ keys (after.getD "") ↔ key ∈ keys (before.getD "") ∨
        ∃ p ∈ files, Extracts (prepared fs path) name p key) ∧
      duplicates (after.getD "") = duplicates (before.getD "") ∧
      (keyTexts (after.getD "")).length =
        (keyTexts (before.getD "")).length + summary.entriesAdded ∧
      (before.getD "" = "" → ∀ text, after = some text →
        scanned.answer (checkFile path) = .ok ⟨summary.entriesAdded, []⟩ ∧
          ∀ colored, (runCheck colored path : StateM FileSystem Output) scanned =
            (⟨0, checkReport colored path ⟨summary.entriesAdded, []⟩, ""⟩, scanned)) := by
  intro scanned
  obtain ⟨texts, hsources⟩ := exists_isSource_of_scanFiles hbefore hapart
    (run_scanFiles_of_scan hcollect hscan)
  obtain ⟨progress, hmerged, rfl⟩ := merged_of_scan hcollect hbefore hsources hscan
  rw [hmerged.reports] at hnames ⊢
  have hextracts : ∀ p ∈ files, ∀ key, Extracts (prepared fs path) name p key ↔
      key ∈ Call.literals name (texts p) := fun p hp key => extracts_iff (hsources p hp).textAt
  -- every entry comes from a file whose report counts it, so that its source reference opens no key
  have hrefs : ∀ e ∈ (contributions name texts (keysBefore before) files).flatten,
      ¬ HoldsOpening e.sourceRef.toList := by
    intro e he
    obtain ⟨report, hreport, hadded, href⟩ := exists_report_of_mem_contributions he
    rw [href]
    exact hnames report hreport hadded
  have hplain : ∀ p ∈ files, ∀ key ∈ Call.literals name (texts p),
      ¬ HoldsLineEndingQuote key.toList :=
    fun p hp key hkey => hquotes p hp key ((hextracts p hp key).mpr hkey)
  -- hence what the scan wrote is read back entry by entry behind the old keys
  have hduplicates := duplicates_scannedCatalog hrefs hplain hextensible
  have hcount := congrArg List.length (keyTexts_scannedCatalog hrefs hplain hextensible)
  rw [List.length_append, List.length_map, ← entriesAdded_eq path before.isSome] at hcount
  refine ⟨_, hmerged.fileBytes? hbefore, fun key => ?_, hduplicates, hcount, ?_⟩
  · rw [mem_keys_iff, mem_keys_iff, mem_keyTexts_scannedCatalog_iff hrefs hplain hextensible]
    exact or_congr_right (exists_congr fun p => and_congr_right fun hp => (hextracts p hp key).symm)
  · intro hnothing text htext
    have hfile : scanned.fileBytes? path = some text.toUTF8 := by
      rw [hmerged.fileBytes? hbefore, htext]
      rfl
    rw [htext, hnothing, Option.getD_some, duplicates_empty] at hduplicates
    rw [htext, hnothing, Option.getD_some, keyTexts_empty, List.length_nil, Nat.zero_add] at hcount
    rw [← hcount]
    refine ⟨?_, fun colored => ?_⟩
    · rw [answer, run_checkFile hfile, keyCheck_ofText_eq, hduplicates]
    · rw [runCheck_eq hfile, hduplicates]
      rfl

/-- A catalog that holds a key twice is extended by what two files share. -/
theorem scan_is_complete_on_site :
    let fs := siteWithCatalog "t(\"Save\"); t(\"Open\")".toUTF8 "t(\"Open\"); t(\"Close\")".toUTF8
      "msgid \"Close\"\nmsgid \"Close\"\n".toUTF8
    ∃ after : Option String, (fs.after (scan siteFunction siteTarget siteCatalog)).fileBytes?
        siteCatalog = after.map String.toUTF8 ∧
      "Open" ∈ keys (after.getD "") ∧ duplicates (after.getD "") = [⟨"Close", 2, 1⟩] ∧
      (keyTexts (after.getD "")).length = 4 := by
  intro fs
  have htexts : ∀ p ∈ siteFiles, (prepared fs siteCatalog).textAt p =
      .ok (siteTexts "t(\"Save\"); t(\"Open\")" "t(\"Open\"); t(\"Close\")" p) := by decide +kernel
  have hplain : ∀ p ∈ siteFiles, ∀ key ∈ Call.literals siteFunction
      (siteTexts "t(\"Save\"); t(\"Open\")" "t(\"Open\"); t(\"Close\")" p),
        ¬ HoldsLineEndingQuote key.toList := by decide +kernel
  have hopen : Extracts (prepared fs siteCatalog) siteFunction ⟨"/site/Main.cs"⟩ "Open" :=
    ⟨_, htexts _ (by decide), by decide +kernel⟩
  obtain ⟨after, hbytes, hkeys, hduplicates, hcount, -⟩ := scan_is_complete
    (show fs.answer (collectFiles siteTarget) = .ok siteFiles by decide +kernel)
    (show (prepared fs siteCatalog).fileBytes? siteCatalog =
      (some "msgid \"Close\"\nmsgid \"Close\"\n").map String.toUTF8 by decide +kernel)
    (by decide +kernel)
    (by decide +kernel)
    (show fs.answer (scan siteFunction siteTarget siteCatalog) =
      .ok ⟨siteCatalog, true, [⟨⟨"/site/Main.cs"⟩, 2, 2⟩, ⟨⟨"/site/Other.cs"⟩, 2, 0⟩]⟩
      by decide +kernel)
    (by decide +kernel)
    (fun p hp key hkey => hplain p hp key ((extracts_iff (htexts p hp)).mp hkey))
  refine ⟨after, hbytes, (hkeys "Open").mpr (.inr ⟨_, by decide, hopen⟩), ?_, ?_⟩
  · rw [hduplicates]
    decide +kernel
  · rw [hcount]
    decide +kernel

end MessageCatalog.Scan
