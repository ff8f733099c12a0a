import MessageCatalog.Proofs.Scan.Ending

/-!
# Scanning again

What scans write are untranslated entries, so a catalog that only scans have written
(`ScanMade`) is the text of such entries (`ScanMade.exists_entries`), and its keys are read
from them entry by entry.

A scan that is repeated on the same tree succeeds, and what it adds are the literals that
are not read back from the catalog (`rescan_adds_unread`).  If the name of no file opens a key,
these are the literals in which a quote ends its line: the catalog is left alone exactly if
there are none.
-/

namespace MessageCatalog.Scan

open Catalog FileSystem

variable {fs fs' ready : FileSystem} {name : FunctionName} {texts : Path → String}
  {target : Target} {path : Path} {files again : List Path} {before after : Option String}

/-! ### Catalogs that scans made -/

/-- A catalog that is not there, or that was written by successful scans only. -/
inductive ScanMade : Option String → Prop
  | absent : ScanMade none
  | scanned {fs : FileSystem} {name : FunctionName} {target : Target} {path : Path}
      {before after : Option String} {summary : Summary} (hmade : ScanMade before)
      (hbefore : (prepared fs path).fileBytes? path = before.map String.toUTF8)
      (hscan : fs.answer (scan name target path) = .ok summary)
      (hafter : (fs.after (scan name target path)).fileBytes? path =
        after.map String.toUTF8) : ScanMade after

/-- Entries without a translation. -/
def Untranslated (entries : List Entry) : Prop :=
  ∀ e ∈ entries, e.translation = ""

private theorem untranslated_newEntries (known : KeySet) (p : Path) (literals : List String) :
    Untranslated (newEntries known p literals) := by
  intro e he
  obtain ⟨key, -, rfl⟩ := List.mem_map.mp he
  rfl

private theorem exists_written_of_run_foldlM {written : List Entry}
    {progress progress' : Progress (StateM FileSystem)}
    (h : Written ready path before written progress.writer fs)
    (hbefore : ready.fileBytes? path = before.map String.toUTF8)
    (hrun : fs.run (files.foldlM (mergeFile name path (modeFor before)) progress) =
      (.ok progress', fs')) :
    ∃ added, Untranslated added ∧
      Written ready path before (written ++ added) progress'.writer fs' := by
  induction files generalizing written progress fs with
  | nil =>
      cases hrun
      exact ⟨[], by simp [Untranslated], by rwa [List.append_nil]⟩
  | cons p files ih =>
      obtain ⟨text, progress₁, fs₁, -, hwritten, hrest⟩ := h.exists_run_foldlM_of_cons hbefore hrun
      obtain ⟨others, hothers, hlast⟩ := ih hwritten hrest
      refine ⟨_, fun e he => ?_, by rwa [List.append_assoc] at hlast⟩
      exact (List.mem_append.mp he).elim (untranslated_newEntries _ _ _ e) (hothers e)

private theorem exists_added_of_scan {summary : Summary}
    (hbefore : (prepared fs path).fileBytes? path = before.map String.toUTF8)
    (hscan : fs.answer (scan name target path) = .ok summary) :
    ∃ added, Untranslated added ∧ (fs.after (scan name target path)).fileBytes? path =
      (catalogAfter before added).map String.toUTF8 := by
  obtain ⟨files, hcollect⟩ := exists_collectFiles_of_scan hscan
  obtain ⟨progress, hmerge, -⟩ := exists_run_foldlM_of_scan hcollect hbefore hscan
  obtain ⟨added, hadded, hwritten⟩ := exists_written_of_run_foldlM .nothing hbefore hmerge
  exact ⟨added, hadded, hwritten.fileBytes? hbefore⟩

/-- **A catalog that scans made is the text of untranslated entries.** -/
theorem ScanMade.exists_entries (h : ScanMade before) :
    ∃ entries, Untranslated entries ∧ before.getD "" = Entry.textOfList entries := by
  induction h with
  | absent => exact ⟨[], by simp [Untranslated], rfl⟩
  | @scanned _ _ _ _ before after _ _ hbefore hscan hafter ih =>
      obtain ⟨entries, hentries, htext⟩ := ih
      obtain ⟨added, hadded, hwritten⟩ := exists_added_of_scan hbefore hscan
      have hsame : after = catalogAfter before added := by
        refine Option.map_injective (fun s t hst => ?_) (hafter.symm.trans hwritten)
        exact String.toByteArray_inj.mp hst
      subst hsame
      refine ⟨entries ++ added,
        fun e he => (List.mem_append.mp he).elim (hentries e) (hadded e), ?_⟩
      unfold catalogAfter
      split
      · rename_i hnil
        rw [hnil, List.append_nil, htext]
      · rw [Option.getD_some, htext, Entry.textOfList_append]

/-! ### Reading what a scan wrote -/

theorem Untranslated.not_holdsOpening {entries : List Entry} (h : Untranslated entries) :
    ∀ e ∈ entries, ¬ HoldsOpening (e.translation.toList ++ ['"']) := by
  intro e he
  rw [h e he]
  decide

/-- Untranslated entries behind a text are read for themselves. -/
def ReadsOn (text : String) : Prop :=
  ∀ entries, Untranslated entries →
    keyTexts (text ++ Entry.textOfList entries) =
      keyTexts text ++ entries.flatMap fun e => keyTexts e.text

theorem readsOn_of_extensible {text : String} (h : Extensible text) : ReadsOn text :=
  fun _ hentries => keyTexts_append_textOfList h hentries.not_holdsOpening

private theorem ScanMade.readsOn (h : ScanMade before) : ReadsOn (before.getD "") := by
  intro added hadded
  obtain ⟨entries, hentries, htext⟩ := h.exists_entries
  -- both the old entries and the new ones are read one by one from the start of the catalog
  have hread : ∀ es, Untranslated es →
      keyTexts (Entry.textOfList es) = es.flatMap fun e => keyTexts e.text := by
    intro es hes
    have hempty := readsOn_of_extensible extensible_empty es hes
    rwa [String.empty_append, keyTexts_empty, List.nil_append] at hempty
  rw [htext, ← Entry.textOfList_append, hread entries hentries,
    hread _ fun e he => (List.mem_append.mp he).elim (hentries e) (hadded e), List.flatMap_append]

theorem mem_keysBefore_iff {key : String} :
    key ∈ keysBefore before ↔ key ∈ keyTexts (before.getD "") := by
  cases before with
  | none => simp [keysBefore]
  | some text => exact mem_keys_iff

theorem getD_catalogAfter (before : Option String) (entries : List Entry) :
    (catalogAfter before entries).getD "" = before.getD "" ++ Entry.textOfList entries := by
  unfold catalogAfter
  split
  · rename_i hnil
    rw [hnil, Entry.textOfList_nil, String.append_empty]
  · rfl

theorem untranslated_contributions {known : KeySet} :
    Untranslated (contributions name texts known files).flatten := by
  intro e he
  obtain ⟨entries, hentries, he⟩ := List.mem_flatten.mp he
  obtain ⟨i, hi, rfl⟩ := List.mem_mapIdx.mp hentries
  rw [eq_untranslated_of_mem_contribution he]
  rfl

/-- The keys of a catalog after a scan are those it held before and those read from what the scan
wrote. -/
theorem mem_keysBefore_scannedCatalog_iff (hreads : ReadsOn (before.getD "")) {key : String} :
    key ∈ keysBefore (scannedCatalog name texts before files) ↔
      key ∈ keysBefore before ∨
        ∃ e ∈ (contributions name texts (keysBefore before) files).flatten,
          key ∈ keyTexts e.text := by
  rw [mem_keysBefore_iff, scannedCatalog, getD_catalogAfter, hreads _ untranslated_contributions,
    List.mem_append, ← mem_keysBefore_iff, List.mem_flatMap]

private theorem not_holdsLineEndingQuote_of_mem_keysBefore {key : String}
    (h : key ∈ keysBefore before) :
    ¬ HoldsLineEndingQuote key.toList :=
  not_holdsLineEndingQuote_of_mem_keyTexts (mem_keysBefore_iff.mp h)

/-- The names of some files open no key. -/
def PlainNames (files : List Path) : Prop :=
  ∀ p ∈ files, ¬ HoldsOpening (sourceRef p).toList

instance (files : List Path) : Decidable (PlainNames files) :=
  inferInstanceAs (Decidable (∀ p ∈ files, ¬ HoldsOpening (sourceRef p).toList))

/-- Entries for files with plain names are read back unless a quote of their key ends its line. -/
theorem keyTexts_of_mem_contributions {known : KeySet} (hnames : PlainNames files) {e : Entry}
    (he : e ∈ (contributions name texts known files).flatten)
    (hkey : ¬ HoldsLineEndingQuote e.key.toList) : keyTexts e.text = [e.key] := by
  obtain ⟨entries, hentries, hmem⟩ := List.mem_flatten.mp he
  obtain ⟨i, hi, rfl⟩ := List.mem_mapIdx.mp hentries
  refine Entry.keyTexts_text ?_ (untranslated_contributions.not_holdsOpening e he) hkey
  rw [eq_untranslated_of_mem_contribution hmem]
  exact hnames _ (List.getElem_mem hi)

/-- What the catalog held and what the files hold is read from the catalog after the scan, unless
a quote ends its line. -/
theorem mem_keysBefore_scannedCatalog (hreads : ReadsOn (before.getD ""))
    (hnames : PlainNames files) {key : String} (hkey : ¬ HoldsLineEndingQuote key.toList)
    (hknown : key ∈ keysBefore before ∨ ∃ p ∈ files, key ∈ Call.literals name (texts p)) :
    key ∈ keysBefore (scannedCatalog name texts before files) := by
  rw [mem_keysBefore_scannedCatalog_iff hreads]
  by_cases hbefore : key ∈ keysBefore before
  · exact .inl hbefore
  · right
    have hadded := mem_keys_contributions_iff.mpr ⟨hknown.resolve_left hbefore, hbefore⟩
    obtain ⟨e, he, rfl⟩ := List.mem_map.mp hadded
    exact ⟨e, he, by rw [keyTexts_of_mem_contributions hnames he hkey]; simp⟩

/-! ### The second scan -/

theorem entriesAdded_eq (path : Path) (existed : Bool) (known : KeySet) :
    (Summary.mk path existed (List.zipWith (reportOn name texts) files
      (contributions name texts known files))).entriesAdded =
        (contributions name texts known files).flatten.length := by
  have hlength : files.length = (contributions name texts known files).length := by
    simp [contributions]
  generalize contributions name texts known files = contributed at hlength ⊢
  induction files generalizing contributed with
  | nil =>
      obtain rfl := List.length_eq_zero_iff.mp hlength.symm
      rfl
  | cons p files ih =>
      cases contributed with
      | nil => cases hlength
      | cons entries contributed =>
          rw [List.flatten_cons, List.length_append, ← ih contributed (Nat.succ.inj hlength)]
          rfl

private theorem opens_of_scannedCatalog
    (hafter : fs.fileBytes? path = (scannedCatalog name texts before files).map String.toUTF8)
    (hsame : ∀ p ∈ again, p ∈ files)
    (hne : (contributions name texts (keysBefore (scannedCatalog name texts before files))
      again).flatten ≠ []) : Opens fs path (scannedCatalog name texts before files) := by
  by_cases hwritten : (contributions name texts (keysBefore before) files).flatten = []
  · rw [scannedCatalog, hwritten, catalogAfter, if_pos rfl] at hne
    have hknown := flatten_contributions_eq_nil_iff.mp hwritten
    exact absurd (flatten_contributions_eq_nil_iff.mpr fun p hp => hknown p (hsame p hp)) hne
  · rw [scannedCatalog, catalogAfter, if_neg hwritten] at hafter ⊢
    exact opens_of_some (fileBytes?_eq_some_iff.mp hafter)

/-- **What a repeated scan adds are the literals that are not read back from the catalog.**  A scan
that succeeded succeeds again on a tree in which no other files are found.  It adds nothing, and
leaves every file as it is, exactly if every literal is among the keys of the catalog.  If the name
of no file opens a key, that is the case exactly if no literal holds a quote that ends its
line. -/
theorem rescan_adds_unread {summary : Summary}
    (hcollect : fs.answer (collectFiles target) = .ok files)
    (hreadable : ∀ p ∈ files, fs.textAt p = .ok (texts p))
    (hbefore : (prepared fs path).fileBytes? path = before.map String.toUTF8)
    (hmade : ScanMade before)
    (hapart : ∀ p ∈ files,
      (prepared fs path).fileLocation? p ≠ (prepared fs path).fileLocation? path)
    (hscan : fs.answer (scan name target path) = .ok summary)
    (hagain : (fs.after (scan name target path)).answer (collectFiles target) = .ok again)
    (hsame : ∀ p ∈ again, p ∈ files) :
    let scanned := fs.after (scan name target path)
    ∃ second after, scanned.answer (scan name target path) = .ok second ∧
      scanned.fileBytes? path = after.map String.toUTF8 ∧
      (second.entriesAdded = 0 ↔
        ∀ p ∈ again, ∀ key ∈ Call.literals name (texts p), key ∈ keysBefore after) ∧
      (PlainNames files → (second.entriesAdded = 0 ↔
        ∀ p ∈ again, ∀ key ∈ Call.literals name (texts p), ¬ HoldsLineEndingQuote key.toList)) ∧
      (second.entriesAdded = 0 → scanned.after (scan name target path) = scanned) := by
  intro scanned
  have hprepare := answer_prepareDirectory_of_scan hcollect hscan
  have hsources : ∀ p ∈ files, IsSource (prepared fs path) path p (texts p) :=
    fun p hp => isSource_prepared (hreadable p hp) (hapart p hp)
  obtain ⟨progress, hmerged, -⟩ := merged_of_scan hcollect hbefore hsources hscan
  have hwritten : Written (prepared fs path) path before
      (contributions name texts (keysBefore before) files).flatten progress.writer scanned :=
    hmerged.written
  have hafter := hmerged.fileBytes? hbefore
  -- the directory of the catalog is there, so the second scan starts from what the first one left
  have hready : scanned.run (prepareDirectory path) = (.ok (), scanned) :=
    run_prepareDirectory_again hprepare hwritten.grows
  have hprepared : prepared scanned path = scanned := congrArg Prod.snd hready
  have hopens : (contributions name texts (keysBefore (scannedCatalog name texts before files))
      again).flatten ≠ [] → Opens scanned path (scannedCatalog name texts before files) :=
    opens_of_scannedCatalog hafter hsame
  obtain ⟨progress', last, hmerged', hrun⟩ := exists_run_scan name hagain
    (congrArg Prod.fst hready) (by rwa [hprepared])
    (fun p hp => by rw [hprepared]; exact hwritten.isSource (hsources p (hsame p hp)))
    (by rwa [hprepared])
  rw [hprepared] at hmerged'
  refine ⟨_, _, congrArg Prod.fst hrun, hafter, ?_, ?_, ?_⟩
  · rw [entriesAdded_eq, List.length_eq_zero_iff, flatten_contributions_eq_nil_iff]
  · intro hnames
    rw [entriesAdded_eq, List.length_eq_zero_iff, flatten_contributions_eq_nil_iff]
    refine forall₂_congr fun p hp => forall₂_congr fun key hkey => ⟨?_, fun hquote => ?_⟩
    · exact not_holdsLineEndingQuote_of_mem_keysBefore
    · exact mem_keysBefore_scannedCatalog hmade.readsOn hnames hquote
        (.inr ⟨p, hsame p hp, hkey⟩)
  · intro hnothing
    rw [entriesAdded_eq, List.length_eq_zero_iff] at hnothing
    have hlast := hmerged'.written
    rw [hnothing] at hlast
    exact (congrArg Prod.snd hrun).trans hlast.eq_ready

/-- A call that goes on behind its literal on the same line is read back. -/
theorem rescan_adds_nothing_to_site :
    ∃ second,
      ((site "t(\"Save \" + name + \"!\")".toUTF8 "t(\"Open\")".toUTF8).after
          (scan siteFunction siteTarget siteCatalog)).answer
        (scan siteFunction siteTarget siteCatalog) = .ok second ∧ second.entriesAdded = 0 := by
  generalize hfs : site _ _ = fs
  obtain ⟨second, after, hscan, -, -, hplain, -⟩ := rescan_adds_unread
    (show fs.answer (collectFiles siteTarget) = .ok siteFiles by rw [← hfs]; decide +kernel)
    (show ∀ p ∈ siteFiles, fs.textAt p =
      .ok (siteTexts "t(\"Save \" + name + \"!\")" "t(\"Open\")" p)
      by rw [← hfs]; decide +kernel)
    (show (prepared fs siteCatalog).fileBytes? siteCatalog =
        (none : Option String).map String.toUTF8
      by rw [← hfs]; decide +kernel)
    .absent
    (by rw [← hfs]; decide +kernel)
    (show fs.answer (scan siteFunction siteTarget siteCatalog) =
      .ok ⟨siteCatalog, false, [⟨⟨"/site/Main.cs"⟩, 1, 1⟩, ⟨⟨"/site/Other.cs"⟩, 1, 1⟩]⟩
      by rw [← hfs]; decide +kernel)
    (show (fs.after (scan siteFunction siteTarget siteCatalog)).answer (collectFiles siteTarget) =
      .ok siteFiles by rw [← hfs]; decide +kernel)
    (fun p hp => hp)
  exact ⟨second, hscan, (hplain (by decide +kernel)).mpr (by decide +kernel)⟩

/-- A call that goes on in the line behind its literal is added again by every scan. -/
theorem rescan_adds_split_call :
    let fs := site "var s = t(\"Name: \"\n    + name + \"!\");".toUTF8 "".toUTF8
    let scanned := fs.after (scan siteFunction siteTarget siteCatalog)
    fs.answer (scan siteFunction siteTarget siteCatalog) =
        .ok ⟨siteCatalog, false, [⟨⟨"/site/Main.cs"⟩, 1, 1⟩, ⟨⟨"/site/Other.cs"⟩, 0, 0⟩]⟩ ∧
      scanned.answer (collectFiles siteTarget) = fs.answer (collectFiles siteTarget) ∧
      scanned.answer (scan siteFunction siteTarget siteCatalog) =
        .ok ⟨siteCatalog, true, [⟨⟨"/site/Main.cs"⟩, 1, 1⟩, ⟨⟨"/site/Other.cs"⟩, 0, 0⟩]⟩ ∧
      (scanned.after (scan siteFunction siteTarget siteCatalog)).fileBytes? siteCatalog ≠
        scanned.fileBytes? siteCatalog := by
  decide +kernel

end MessageCatalog.Scan
