import MessageCatalog.Proofs.Scan.Rescan

/-!
# Going on after a file that cannot be read

A scan that meets a file that it cannot read stops there: what the files before it contribute
is in the catalog (`merged_of_stopped`).  Once that file is replaced by one that can be read, the
scan is run again, finds these contributions in the catalog, and goes on with what the other
files contribute.  If all that was written is read back, the catalog is the one that a single
scan of the repaired tree writes (`resumed_scan_eq_single_scan`).
-/

namespace MessageCatalog.Scan

open Catalog FileSystem

variable {fs fs' ready repaired resumed : FileSystem} {name : FunctionName}
  {texts : Path → String} {target : Target} {path p : Path} {files front back : List Path}
  {before : Option String} {cause : AccessFault}

/-! ### The stop -/

/-- **A scan that stops has merged the files before the one that it could not read.** -/
theorem merged_of_stopped (hcollect : fs.answer (collectFiles target) = .ok files)
    (hbefore : (prepared fs path).fileBytes? path = before.map String.toUTF8)
    (hothers : ∀ q ∈ files, q ≠ p → IsSource (prepared fs path) path q (texts q))
    (hstop : fs.answer (scan name target path) = .error (.sourceUnreadable p cause)) :
    fs.answer (prepareDirectory path) = .ok () ∧
      ∃ front back progress, files = front ++ p :: back ∧
        Merged (prepared fs path) name texts path before front progress
          (fs.after (scan name target path)) := by
  have hending := ending_run_scanFiles fs name path files
  rw [← run_scan_of_collectFiles hcollect, run_eq_of_answer hstop] at hending
  cases hending with
  | @stopped _ _ _ _ _ front back _ _ _ _ hfiles hfront _ =>
      subst hfiles
      refine ⟨answer_prepareDirectory_of_scanFiles hfront, front, back, ?_⟩
      obtain ⟨progress, hmerge, -⟩ := exists_run_foldlM_of_scanFiles hbefore hfront
      -- the file at which the scan stopped is not among those before it
      have hapart : ∀ q ∈ front, q ≠ p := by
        rintro q hq rfl
        have hnodup := nodup_of_collectFiles hcollect
        rw [List.nodup_append'] at hnodup
        exact hnodup.2.2 hq (List.mem_cons_self ..)
      have hmerged := (merged_nil _ name texts path before).of_run_foldlM hbefore
        (fun q hq => hothers q (List.mem_append_left _ hq) (hapart q hq)) hmerge
      rw [List.nil_append] at hmerged
      exact ⟨progress, rfl, hmerged⟩

/-! ### The repair -/

variable {l : Location}

private theorem alike_prepared (h : AlikeBut l fs fs') (path : Path) :
    AlikeBut l (prepared fs path) (prepared fs' path) := by
  unfold prepared after
  rw [run_prepareDirectory, run_prepareDirectory]
  split
  · exact h
  · split
    · exact h
    · exact (h.createChain _).2

private theorem opens_of_alike (h : AlikeBut l ready fs) (hopens : Opens ready path none) :
    Opens fs path none := by
  obtain ⟨opened, hopen⟩ := exists_run_openAt_startAnew_iff.mp hopens
  exact exists_run_openAt_startAnew_iff.mpr (h.exists_openNew hopen)

/-! ### The second run -/

theorem catalogAfter_append (before : Option String) (entries added : List Entry) :
    catalogAfter (catalogAfter before entries) added = catalogAfter before (entries ++ added) := by
  unfold catalogAfter
  by_cases hentries : entries = []
  · simp [hentries]
  · by_cases hadded : added = []
    · simp [hadded, hentries]
    · simp [hentries, hadded, String.append_assoc]

/-- Behind the files that a catalog was written for, exactly what it held and the literals of these
files are known. -/
private theorem mem_keysBefore_scannedCatalog_iff_literal (hreads : ReadsOn (before.getD ""))
    (hnames : PlainNames front)
    (hquotes : ∀ q ∈ front, ∀ key ∈ Call.literals name (texts q), ¬ HoldsLineEndingQuote key.toList)
    {key : String} (hkey : ¬ HoldsLineEndingQuote key.toList) :
    key ∈ keysBefore (scannedCatalog name texts before front) ↔
      key ∈ keysBefore before ∨ ∃ q ∈ front, key ∈ Call.literals name (texts q) := by
  refine ⟨fun hread => ?_, mem_keysBefore_scannedCatalog hreads hnames hkey⟩
  refine ((mem_keysBefore_scannedCatalog_iff hreads).mp hread).imp_right ?_
  rintro ⟨e, he, hmem⟩
  obtain ⟨⟨q, hq, hliteral⟩, -⟩ := mem_keys_contributions_iff.mp (List.mem_map_of_mem he)
  rw [keyTexts_of_mem_contributions hnames he (hquotes q hq _ hliteral)] at hmem
  obtain rfl := List.mem_singleton.mp hmem
  exact ⟨q, hq, hliteral⟩

/-- A catalog that was written for the first files and then for all of them is the one that is
written for all of them at once. -/
private theorem scannedCatalog_resumed (hreads : ReadsOn (before.getD ""))
    (hnames : PlainNames (front ++ back))
    (hquotes : ∀ q ∈ front ++ back, ∀ key ∈ Call.literals name (texts q),
      ¬ HoldsLineEndingQuote key.toList) :
    scannedCatalog name texts (scannedCatalog name texts before front) (front ++ back) =
      scannedCatalog name texts before (front ++ back) := by
  -- what a scan of the first files left is known exactly as if they had just been merged
  have hknown : ∀ q ∈ front ++ back, ∀ key ∈ Call.literals name (texts q),
      (key ∈ keysBefore (scannedCatalog name texts before front) ↔
        key ∈ keysBefore before ∨ ∃ r ∈ front, key ∈ Call.literals name (texts r)) :=
    fun q hq key hkey => mem_keysBefore_scannedCatalog_iff_literal hreads
      (fun r hr => hnames r (List.mem_append_left _ hr))
      (fun r hr => hquotes r (List.mem_append_left _ hr)) (hquotes q hq key hkey)
  calc scannedCatalog name texts (scannedCatalog name texts before front) (front ++ back)
      = catalogAfter before ((contributions name texts (keysBefore before) front).flatten ++
          (contributions name texts (keysBefore (scannedCatalog name texts before front))
            (front ++ back)).flatten) := catalogAfter_append _ _ _
    _ = scannedCatalog name texts before (front ++ back) := by
        rw [flatten_contributions_resumed hknown, scannedCatalog]

private theorem fileBytes?_of_alike (h : AlikeBut l ready fs)
    (hplace : ready.fileLocation? p = some l)
    (hapart : ready.fileLocation? p ≠ ready.fileLocation? path) :
    fs.fileBytes? path = ready.fileBytes? path :=
  h.fileBytes? fun hpath => hapart (hplace.trans hpath.symm)

private theorem isSource_of_alike (h : AlikeBut l ready fs) {q : Path} {text : String}
    (htext : fs.textAt q = .ok text)
    (hapart : ready.fileLocation? q ≠ ready.fileLocation? path) : IsSource fs path q text where
  textAt := htext
  apart := by rwa [h.fileLocation?, h.fileLocation?]

/-- The catalog can be opened again after a repair, where it could be for a single scan. -/
private theorem opens_of_repair {entries : List Entry} {writer : Option CatalogWriter}
    (hwritten : Written ready path before entries writer fs) (hresumed : AlikeBut l fs resumed)
    (hrepaired : AlikeBut l ready repaired)
    (hbefore : resumed.fileBytes? path = (catalogAfter before entries).map String.toUTF8)
    (hsingle : (contributions name texts (keysBefore before) files).flatten ≠ [] →
      Opens repaired path before)
    (hne : (contributions name texts (keysBefore (catalogAfter before entries))
      files).flatten ≠ []) :
    Opens resumed path (catalogAfter before entries) := by
  cases hafter : catalogAfter before entries with
  | some text =>
      rw [hafter] at hbefore
      exact opens_of_some (fileBytes?_eq_some_iff.mp hbefore)
  | none =>
      -- nothing was written, so the scan stopped with the file system it started with
      have hnil : entries = [] := by
        by_contra hentries
        simp [catalogAfter, hentries] at hafter
      subst hnil
      obtain rfl : before = none := hafter
      obtain rfl := hwritten.eq_ready
      exact opens_of_alike hresumed (opens_of_alike hrepaired.symm (hsingle hne))

/-- **A scan that stopped and is run again after the repair ends with the catalog of a single scan
of the repaired tree.** -/
theorem resumed_scan_eq_single_scan {single : Summary}
    (hcollect : fs.answer (collectFiles target) = .ok files)
    (hbefore : (prepared fs path).fileBytes? path = before.map String.toUTF8)
    (hextensible : Extensible (before.getD ""))
    (hapart : ∀ q ∈ files,
      (prepared fs path).fileLocation? q ≠ (prepared fs path).fileLocation? path)
    (hnames : PlainNames files)
    (hstop : fs.answer (scan name target path) = .error (.sourceUnreadable p cause))
    (hothers : ∀ q ∈ files, q ≠ p → fs.textAt q = .ok (texts q))
    (hplace : fs.fileLocation? p = some l)
    (hrepaired : AlikeBut l fs repaired)
    (hrepairedFiles : repaired.answer (collectFiles target) = .ok files)
    (hrepairedTexts : ∀ q ∈ files, repaired.textAt q = .ok (texts q))
    (hresumed : AlikeBut l (fs.after (scan name target path)) resumed)
    (hresumedFiles : resumed.answer (collectFiles target) = .ok files)
    (hresumedTexts : ∀ q ∈ files, resumed.textAt q = .ok (texts q))
    (hquotes : ∀ q ∈ files, ∀ key ∈ Call.literals name (texts q),
      ¬ HoldsLineEndingQuote key.toList)
    (hsingle : repaired.answer (scan name target path) = .ok single) :
    ∃ rerun, resumed.answer (scan name target path) = .ok rerun ∧
      (resumed.after (scan name target path)).fileBytes? path =
        (repaired.after (scan name target path)).fileBytes? path := by
  have hp : (prepared fs path).fileLocation? p = some l :=
    (adds_prepareDirectory fs path).grows.fileLocation? hplace
  -- the scan that stopped has written what the files before the stop contribute
  obtain ⟨hprepare, front, back, progress, rfl, hstopped⟩ := merged_of_stopped hcollect hbefore
    (fun q hq hne => isSource_prepared (hothers q hq hne) (hapart q hq)) hstop
  have hwritten := hstopped.written
  have hpmem : p ∈ front ++ p :: back := by simp
  -- the single scan starts from the same catalog
  have halike := alike_prepared hrepaired path
  have hbeforeSingle := (fileBytes?_of_alike halike hp (hapart p hpmem)).trans hbefore
  obtain ⟨progressSingle, hmergedSingle, -⟩ := merged_of_scan hrepairedFiles hbeforeSingle
    (fun q hq => isSource_prepared (hrepairedTexts q hq)
      (by rw [halike.fileLocation?, halike.fileLocation?]; exact hapart q hq)) hsingle
  -- the scan that is run again starts from what was written before the stop
  have hready : resumed.run (prepareDirectory path) = (.ok (), resumed) :=
    run_prepareDirectory_again hprepare (hwritten.grows.trans hresumed.grows)
  have hprepared : prepared resumed path = resumed := congrArg Prod.snd hready
  have hstoppedApart : ∀ q ∈ front ++ p :: back,
      (fs.after (scan name target path)).fileLocation? q ≠
        (fs.after (scan name target path)).fileLocation? path := by
    intro q hq
    obtain ⟨bytes, hbytes⟩ : ∃ bytes, (prepared fs path).bytesAt q = .ok bytes := by
      by_cases hqp : q = p
      · rw [hqp]
        exact exists_bytesAt_of_fileLocation? hp
      · exact ⟨_, (adds_prepareDirectory fs path).bytesAt (textAt_eq_ok_iff.mp (hothers q hq hqp))⟩
    exact (hwritten.bytesAt_and_apart hbytes (hapart q hq)).2
  have hbeforeRerun : resumed.fileBytes? path =
      (scannedCatalog name texts before front).map String.toUTF8 :=
    (fileBytes?_of_alike hresumed (hwritten.grows.fileLocation? hp)
      (hstoppedApart p hpmem)).trans (hstopped.fileBytes? hbefore)
  obtain ⟨progressRerun, last, hmergedRerun, hrun⟩ := exists_run_scan name hresumedFiles
    (congrArg Prod.fst hready) (by rwa [hprepared])
    (fun q hq => by
      rw [hprepared]; exact isSource_of_alike hresumed (hresumedTexts q hq) (hstoppedApart q hq))
    (by
      rw [hprepared]
      exact opens_of_repair hwritten hresumed halike hbeforeRerun hmergedSingle.written.opens)
  rw [hprepared] at hmergedRerun
  refine ⟨_, congrArg Prod.fst hrun, ?_⟩
  have hlast : resumed.after (scan name target path) = last := congrArg Prod.snd hrun
  calc (resumed.after (scan name target path)).fileBytes? path
      = (scannedCatalog name texts (scannedCatalog name texts before front)
          (front ++ p :: back)).map String.toUTF8 := by
        rw [hlast]
        exact hmergedRerun.fileBytes? hbeforeRerun
    _ = (scannedCatalog name texts before (front ++ p :: back)).map String.toUTF8 := by
        rw [scannedCatalog_resumed (readsOn_of_extensible hextensible) hnames hquotes]
    _ = (repaired.after (scan name target path)).fileBytes? path :=
        (hmergedSingle.fileBytes? hbeforeSingle).symm

private theorem alikeBut_withNode {stamp stamp' : Nat} {bytes bytes' : ByteArray}
    (hfile : fs.node? l = some (.file stamp bytes)) :
    AlikeBut l fs (withNode fs l (.file stamp' bytes')) := by
  obtain ⟨fs', hstore⟩ := exists_store_of_file hfile (.file stamp' bytes')
  have hsame : withNode fs l (.file stamp' bytes') = fs' := by
    rw [withNode, hstore]
    rfl
  rw [hsame]
  exact alikeBut_of_puts hfile (puts_of_store hstore)

/-- The second file is no text at first, and shares a literal with the first one. -/
theorem resumed_scan_of_site :
    let fs := site "t(\"Save\"); t(\"Open\")".toUTF8 ⟨#[255]⟩
    let stopped := fs.after (scan siteFunction siteTarget siteCatalog)
    let resumed := withNode stopped siteOther (.file 7 "t(\"Open\"); t(\"Quit\")".toUTF8)
    ∃ rerun, resumed.answer (scan siteFunction siteTarget siteCatalog) = .ok rerun ∧
      (resumed.after (scan siteFunction siteTarget siteCatalog)).fileBytes? siteCatalog =
        some (Entry.textOfList [.untranslated "Main.cs" "Save", .untranslated "Main.cs" "Open",
          .untranslated "Other.cs" "Quit"]).toUTF8 := by
  intro fs stopped resumed
  have hfile : fs.node? siteOther = some (.file 1 ⟨#[255]⟩) := by decide +kernel
  have hstopped : stopped.node? siteOther = some (.file 1 ⟨#[255]⟩) := by decide +kernel
  obtain ⟨rerun, hrerun, hbytes⟩ := resumed_scan_eq_single_scan
    (show fs.answer (collectFiles siteTarget) = .ok siteFiles by decide +kernel)
    (show (prepared fs siteCatalog).fileBytes? siteCatalog =
      (none : Option String).map String.toUTF8 by decide +kernel)
    extensible_empty
    (by decide +kernel)
    (by decide +kernel)
    (show fs.answer (scan siteFunction siteTarget siteCatalog) =
      .error (.sourceUnreadable ⟨"/site/Other.cs"⟩ .notText) by decide +kernel)
    (show ∀ q ∈ siteFiles, q ≠ ⟨"/site/Other.cs"⟩ → fs.textAt q =
      .ok (siteTexts "t(\"Save\"); t(\"Open\")" "t(\"Open\"); t(\"Quit\")" q) by decide +kernel)
    (show fs.fileLocation? ⟨"/site/Other.cs"⟩ = some siteOther by decide +kernel)
    (show AlikeBut siteOther fs (withNode fs siteOther
      (.file 5 "t(\"Open\"); t(\"Quit\")".toUTF8)) from alikeBut_withNode hfile)
    (by decide +kernel)
    (by decide +kernel)
    (show AlikeBut siteOther stopped resumed from alikeBut_withNode hstopped)
    (by decide +kernel)
    (by decide +kernel)
    (by decide +kernel)
    (show (withNode fs siteOther (.file 5 "t(\"Open\"); t(\"Quit\")".toUTF8)).answer
      (scan siteFunction siteTarget siteCatalog) =
        .ok ⟨siteCatalog, false, [⟨⟨"/site/Main.cs"⟩, 2, 2⟩, ⟨⟨"/site/Other.cs"⟩, 2, 1⟩]⟩
      by decide +kernel)
  refine ⟨rerun, hrerun, hbytes.trans ?_⟩
  decide +kernel

end MessageCatalog.Scan
