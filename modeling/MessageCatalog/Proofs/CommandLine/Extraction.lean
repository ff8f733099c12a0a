import MessageCatalog.Proofs.CommandLine.Preparation
import MessageCatalog.Proofs.Scan.Frame

/-!
# What an extraction leaves

An extraction is a scan once its settings are checked, and its report follows from how that scan
ended (`run_extract`).  So what is known of a scan is known of the command:

* a failure tells what the file system is left with (`LeavesBehind`,
  `failed_extraction_leaves_behind`): nothing is changed before the directory of the catalog is
  seen to, only directories are added before the first entry is written, and where a source cannot
  be read the files in front of it are in the catalog as if there were no others;
* whatever the outcome, every file keeps what it held, and at most the catalog of the language
  goes on behind it (`extraction_extends_catalog_only`).
-/

namespace MessageCatalog.CommandLine

open FileSystem Scan

variable {fs last : FileSystem} {options : ExtractOptions} {colored : Bool}

/-- Runs an extraction as a command. -/
def runOn (fs : FileSystem) (colored : Bool) (options : ExtractOptions) : Output × FileSystem :=
  (Command.run colored (.extract options) : StateM FileSystem Output) fs

/-- The report of an extraction follows from how it ended, and nothing is changed behind it. -/
theorem run_extract (fs : FileSystem) (colored : Bool) (options : ExtractOptions) :
    (∃ summary stdout stderr last, fs.outcome (extraction options) = (.ok summary, last) ∧
        runOn fs colored options = (⟨0, stdout, stderr⟩, last)) ∨
      ∃ failure log last, fs.outcome (extraction options) = (.error failure, last) ∧
        runOn fs colored options = (failed log failure, last) := by
  have hrun : runOn fs colored options =
      (runExtract colored options : StateM FileSystem Output) fs := rfl
  -- the report follows the two stages of an extraction, and behind a failure nothing is run
  unfold runExtract at hrun
  rw [bind_apply] at hrun
  rcases hprepare : fs.outcome (prepare options) with ⟨failure | preparation, next⟩
  · have hprepared : (ExceptT.run (prepare options) : StateM FileSystem _) fs =
        (.error failure, next) := hprepare
    rw [hprepared] at hrun
    exact .inr ⟨failure, "", next, outcome_bind_of_error hprepare _, hrun⟩
  · have hprepared : (ExceptT.run (prepare options) : StateM FileSystem _) fs =
        (.ok preparation, next) := hprepare
    rw [hprepared] at hrun
    dsimp only at hrun
    rw [bind_apply] at hrun
    have hextraction : fs.outcome (extraction options) =
        next.outcome (scanRoot options preparation) := outcome_bind_of_ok hprepare _
    rcases hscan : next.outcome (scanRoot options preparation) with ⟨failure | summary, last⟩
    · have hscanned : (ExceptT.run (scanRoot options preparation) : StateM FileSystem _) next =
          (.error failure, last) := hscan
      rw [hscanned] at hrun
      exact .inr ⟨failure, _, last, hextraction.trans hscan, hrun⟩
    · have hscanned : (ExceptT.run (scanRoot options preparation) : StateM FileSystem _) next =
          (.ok summary, last) := hscan
      rw [hscanned] at hrun
      exact .inl ⟨summary, _, _, last, hextraction.trans hscan, hrun⟩

/-! ### Failures -/

/-- What is left behind by an extraction that failed, for each failure. -/
def LeavesBehind (fs : FileSystem) (options : ExtractOptions) (last : FileSystem) :
    CommandFailure → Prop
  | .noRoot _ | .language .. | .config _ | .noWorkingDirectory _ => last = fs
  | .engine (.functionName ..) | .engine (.includePattern ..) | .engine (.walk _) => last = fs
  | .engine (.catalogUnreadable path _) | .engine (.catalogWrite path _) =>
    (∃ plan, plan? fs options = some plan ∧ plan.catalog = path) ∧
      last = prepared fs path ∧ AddsAlong (directoriesAbove path) fs last
  | .engine (.sourceUnreadable p cause) =>
    ∃ plan front back, plan? fs options = some plan ∧
      fs.answer (collectFiles plan.target) = .ok (front ++ p :: back) ∧
      StoppedBehind fs plan.name plan.catalog front p cause last
  | .engine (.catalogMissing _) | .configExists | .configNotWritten _ => False

private theorem leavesBehind_of_isEarly {failure : CommandFailure} (h : failure.IsEarly) :
    LeavesBehind fs options fs failure := by
  unfold CommandFailure.IsEarly at h
  split at h <;> first | rfl | cases h

private theorem leavesBehind_of_run_scan {plan : Plan} {failure : Failure}
    (hplan : plan? fs options = some plan)
    (hfail : fs.run (scan plan.name plan.target plan.catalog) = (.error failure, last)) :
    LeavesBehind fs options last (.engine failure) := by
  cases hcollect : fs.answer (collectFiles plan.target) with
  | error failure' =>
      have hcollected := run_eq_of_answer hcollect
      rw [after_collectFiles] at hcollected
      rw [scan_eq, run_bind_of_error hcollected] at hfail
      cases hfail
      rcases failure_of_collectFiles hcollect with ⟨pattern, fault, rfl⟩ | ⟨fault, rfl⟩ <;> rfl
  | ok files =>
      -- what is left behind depends on how far the scan got
      have hending := ending_run_scanFiles fs plan.name plan.catalog files
      rw [← run_scan_of_collectFiles hcollect, hfail] at hending
      have hadds := addsAlong_prepareDirectory fs plan.catalog
      cases hending with
      | catalogUnreadable => exact ⟨⟨plan, hplan, rfl⟩, rfl, hadds⟩
      | catalogUnwritten => exact ⟨⟨plan, hplan, rfl⟩, rfl, hadds⟩
      | stopped hbefore hwritten hfiles hfront hcause =>
          obtain ⟨front, back, rfl, hstopped⟩ :=
            (Ending.stopped hbefore hwritten hfiles hfront hcause).exists_stoppedBehind
          exact ⟨plan, front, back, hplan, hcollect, hstopped⟩

private theorem leavesBehind_of_outcome {failure : CommandFailure}
    (h : fs.outcome (extraction options) = (.error failure, last)) :
    LeavesBehind fs options last failure := by
  rcases outcome_extraction fs options with ⟨early, hearly, -, houtcome⟩ | ⟨plan, hplan, houtcome⟩
  · cases h.symm.trans houtcome
    exact leavesBehind_of_isEarly hearly
  · rw [houtcome] at h
    cases hscan : fs.answer (scan plan.name plan.target plan.catalog) with
    | ok summary =>
        rw [hscan] at h
        cases h
    | error cause =>
        rw [hscan] at h
        cases h
        exact leavesBehind_of_run_scan hplan (run_eq_of_answer hscan)

/-- **An extraction that fails leaves a known state behind.**  What it is follows from the failure
that is reported. -/
theorem failed_extraction_leaves_behind
    (hfail : (runOn fs colored options).1.status ≠ 0) :
    ∃ failure log last, fs.outcome (extraction options) = (.error failure, last) ∧
      runOn fs colored options = (failed log failure, last) ∧
      LeavesBehind fs options last failure := by
  rcases run_extract fs colored options with
    ⟨summary, stdout, stderr, last, -, hrun⟩ | ⟨failure, log, last, houtcome, hrun⟩
  · rw [hrun] at hfail
    exact absurd rfl hfail
  · exact ⟨failure, log, last, houtcome, hrun, leavesBehind_of_outcome houtcome⟩

/-- An extraction on the site. -/
def siteOptions : ExtractOptions :=
  ⟨"t", ⟨"/site"⟩, "fr", [], ["*.cs"], false⟩

/-- The second file is no text, so the extraction stops there. -/
theorem failed_extraction_leaves_behind_on_site :
    let fs := site "t(\"Save\")".toUTF8 ⟨#[255]⟩
    ∃ plan front back, plan? fs siteOptions = some plan ∧
      fs.answer (collectFiles plan.target) = .ok (front ++ ⟨"/site/Other.cs"⟩ :: back) ∧
      StoppedBehind fs plan.name plan.catalog front ⟨"/site/Other.cs"⟩ .notText
        (runOn fs false siteOptions).2 := by
  intro fs
  obtain ⟨failure, log, last, houtcome, hrun, hleaves⟩ := failed_extraction_leaves_behind
    (show (runOn fs false siteOptions).1.status ≠ 0 by decide +kernel)
  have hfailure : (fs.outcome (extraction siteOptions)).1 =
      .error (.engine (.sourceUnreadable ⟨"/site/Other.cs"⟩ .notText)) := by decide +kernel
  rw [houtcome] at hfailure
  cases hfailure
  rw [hrun]
  exact hleaves

/-! ### Every outcome -/

private theorem extendsOnly_of_extraction (fs : FileSystem) (colored : Bool)
    (options : ExtractOptions) :
    (runOn fs colored options).2 = fs ∨ ∃ plan, plan? fs options = some plan ∧
      ExtendsOnly plan.catalog fs (runOn fs colored options).2 := by
  have hlast : (runOn fs colored options).2 = (fs.outcome (extraction options)).2 := by
    rcases run_extract fs colored options with
      ⟨summary, stdout, stderr, last, houtcome, hrun⟩ | ⟨failure, log, last, houtcome, hrun⟩
    · rw [houtcome, hrun]
    · rw [houtcome, hrun]
  rw [hlast]
  rcases outcome_extraction fs options with ⟨failure, -, -, houtcome⟩ | ⟨plan, hplan, houtcome⟩
  · left
    rw [houtcome]
  · right
    rw [houtcome]
    exact ⟨plan, hplan, extendsOnly_after_scan fs plan.name plan.target plan.catalog⟩

/-- **Whatever its outcome, an extraction damages no file.**  Every file keeps what it held, and at
most the catalog of the language goes on behind it; what else is new are directories.  The catalog
is the entry named after the language in the directory that is configured. -/
theorem extraction_extends_catalog_only (fs : FileSystem) (colored : Bool)
    (options : ExtractOptions) :
    let last := (runOn fs colored options).2
    (∀ l stamp bytes, fs.node? l = some (.file stamp bytes) →
      ∃ added, last.node? l = some (.file stamp (bytes ++ added))) ∧
    (∀ p bytes, fs.fileBytes? p = some bytes →
      ∃ added, last.fileBytes? p = some (bytes ++ added)) ∧
    (∀ l, last.node? l ≠ fs.node? l → (fs.node? l = none ∧ last.node? l = some .directory) ∨
      ∃ plan, plan? fs options = some plan ∧ last.fileLocation? plan.catalog = some l) ∧
    ∀ plan, plan? fs options = some plan →
      ∃ loaded, (fs.outcome (Config.load options.root)).1 = .ok loaded ∧
        plan.catalog = catalogPath options.root loaded.config.catalogDir options.language ∧
        NamesChild plan.catalog (options.root.join ⟨loaded.config.catalogDir⟩)
          (options.language ++ ".po") := by
  intro last
  have hnames : ∀ plan, plan? fs options = some plan →
      ∃ loaded, (fs.outcome (Config.load options.root)).1 = .ok loaded ∧
        plan.catalog = catalogPath options.root loaded.config.catalogDir options.language ∧
        NamesChild plan.catalog (options.root.join ⟨loaded.config.catalogDir⟩)
          (options.language ++ ".po") := fun _ => Plan.exists_namesChild
  rcases extendsOnly_of_extraction fs colored options with hsame | ⟨plan, hplan, hextends⟩
  · rw [show last = fs from hsame]
    refine ⟨fun l stamp bytes hfile => ⟨ByteArray.empty, ?_⟩,
      fun p bytes hbytes => ⟨ByteArray.empty, ?_⟩, fun l hchanged => absurd rfl hchanged, hnames⟩
    · rw [hfile, ByteArray.append_empty]
    · rw [hbytes, ByteArray.append_empty]
  · refine ⟨fun l stamp bytes => hextends.file, fun p bytes => hextends.fileBytes?,
      fun l hchanged => ?_, hnames⟩
    rcases hextends.changed hchanged with hnew | hcatalog
    · exact .inl hnew
    · exact .inr ⟨plan, hplan, hcatalog⟩

/-- A catalog that is a link is extended where the link leads. -/
theorem extraction_extends_linked_catalog :
    let real : Location := siteLocation ++ [⟨"real.po", by decide⟩]
    let fs := withNode
      (withNode (siteWithCatalog "t(\"Save\")".toUTF8 ⟨#[255]⟩ ByteArray.empty) real
        (.file 3 "msgid \"Open\"\n".toUTF8))
      (siteLocation ++ [⟨"POs", by decide⟩, ⟨"fr.po", by decide⟩]) (.link ⟨"/site/real.po"⟩)
    (runOn fs false siteOptions).1.status = 2 ∧ ∃ added,
      (runOn fs false siteOptions).2.node? real =
        some (.file 3 ("msgid \"Open\"\n".toUTF8 ++ added)) := by
  intro real fs
  have hfile : fs.node? real = some (.file 3 "msgid \"Open\"\n".toUTF8) := by decide +kernel
  exact ⟨by decide +kernel, (extraction_extends_catalog_only fs false siteOptions).1 _ _ _ hfile⟩

end MessageCatalog.CommandLine
