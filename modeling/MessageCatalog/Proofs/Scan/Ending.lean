import MessageCatalog.Proofs.FileSystem.Replacement
import MessageCatalog.Proofs.Scan.Merge
import Mathlib.Tactic.Choose

/-!
# How a scan ends

Merging files ends in one of three ways (`Merging`): all files are merged; or one of them cannot be
read, and then those before it are merged and nothing of it is; or the catalog cannot be opened for
the first entry, and then nothing is written at all.  One file ends so (`Written.run_mergeFile`),
and hence a list of files (`merging_run_foldlM`).

A scan of files that were found can fail before that (`Ending`): in seeing to the directory of the
catalog or in reading its keys, and both leave what seeing to the directory left.
-/

namespace MessageCatalog.Scan

open Catalog FileSystem

variable {fs fs' ready last : FileSystem} {name : FunctionName} {texts : Path → String}
  {target : Target} {path p : Path} {files front : List Path} {before : Option String}

/-! ### The entries of one file -/

/-- A catalog that cannot be started anew is not there afterwards either. -/
private theorem exists_run_openAt_error (h : ¬ Opens ready path none) :
    ∃ cause, ready.run (Catalog.Writer.openAt path .startAnew :
        Action (StateM FileSystem) CatalogWriter) = (.error (.catalogWrite path cause), ready) := by
  have hopen : ∀ opened, ready.openNew path ≠ .ok opened :=
    fun opened heq => h (exists_run_openAt_startAnew_iff.mpr ⟨opened, heq⟩)
  cases hcreate : ready.openNew path with
  | ok opened => exact absurd hcreate (hopen opened)
  | error cause =>
      refine ⟨cause, ?_⟩
      simp only [Catalog.Writer.openAt, run_bind, run_orFail, create_eq, hcreate]
      rfl

/-- Entries are written, or the catalog could not be opened for the first ones. -/
private theorem Written.run_writeNew {written : List Entry} {writer : Option CatalogWriter}
    (h : Written ready path before written writer fs)
    (hbefore : ready.fileBytes? path = before.map String.toUTF8) (entries : List Entry) :
    (∃ writer' next, fs.run (writeNew path (modeFor before) writer entries) = (.ok writer', next) ∧
        Written ready path before (written ++ entries) writer' next) ∨
      ∃ cause, fs.run (writeNew path (modeFor before) writer entries) =
        (.error (.catalogWrite path cause), ready) := by
  by_cases hopens : entries ≠ [] → Opens ready path before
  · exact .inl (h.exists_run_writeNew hbefore hopens)
  · obtain ⟨hne, hclosed⟩ := Classical.not_imp.mp hopens
    right
    cases h with
    | behind hopened _ _ _ _ => exact absurd hopened hclosed
    | nothing =>
        cases before with
        | some text => exact absurd (opens_of_some (fileBytes?_eq_some_iff.mp hbefore)) hclosed
        | none =>
            obtain ⟨cause, hopen⟩ := exists_run_openAt_error hclosed
            exact ⟨cause, by rw [run_writeNew_none hne]; exact run_bind_of_error hopen _⟩

/-- **How merging one file ends.**  Its new entries are written, or it cannot be read, or the
catalog cannot be opened. -/
theorem Written.run_mergeFile {written : List Entry} {progress : Progress (StateM FileSystem)}
    (h : Written ready path before written progress.writer fs)
    (hbefore : ready.fileBytes? path = before.map String.toUTF8) (name : FunctionName) (p : Path) :
    (∃ text progress' next, fs.textAt p = .ok text ∧
        fs.run (mergeFile name path (modeFor before) progress p) = (.ok progress', next) ∧
        Written ready path before (written ++ newEntries progress.known p
          (Call.distinctLiterals name text)) progress'.writer next) ∨
      (∃ cause, fs.textAt p = .error cause ∧
        fs.run (mergeFile name path (modeFor before) progress p) =
          (.error (.sourceUnreadable p cause), fs)) ∨
      ∃ cause, fs.run (mergeFile name path (modeFor before) progress p) =
        (.error (.catalogWrite path cause), ready) := by
  cases htext : fs.textAt p with
  | error cause =>
      refine .inr (.inl ⟨cause, rfl, ?_⟩)
      have hread : fs.run (Action.orFail (FileAccess.readText p) (.sourceUnreadable p)) =
          (.error (.sourceUnreadable p cause), fs) := by
        rw [run_orFail, readText_eq, htext]
        rfl
      exact run_bind_of_error hread _
  | ok text =>
      rw [Scan.run_mergeFile htext]
      rcases h.run_writeNew hbefore (newEntries progress.known p (Call.distinctLiterals name text))
        with ⟨writer', next, hwrite, hwritten⟩ | ⟨cause, hwrite⟩
      · exact .inl ⟨text, _, next, rfl, run_bind_of_ok hwrite _, hwritten⟩
      · exact .inr (.inr ⟨cause, run_bind_of_error hwrite _⟩)

/-! ### All files -/

/-- How merging some files ends. -/
inductive Merging (ready : FileSystem) (name : FunctionName) (path : Path)
    (before : Option String) (fs : FileSystem) (progress : Progress (StateM FileSystem))
    (files : List Path) : Except Failure (Progress (StateM FileSystem)) × FileSystem → Prop
  | finished {entries : List Entry} {progress' : Progress (StateM FileSystem)} {last : FileSystem}
      (hwritten : Written ready path before entries progress'.writer last) :
      Merging ready name path before fs progress files (.ok progress', last)
  /-- Those in front of the file that cannot be read are merged. -/
  | stopped {entries : List Entry} {progress' : Progress (StateM FileSystem)} {last : FileSystem}
      {front back : List Path} {p : Path} {cause : AccessFault}
      (hfiles : files = front ++ p :: back)
      (hfront : fs.run (front.foldlM (mergeFile name path (modeFor before)) progress) =
        (.ok progress', last))
      (hwritten : Written ready path before entries progress'.writer last)
      (hcause : last.textAt p = .error cause) :
      Merging ready name path before fs progress files (.error (.sourceUnreadable p cause), last)
  /-- Nothing was written. -/
  | unopened {cause : AccessFault} :
      Merging ready name path before fs progress files (.error (.catalogWrite path cause), ready)

private theorem Merging.cons {next : FileSystem} {progress progress' : Progress (StateM FileSystem)}
    {result : Except Failure (Progress (StateM FileSystem)) × FileSystem}
    (hfile : fs.run (mergeFile name path (modeFor before) progress p) = (.ok progress', next))
    (h : Merging ready name path before next progress' files result) :
    Merging ready name path before fs progress (p :: files) result := by
  cases h with
  | finished hwritten => exact .finished hwritten
  | unopened => exact .unopened
  | @stopped _ _ _ front back q _ hfiles hfront hwritten hcause =>
      have hcut : p :: files = (p :: front) ++ q :: back := congrArg (p :: ·) hfiles
      refine .stopped hcut ?_ hwritten hcause
      rw [List.foldlM_cons, run_bind_of_ok hfile, hfront]

/-- **Merging files ends in one of three ways.** -/
theorem merging_run_foldlM {written : List Entry} {progress : Progress (StateM FileSystem)}
    (h : Written ready path before written progress.writer fs)
    (hbefore : ready.fileBytes? path = before.map String.toUTF8) (name : FunctionName)
    (files : List Path) :
    Merging ready name path before fs progress files
      (fs.run (files.foldlM (mergeFile name path (modeFor before)) progress)) := by
  induction files generalizing written progress fs with
  | nil => exact .finished h
  | cons p files ih =>
      rw [List.foldlM_cons]
      rcases h.run_mergeFile hbefore name p with
        ⟨text, progress', next, -, hfile, hwritten⟩ | ⟨cause, hcause, hfile⟩ | ⟨cause, hfile⟩
      · rw [run_bind_of_ok hfile]
        exact .cons hfile (ih hwritten)
      · rw [run_bind_of_error hfile]
        exact .stopped (List.nil_append _).symm rfl h hcause
      · rw [run_bind_of_error hfile]
        exact .unopened

/-- A merge that gets through its files has read and written the first one. -/
theorem Written.exists_run_foldlM_of_cons {written : List Entry}
    {progress progress' : Progress (StateM FileSystem)}
    (h : Written ready path before written progress.writer fs)
    (hbefore : ready.fileBytes? path = before.map String.toUTF8)
    (hrun : fs.run ((p :: files).foldlM (mergeFile name path (modeFor before)) progress) =
      (.ok progress', last)) :
    ∃ text progress₁ fs₁, fs.textAt p = .ok text ∧
      Written ready path before (written ++ newEntries progress.known p
        (Call.distinctLiterals name text)) progress₁.writer fs₁ ∧
      fs₁.run (files.foldlM (mergeFile name path (modeFor before)) progress₁) =
        (.ok progress', last) := by
  rw [List.foldlM_cons] at hrun
  obtain ⟨progress₁, fs₁, hfile, hrest⟩ := run_bind_eq_ok_iff.mp hrun
  rcases h.run_mergeFile hbefore name p with
    ⟨text, progress₂, fs₂, htext, hfile', hwritten⟩ | ⟨cause, -, hfile'⟩ | ⟨cause, hfile'⟩
  · cases hfile.symm.trans hfile'
    exact ⟨text, progress₁, fs₁, htext, hwritten, hrest⟩
  · cases hfile.symm.trans hfile'
  · cases hfile.symm.trans hfile'

/-! ### Files that were read -/

private theorem Written.alikeBut {entries : List Entry} {writer : CatalogWriter} {l : Location}
    (h : Written ready path before entries (some writer) fs)
    (hplace : ready.fileLocation? path = some l) : AlikeBut l ready fs := by
  obtain ⟨stamp, bytes, hresolve⟩ := fileLocation?_eq_some_iff.mp hplace
  cases h with
  | behind _ _ hholds hgrows _ =>
      have hlocation : writer.file.location = l := by
        have hthere := hgrows.grows.fileLocation? hplace
        rw [hholds.attached.location] at hthere
        exact Option.some_inj.mp hthere
      subst hlocation
      exact ⟨hgrows.node?, ⟨stamp, bytes, node?_of_resolve_file hresolve⟩,
        ⟨_, _, hholds.attached.node⟩, hgrows.grows.workingDirectory⟩

/-- What is read behind some entries at a path apart from the catalog was there before them. -/
private theorem Written.textAt_ready {entries : List Entry} {writer : Option CatalogWriter}
    (h : Written ready path before entries writer fs) {text : String}
    (hapart : ready.fileLocation? p ≠ ready.fileLocation? path)
    (htext : fs.textAt p = .ok text) : ready.textAt p = .ok text := by
  rw [textAt_eq_ok_iff] at htext ⊢
  cases hp : ready.fileLocation? p with
  | some l =>
      obtain ⟨bytes, hbytes⟩ := exists_bytesAt_of_fileLocation? hp
      rw [hbytes, ← (h.bytesAt_and_apart hbytes hapart).1, htext]
  | none =>
      -- then the catalog was there, and writing to it makes no path lead to a file
      cases writer with
      | none =>
          cases h
          exact htext
      | some writer =>
          rw [hp] at hapart
          obtain ⟨l, hl⟩ := Option.ne_none_iff_exists'.mp hapart.symm
          obtain ⟨k, hthere⟩ := exists_fileLocation?_of_textAt (textAt_eq_ok_iff.mpr htext)
          rw [(h.alikeBut hl).fileLocation?, hp] at hthere
          cases hthere

/-- **A merge that gets through its files has read each of them.** -/
theorem exists_textAt_of_run_foldlM {written : List Entry}
    {progress progress' : Progress (StateM FileSystem)}
    (h : Written ready path before written progress.writer fs)
    (hbefore : ready.fileBytes? path = before.map String.toUTF8)
    (hapart : ∀ p ∈ files, ready.fileLocation? p ≠ ready.fileLocation? path)
    (hrun : fs.run (files.foldlM (mergeFile name path (modeFor before)) progress) =
      (.ok progress', fs')) :
    ∀ p ∈ files, ∃ text, ready.textAt p = .ok text := by
  induction files generalizing written progress fs with
  | nil =>
      intro p hp
      cases hp
  | cons p files ih =>
      obtain ⟨hfirst, hothers⟩ := List.forall_mem_cons.mp hapart
      obtain ⟨text, progress₁, fs₁, htext, hwritten, hrest⟩ :=
        h.exists_run_foldlM_of_cons hbefore hrun
      exact List.forall_mem_cons.mpr
        ⟨⟨text, h.textAt_ready hfirst htext⟩, ih hwritten hothers hrest⟩

/-- A scan that succeeds has read each of its files. -/
theorem exists_isSource_of_scanFiles {summary : Summary}
    (hbefore : (prepared fs path).fileBytes? path = before.map String.toUTF8)
    (hapart : ∀ p ∈ files,
      (prepared fs path).fileLocation? p ≠ (prepared fs path).fileLocation? path)
    (hrun : fs.run (scanFiles name path files) = (.ok summary, last)) :
    ∃ texts : Path → String, ∀ p ∈ files, IsSource (prepared fs path) path p (texts p) := by
  obtain ⟨progress, hmerge, -⟩ := exists_run_foldlM_of_scanFiles hbefore hrun
  choose! texts htexts using exists_textAt_of_run_foldlM .nothing hbefore hapart hmerge
  exact ⟨texts, fun p hp => ⟨htexts p hp, hapart p hp⟩⟩

/-! ### A whole scan -/

/-- How a scan of files that were found ends. -/
inductive Ending (fs : FileSystem) (name : FunctionName) (path : Path) (files : List Path) :
    Except Failure Summary × FileSystem → Prop
  | finished {before : Option String} {entries : List Entry} {writer : Option CatalogWriter}
      {last : FileSystem} {summary : Summary}
      (hbefore : (prepared fs path).fileBytes? path = before.map String.toUTF8)
      (hwritten : Written (prepared fs path) path before entries writer last) :
      Ending fs name path files (.ok summary, last)
  /-- The files in front of the one that cannot be read are scanned as if there were no others. -/
  | stopped {before : Option String} {entries : List Entry} {writer : Option CatalogWriter}
      {last : FileSystem} {summary : Summary} {front back : List Path} {p : Path}
      {cause : AccessFault}
      (hbefore : (prepared fs path).fileBytes? path = before.map String.toUTF8)
      (hwritten : Written (prepared fs path) path before entries writer last)
      (hfiles : files = front ++ p :: back)
      (hfront : fs.run (scanFiles name path front) = (.ok summary, last))
      (hcause : last.textAt p = .error cause) :
      Ending fs name path files (.error (.sourceUnreadable p cause), last)
  | catalogUnreadable {cause : AccessFault} :
      Ending fs name path files (.error (.catalogUnreadable path cause), prepared fs path)
  /-- The directory of the catalog could not be created or the catalog could not be opened. -/
  | catalogUnwritten {cause : AccessFault} :
      Ending fs name path files (.error (.catalogWrite path cause), prepared fs path)

private theorem exists_cause_of_prepareDirectory {failure : Failure}
    (h : fs.answer (prepareDirectory path) = .error failure) :
    ∃ cause, failure = .catalogWrite path cause := by
  unfold answer prepareDirectory at h
  split at h
  · cases h
  · split at h
    · cases h
    · exact exists_failure_of_run_orFail (run_eq_of_answer h)

private theorem run_scanFiles_of_not_text (hprepare : fs.answer (prepareDirectory path) = .ok ())
    {bytes : ByteArray} (hbytes : (prepared fs path).bytesAt path = .ok bytes)
    (htext : ∀ text : String, bytes ≠ text.toUTF8) :
    fs.run (scanFiles name path files) =
      (.error (.catalogUnreadable path .notText), prepared fs path) := by
  have hprepared : fs.run (prepareDirectory path) = (.ok (), prepared fs path) :=
    run_eq_of_answer hprepare
  have hfile : (prepared fs path).run (FileAccess.isFile path : StateM FileSystem Bool) =
      (.ok true, prepared fs path) := by
    rw [run_lift, isFile_eq, fileBytes?_eq_some_iff.mpr hbytes]
    rfl
  have hdecode : (prepared fs path).textAt path = .error .notText := by
    unfold textAt decode
    rw [hbytes]
    dsimp only [Except.bind]
    split
    · rfl
    · rename_i text hsome
      exact absurd (decode_eq_ok_iff.mp (by rw [decode, hsome])) (htext text)
  have hkeys : (prepared fs path).run (readKeys path) =
      (.error (.catalogUnreadable path .notText), prepared fs path) := by
    unfold FileSystem.run readKeys ExceptT.run ExceptT.mk StateT.run
    rw [bind_apply, readText_eq, hdecode]
    rfl
  unfold scanFiles
  rw [run_bind_of_ok hprepared, run_bind_of_ok hfile]
  exact run_bind_of_error hkeys _

/-- **A scan of files that were found ends in one of four ways.** -/
theorem ending_run_scanFiles (fs : FileSystem) (name : FunctionName) (path : Path)
    (files : List Path) : Ending fs name path files (fs.run (scanFiles name path files)) := by
  cases hprepare : fs.answer (prepareDirectory path) with
  | error failure =>
      obtain ⟨cause, rfl⟩ := exists_cause_of_prepareDirectory hprepare
      unfold scanFiles
      rw [run_bind_of_error (run_eq_of_answer hprepare)]
      exact .catalogUnwritten
  | ok =>
      -- the merge starts only if the catalog is missing or a text
      by_cases htext : ∃ before : Option String,
          (prepared fs path).fileBytes? path = before.map String.toUTF8
      · obtain ⟨before, hbefore⟩ := htext
        have hnothing : Written (prepared fs path) path before []
            (⟨keysBefore before, none, []⟩ : Progress (StateM FileSystem)).writer
            (prepared fs path) := .nothing
        have hmerging := merging_run_foldlM hnothing hbefore name files
        rw [run_scanFiles hprepare hbefore]
        generalize (prepared fs path).run (files.foldlM (mergeFile name path (modeFor before))
          ⟨keysBefore before, none, []⟩) = result at hmerging ⊢
        cases hmerging with
        | finished hwritten => exact .finished hbefore hwritten
        | unopened => exact .catalogUnwritten
        | @stopped _ progress last front _ _ _ hfiles hfront hwritten hcause =>
            -- the files in front of the one that stopped the merge make a scan of their own
            have hscanned : fs.run (scanFiles name path front) =
                (.ok ⟨path, before.isSome, progress.reportsRev.reverse⟩, last) := by
              rw [run_scanFiles hprepare hbefore, hfront]
            exact .stopped hbefore hwritten hfiles hscanned hcause
      · cases hbytes : (prepared fs path).bytesAt path with
        | error cause => exact absurd ⟨none, by simp [fileBytes?, hbytes, Except.toOption]⟩ htext
        | ok bytes =>
            rw [run_scanFiles_of_not_text hprepare hbytes]
            · exact .catalogUnreadable
            · rintro text rfl
              exact htext ⟨some text, fileBytes?_eq_some_iff.mpr hbytes⟩

/-- What a scan of some files alone leaves, where it stopped at the file behind them: the catalog
holds what these files contribute and nothing else is added to it. -/
structure StoppedBehind (fs : FileSystem) (name : FunctionName) (path : Path) (front : List Path)
    (p : Path) (cause : AccessFault) (last : FileSystem) : Prop where
  unread : last.textAt p = .error cause
  scanned : ∃ summary, fs.run (scanFiles name path front) = (.ok summary, last)
  catalog : ∃ before : Option String,
    (prepared fs path).fileBytes? path = before.map String.toUTF8 ∧
    ((∀ q ∈ front, (prepared fs path).fileLocation? q ≠ (prepared fs path).fileLocation? path) →
      ∃ texts : Path → String, (∀ q ∈ front, (prepared fs path).textAt q = .ok (texts q)) ∧
        last.fileBytes? path = (scannedCatalog name texts before front).map String.toUTF8)

private theorem exists_texts_of_scanFiles {summary : Summary}
    (hbefore : (prepared fs path).fileBytes? path = before.map String.toUTF8)
    (hapart : ∀ p ∈ files,
      (prepared fs path).fileLocation? p ≠ (prepared fs path).fileLocation? path)
    (hrun : fs.run (scanFiles name path files) = (.ok summary, last)) :
    ∃ texts : Path → String, (∀ p ∈ files, (prepared fs path).textAt p = .ok (texts p)) ∧
      last.fileBytes? path = (scannedCatalog name texts before files).map String.toUTF8 := by
  obtain ⟨texts, hsources⟩ := exists_isSource_of_scanFiles hbefore hapart hrun
  obtain ⟨progress, hmerge, -⟩ := exists_run_foldlM_of_scanFiles hbefore hrun
  have hmerged := (merged_nil _ name texts path before).of_run_foldlM hbefore hsources hmerge
  rw [List.nil_append] at hmerged
  exact ⟨texts, fun p hp => (hsources p hp).textAt, hmerged.fileBytes? hbefore⟩

/-- A scan that stops has scanned the files in front as if there were no others. -/
theorem Ending.exists_stoppedBehind {cause : AccessFault}
    (h : Ending fs name path files (.error (.sourceUnreadable p cause), last)) :
    ∃ front back, files = front ++ p :: back ∧ StoppedBehind fs name path front p cause last := by
  cases h with
  | @stopped before _ _ _ summary front back _ _ hbefore _ hfiles hfront hcause =>
      exact ⟨front, back, hfiles, hcause, ⟨summary, hfront⟩, before, hbefore,
        fun hapart => exists_texts_of_scanFiles hbefore hapart hfront⟩

end MessageCatalog.Scan
