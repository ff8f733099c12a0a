import MessageCatalog.Proofs.Catalog.Appending
import MessageCatalog.Proofs.Scan.Phases

/-!
# What a scan writes

The loop of a scan keeps three things while it goes through its files (`Merged`): the known
keys are those of the catalog and the literals of the files so far, the reports are those on
what these files contribute, and what they contribute stands behind what the catalog held.
One file keeps them (`Merged.concat`), so a whole scan does (`Merged.of_run_foldlM`).

Hence a successful scan writes exactly what its files contribute (`scan_writes_contributions`).
-/

namespace MessageCatalog.Scan

open Catalog FileSystem

variable {fs fs' ready : FileSystem} {name : FunctionName} {texts : Path → String}
  {target : Target} {path : Path} {files : List Path} {before : Option String}

/-! ### The catalog during a scan -/

/-- A catalog that is open for writing on a file system that is a value. -/
abbrev CatalogWriter := Catalog.Writer (StateM FileSystem)

/-- The catalog can be opened by a scan. -/
def Opens (ready : FileSystem) (path : Path) (before : Option String) : Prop :=
  ∃ writer next, ready.run (Catalog.Writer.openAt path (modeFor before)) =
    (.ok (writer : CatalogWriter), next)

/-- The catalog and its writer after some entries.  The catalog is not touched before there is an
entry to write. -/
inductive Written (ready : FileSystem) (path : Path) (before : Option String) :
    List Entry → Option CatalogWriter → FileSystem → Prop
  | nothing : Written ready path before [] none ready
  | behind {entries : List Entry} {writer : CatalogWriter} {fs : FileSystem}
      (hopens : Opens ready path before) (hne : entries ≠ [])
      (hholds : writer.Holds fs path (before.getD "" ++ Entry.textOfList entries))
      (hgrows : GrowsAt ready fs writer.file.location)
      (hplace : ready.OpensAt path writer.file.location) :
      Written ready path before entries (some writer) fs

/-- What the catalog holds after some entries. -/
def catalogAfter (before : Option String) (entries : List Entry) : Option String :=
  if entries = [] then before else some (before.getD "" ++ Entry.textOfList entries)

/-- What the catalog holds after a scan of some files. -/
def scannedCatalog (name : FunctionName) (texts : Path → String) (before : Option String)
    (files : List Path) : Option String :=
  catalogAfter before (contributions name texts (keysBefore before) files).flatten

namespace Written

variable {entries : List Entry} {writer : Option CatalogWriter}

theorem grows (h : Written ready path before entries writer fs) : Grows ready fs := by
  cases h with
  | nothing => exact .refl _
  | behind _ _ _ hgrows _ => exact hgrows.grows

theorem fileBytes? (h : Written ready path before entries writer fs)
    (hbefore : ready.fileBytes? path = before.map String.toUTF8) :
    fs.fileBytes? path = (catalogAfter before entries).map String.toUTF8 := by
  cases h with
  | nothing => exact hbefore
  | behind _ hne hholds _ _ =>
      rw [catalogAfter, if_neg hne]
      exact fileBytes?_eq_some_iff.mpr hholds.attached.bytesAt

theorem opens (h : Written ready path before entries writer fs) (hne : entries ≠ []) :
    Opens ready path before := by
  cases h with
  | nothing => exact absurd rfl hne
  | behind hopens _ _ _ _ => exact hopens

theorem eq_ready (h : Written ready path before [] writer fs) : fs = ready := by
  cases h with
  | nothing => rfl
  | behind _ hne _ _ _ => exact absurd rfl hne

/-- Every file but the catalog is read as before, and it is still not the catalog. -/
theorem bytesAt_and_apart (h : Written ready path before entries writer fs) {p : Path}
    {bytes : ByteArray} (hbytes : ready.bytesAt p = .ok bytes)
    (hapart : ready.fileLocation? p ≠ ready.fileLocation? path) :
    fs.bytesAt p = .ok bytes ∧ fs.fileLocation? p ≠ fs.fileLocation? path := by
  cases h with
  | nothing => exact ⟨hbytes, hapart⟩
  -- the catalog was opened at a free place or where it stood, and no source stands at either
  | @behind _ writer _ _ _ hholds hgrows hplace =>
      obtain ⟨l, stamp, hresolve⟩ := bytesAt_eq_ok_iff.mp hbytes
      have hlocation : ready.fileLocation? p = some l :=
        fileLocation?_eq_some_iff.mpr ⟨stamp, bytes, hresolve⟩
      have hne : l ≠ writer.file.location := by
        rintro rfl
        have hnode := node?_of_resolve_file hresolve
        rcases hplace with hfree | hsame
        · simp [hfree] at hnode
        · exact hapart (hlocation.trans hsame.symm)
      refine ⟨?_, ?_⟩
      · rw [hgrows.grows.bytesAt hlocation (hgrows.node? hne), hbytes]
      · rw [hgrows.grows.fileLocation? hlocation, hholds.attached.location]
        simpa using hne

end Written

/-! ### Writing what one file contributes -/

theorem opens_of_some {text : String} (h : ready.bytesAt path = .ok text.toUTF8) :
    Opens ready path (some text) := by
  obtain ⟨writer, hrun, -⟩ := exists_run_openAt_extend h
  exact ⟨writer, ready, hrun⟩

private theorem holds_of_run_openAt (hbefore : ready.fileBytes? path = before.map String.toUTF8)
    {writer : CatalogWriter}
    (hrun : ready.run (Catalog.Writer.openAt path (modeFor before)) = (.ok writer, fs)) :
    writer.Holds fs path (before.getD "") ∧ GrowsAt ready fs writer.file.location ∧
      ready.OpensAt path writer.file.location := by
  cases before with
  | none => exact holds_of_run_openAt_startAnew hrun
  | some text =>
      obtain ⟨writer', hrun', hholds⟩ :=
        exists_run_openAt_extend (fileBytes?_eq_some_iff.mp hbefore)
      cases hrun.symm.trans hrun'
      exact ⟨hholds, .refl _ _, .inr hholds.attached.location⟩

theorem run_writeNew_none {entries : List Entry} (hne : entries ≠ []) (mode : WriteMode) :
    fs.run (writeNew path mode (none : Option CatalogWriter) entries) =
      fs.run (do
        let opened ← Catalog.Writer.openAt path mode
        return some (← opened.writeEntries entries)) := by
  unfold writeNew
  rw [List.isEmpty_eq_false_iff.mpr hne]
  rfl

private theorem run_writeNew_some {entries : List Entry} (hne : entries ≠ []) (mode : WriteMode)
    (writer : CatalogWriter) :
    fs.run (writeNew path mode (some writer) entries) =
      fs.run (do return some (← writer.writeEntries entries)) := by
  unfold writeNew
  rw [List.isEmpty_eq_false_iff.mpr hne]
  rfl

namespace Written

variable {written entries : List Entry} {writer : Option CatalogWriter}

/-- Entries are written if the catalog can be opened. -/
theorem exists_run_writeNew (h : Written ready path before written writer fs)
    (hbefore : ready.fileBytes? path = before.map String.toUTF8)
    (hopens : entries ≠ [] → Opens ready path before) :
    ∃ writer' fs', fs.run (writeNew path (modeFor before) writer entries) = (.ok writer', fs') ∧
      Written ready path before (written ++ entries) writer' fs' := by
  by_cases hne : entries = []
  · subst hne
    exact ⟨writer, fs, rfl, by rwa [List.append_nil]⟩
  cases h with
  -- the first entries open the catalog, later ones go on with its writer
  | nothing =>
      obtain ⟨opened, next, hopen⟩ := hopens hne
      obtain ⟨hholds, hgrows, hplace⟩ := holds_of_run_openAt hbefore hopen
      obtain ⟨writer', fs', hwrite, hlocation, hholds', hgrows'⟩ :=
        exists_run_writeEntries hholds entries
      refine ⟨some writer', fs', ?_, ?_⟩
      · rw [run_writeNew_none hne, run_bind_of_ok hopen, run_bind_of_ok hwrite]
        rfl
      · rw [List.nil_append]
        exact .behind (hopens hne) hne hholds' (by rw [hlocation]; exact hgrows.trans hgrows')
          (by rwa [hlocation])
  | @behind _ opened _ hopened hwritten hholds hgrows hplace =>
      obtain ⟨writer', fs', hwrite, hlocation, hholds', hgrows'⟩ :=
        exists_run_writeEntries hholds entries
      refine ⟨some writer', fs', ?_, ?_⟩
      · rw [run_writeNew_some hne, run_bind_of_ok hwrite]
        rfl
      · refine .behind hopened (by simp [hne]) ?_ (by rw [hlocation]; exact hgrows.trans hgrows')
          (by rwa [hlocation])
        rwa [Entry.textOfList_append, ← String.append_assoc]

private theorem of_run_writeNew (h : Written ready path before written writer fs)
    (hbefore : ready.fileBytes? path = before.map String.toUTF8) {writer' : Option CatalogWriter}
    (hrun : fs.run (writeNew path (modeFor before) writer entries) = (.ok writer', fs')) :
    Written ready path before (written ++ entries) writer' fs' := by
  have hopens : entries ≠ [] → Opens ready path before := by
    intro hne
    cases h with
    | nothing =>
        rw [run_writeNew_none hne] at hrun
        obtain ⟨opened, next, hopen, -⟩ := run_bind_eq_ok_iff.mp hrun
        exact ⟨opened, next, hopen⟩
    | behind hopened _ _ _ _ => exact hopened
  obtain ⟨writer'', fs'', hrun', hwritten⟩ := h.exists_run_writeNew hbefore hopens
  cases hrun.symm.trans hrun'
  exact hwritten

end Written

/-! ### Merging one file -/

/-- A file that a scan can read, and which is not the catalog. -/
structure IsSource (ready : FileSystem) (path p : Path) (text : String) : Prop where
  textAt : ready.textAt p = .ok text
  apart : ready.fileLocation? p ≠ ready.fileLocation? path

theorem Written.isSource {written : List Entry} {writer : Option CatalogWriter}
    (h : Written ready path before written writer fs) {p : Path} {text : String}
    (hsource : IsSource ready path p text) : IsSource fs path p text := by
  obtain ⟨hbytes, hapart⟩ :=
    h.bytesAt_and_apart (textAt_eq_ok_iff.mp hsource.textAt) hsource.apart
  exact ⟨textAt_eq_ok_iff.mpr hbytes, hapart⟩

/-- A scan behind some files. -/
structure Merged (ready : FileSystem) (name : FunctionName) (texts : Path → String) (path : Path)
    (before : Option String) (front : List Path) (progress : Progress (StateM FileSystem))
    (fs : FileSystem) : Prop where
  known : ∀ key, key ∈ progress.known ↔
    key ∈ keysBefore before ∨ ∃ q ∈ front, key ∈ Call.literals name (texts q)
  reports : progress.reportsRev.reverse =
    List.zipWith (reportOn name texts) front (contributions name texts (keysBefore before) front)
  written : Written ready path before
    (contributions name texts (keysBefore before) front).flatten progress.writer fs

theorem merged_nil (ready : FileSystem) (name : FunctionName) (texts : Path → String)
    (path : Path) (before : Option String) :
    Merged ready name texts path before [] ⟨keysBefore before, none, []⟩ ready :=
  ⟨fun key => by simp, rfl, .nothing⟩

/-- A file that can be read hands its new entries to the writer. -/
theorem run_mergeFile {mode : WriteMode} {progress : Progress (StateM FileSystem)} {p : Path}
    {text : String} (htext : fs.textAt p = .ok text) :
    fs.run (mergeFile name path mode progress p) =
      fs.run (do
        let entries := newEntries progress.known p (Call.distinctLiterals name text)
        let writer ← writeNew path mode progress.writer entries
        return {
          known := progress.known.insertMany (entries.map Entry.key)
          writer
          reportsRev := ⟨p, (Call.distinctLiterals name text).length, entries.length⟩ ::
            progress.reportsRev }) := by
  unfold mergeFile
  have hread : fs.run (Action.orFail (FileAccess.readText p) (.sourceUnreadable p)) =
      (.ok text, fs) := by
    rw [run_orFail, readText_eq, htext]
    rfl
  exact run_bind_of_ok hread _

namespace Merged

variable {front : List Path} {progress progress' : Progress (StateM FileSystem)} {p : Path}

/-- The catalog behind some files is what a scan of these files leaves. -/
theorem fileBytes? (h : Merged ready name texts path before front progress fs)
    (hbefore : ready.fileBytes? path = before.map String.toUTF8) :
    fs.fileBytes? path = (scannedCatalog name texts before front).map String.toUTF8 :=
  h.written.fileBytes? hbefore

theorem newEntries_eq (h : Merged ready name texts path before front progress fs) (p : Path) :
    newEntries progress.known p (Call.distinctLiterals name (texts p)) =
      contribution name texts (keysBefore before) front p := by
  unfold newEntries contribution freshLiterals
  refine congrArg _ (List.filter_congr fun key _ => ?_)
  rw [Bool.eq_iff_iff, decide_eq_true_iff, Bool.not_eq_true', ← Bool.not_eq_true,
    Std.TreeSet.contains_iff_mem, h.known]
  push Not
  rfl

/-- **One file keeps what a scan keeps.** -/
theorem concat (h : Merged ready name texts path before front progress fs)
    {writer : Option CatalogWriter}
    (hwritten : Written ready path before
      ((contributions name texts (keysBefore before) front).flatten ++
        contribution name texts (keysBefore before) front p) writer fs') :
    Merged ready name texts path before (front ++ [p])
      { known := progress.known.insertMany
          ((contribution name texts (keysBefore before) front p).map Entry.key)
        writer
        reportsRev := ⟨p, (Call.distinctLiterals name (texts p)).length,
          (contribution name texts (keysBefore before) front p).length⟩ :: progress.reportsRev }
      fs' where
  known key := by
    -- a literal of the file that is not new was known before
    rw [Std.TreeSet.mem_insertMany_list, h.known, keys_contribution, List.contains_iff_mem,
      mem_freshLiterals_iff]
    constructor
    · rintro (hold | ⟨hliteral, -⟩)
      · refine hold.imp_right ?_
        rintro ⟨q, hq, hliteral⟩
        exact ⟨q, List.mem_append_left _ hq, hliteral⟩
      · exact .inr ⟨p, by simp, hliteral⟩
    · intro hnew
      by_cases hold : key ∈ keysBefore before ∨ ∃ q ∈ front, key ∈ Call.literals name (texts q)
      · exact .inl hold
      · obtain ⟨hknown, hearlier⟩ := not_or.mp hold
        obtain ⟨q, hq, hliteral⟩ := hnew.resolve_left hknown
        rcases List.mem_append.mp hq with hq | hq
        · exact absurd ⟨q, hq, hliteral⟩ hearlier
        · obtain rfl := List.mem_singleton.mp hq
          exact .inr ⟨hliteral, hknown, fun r hr hmem => hearlier ⟨r, hr, hmem⟩⟩
  reports := by
    rw [List.reverse_cons, h.reports, contributions_concat,
      List.zipWith_append (by simp [contributions])]
    simp [reportOn, length_distinctLiterals]
  written := by
    rwa [flatten_contributions_concat]

/-- A file can be merged if the catalog can be opened for what it contributes. -/
theorem exists_run_mergeFile (h : Merged ready name texts path before front progress fs)
    (hbefore : ready.fileBytes? path = before.map String.toUTF8)
    (hsource : IsSource ready path p (texts p))
    (hopens : contribution name texts (keysBefore before) front p ≠ [] →
      Opens ready path before) :
    ∃ progress' fs',
      fs.run (mergeFile name path (modeFor before) progress p) = (.ok progress', fs') ∧
        Merged ready name texts path before (front ++ [p]) progress' fs' := by
  obtain ⟨writer, fs', hrun, hwritten⟩ := h.written.exists_run_writeNew hbefore hopens
  refine ⟨_, fs', ?_, h.concat hwritten⟩
  rw [run_mergeFile (h.written.isSource hsource).textAt, h.newEntries_eq]
  exact run_bind_of_ok hrun _

theorem of_run_mergeFile (h : Merged ready name texts path before front progress fs)
    (hbefore : ready.fileBytes? path = before.map String.toUTF8)
    (hsource : IsSource ready path p (texts p))
    (hrun : fs.run (mergeFile name path (modeFor before) progress p) = (.ok progress', fs')) :
    Merged ready name texts path before (front ++ [p]) progress' fs' := by
  rw [run_mergeFile (h.written.isSource hsource).textAt, h.newEntries_eq] at hrun
  obtain ⟨writer, next, hwrite, hrest⟩ := run_bind_eq_ok_iff.mp hrun
  cases hrest
  exact h.concat (h.written.of_run_writeNew hbefore hwrite)

/-! ### Merging all files -/

/-- **A scan that gets through its files keeps what one file keeps.** -/
theorem of_run_foldlM (h : Merged ready name texts path before front progress fs)
    (hbefore : ready.fileBytes? path = before.map String.toUTF8)
    (hsources : ∀ p ∈ files, IsSource ready path p (texts p))
    (hrun : fs.run (files.foldlM (mergeFile name path (modeFor before)) progress) =
      (.ok progress', fs')) :
    Merged ready name texts path before (front ++ files) progress' fs' := by
  induction files generalizing front progress fs with
  | nil =>
      cases hrun
      rwa [List.append_nil]
  | cons p files ih =>
      obtain ⟨hsource, hsources⟩ := List.forall_mem_cons.mp hsources
      rw [List.foldlM_cons] at hrun
      obtain ⟨next, fs₁, hfile, hrest⟩ := run_bind_eq_ok_iff.mp hrun
      have hmerged := ih (h.of_run_mergeFile hbefore hsource hfile) hsources hrest
      rwa [List.append_assoc] at hmerged

/-- A scan gets through files that it can read if the catalog can be opened for what they
contribute. -/
theorem exists_run_foldlM (h : Merged ready name texts path before front progress fs)
    (hbefore : ready.fileBytes? path = before.map String.toUTF8)
    (hsources : ∀ p ∈ files, IsSource ready path p (texts p))
    (hopens : (contributions name texts (keysBefore before) (front ++ files)).flatten ≠ [] →
      Opens ready path before) :
    ∃ progress' fs',
      fs.run (files.foldlM (mergeFile name path (modeFor before)) progress) =
        (.ok progress', fs') ∧
      Merged ready name texts path before (front ++ files) progress' fs' := by
  induction files generalizing front progress fs with
  | nil => exact ⟨progress, fs, rfl, by rwa [List.append_nil]⟩
  | cons p files ih =>
      obtain ⟨hsource, hsources⟩ := List.forall_mem_cons.mp hsources
      rw [← List.singleton_append, ← List.append_assoc] at hopens
      -- what this file contributes is a part of what all the files contribute
      have hopensFile : contribution name texts (keysBefore before) front p ≠ [] →
          Opens ready path before := by
        intro hne
        refine hopens fun hnil => hne ?_
        rw [contributions_append, List.flatten_append, flatten_contributions_concat] at hnil
        exact (List.append_eq_nil_iff.mp (List.append_eq_nil_iff.mp hnil).1).2
      obtain ⟨next, fs₁, hfile, hnext⟩ := h.exists_run_mergeFile hbefore hsource hopensFile
      obtain ⟨progress', fs', hrest, hmerged⟩ := ih hnext hsources hopens
      refine ⟨progress', fs', ?_, ?_⟩
      · rw [List.foldlM_cons, run_bind_of_ok hfile]
        exact hrest
      · rwa [List.append_assoc] at hmerged

end Merged

/-! ### A whole scan -/

theorem isSource_prepared {p : Path} {text : String} (htext : fs.textAt p = .ok text)
    (hapart : (prepared fs path).fileLocation? p ≠ (prepared fs path).fileLocation? path) :
    IsSource (prepared fs path) path p text :=
  ⟨textAt_eq_ok_iff.mpr ((adds_prepareDirectory fs path).bytesAt (textAt_eq_ok_iff.mp htext)),
    hapart⟩

theorem answer_prepareDirectory_of_scanFiles {summary : Summary} {last : FileSystem}
    (hrun : fs.run (scanFiles name path files) = (.ok summary, last)) :
    fs.answer (prepareDirectory path) = .ok () := by
  unfold scanFiles at hrun
  obtain ⟨⟨⟩, next, hprepare, -⟩ := run_bind_eq_ok_iff.mp hrun
  exact congrArg Prod.fst hprepare

theorem exists_run_foldlM_of_scanFiles {summary : Summary} {last : FileSystem}
    (hbefore : (prepared fs path).fileBytes? path = before.map String.toUTF8)
    (hrun : fs.run (scanFiles name path files) = (.ok summary, last)) :
    ∃ progress, (prepared fs path).run (files.foldlM (mergeFile name path (modeFor before))
        ⟨keysBefore before, none, []⟩) = (.ok progress, last) ∧
      summary = ⟨path, before.isSome, progress.reportsRev.reverse⟩ := by
  have hprepare := answer_prepareDirectory_of_scanFiles hrun
  rw [run_scanFiles hprepare hbefore] at hrun
  split at hrun
  · rename_i progress last' hmerge
    cases hrun
    exact ⟨progress, hmerge, rfl⟩
  · cases hrun

theorem run_scanFiles_of_scan {summary : Summary}
    (hcollect : fs.answer (collectFiles target) = .ok files)
    (hscan : fs.answer (scan name target path) = .ok summary) :
    fs.run (scanFiles name path files) = (.ok summary, fs.after (scan name target path)) := by
  rw [← run_scan_of_collectFiles hcollect, run_eq_of_answer hscan]

theorem answer_prepareDirectory_of_scan {summary : Summary}
    (hcollect : fs.answer (collectFiles target) = .ok files)
    (hscan : fs.answer (scan name target path) = .ok summary) :
    fs.answer (prepareDirectory path) = .ok () :=
  answer_prepareDirectory_of_scanFiles (run_scanFiles_of_scan hcollect hscan)

theorem exists_run_foldlM_of_scan {summary : Summary}
    (hcollect : fs.answer (collectFiles target) = .ok files)
    (hbefore : (prepared fs path).fileBytes? path = before.map String.toUTF8)
    (hscan : fs.answer (scan name target path) = .ok summary) :
    ∃ progress, (prepared fs path).run (files.foldlM (mergeFile name path (modeFor before))
        ⟨keysBefore before, none, []⟩) = (.ok progress, fs.after (scan name target path)) ∧
      summary = ⟨path, before.isSome, progress.reportsRev.reverse⟩ :=
  exists_run_foldlM_of_scanFiles hbefore (run_scanFiles_of_scan hcollect hscan)

/-- A scan that succeeds has found its files. -/
theorem exists_collectFiles_of_scan {summary : Summary}
    (hscan : fs.answer (scan name target path) = .ok summary) :
    ∃ files, fs.answer (collectFiles target) = .ok files := by
  have hrun := run_eq_of_answer hscan
  rw [scan_eq] at hrun
  obtain ⟨files, next, hcollect, -⟩ := run_bind_eq_ok_iff.mp hrun
  exact ⟨files, congrArg Prod.fst hcollect⟩

/-- A successful scan has merged all its files. -/
theorem merged_of_scan {summary : Summary}
    (hcollect : fs.answer (collectFiles target) = .ok files)
    (hbefore : (prepared fs path).fileBytes? path = before.map String.toUTF8)
    (hsources : ∀ p ∈ files, IsSource (prepared fs path) path p (texts p))
    (hscan : fs.answer (scan name target path) = .ok summary) :
    ∃ progress, Merged (prepared fs path) name texts path before files progress
        (fs.after (scan name target path)) ∧
      summary = ⟨path, before.isSome, progress.reportsRev.reverse⟩ := by
  obtain ⟨progress, hmerge, hsummary⟩ := exists_run_foldlM_of_scan hcollect hbefore hscan
  have hmerged := (merged_nil _ name texts path before).of_run_foldlM hbefore hsources hmerge
  rw [List.nil_append] at hmerged
  exact ⟨progress, hmerged, hsummary⟩

/-- A scan succeeds if it can read its files and open the catalog for what they contribute. -/
theorem exists_run_scan (name : FunctionName)
    (hcollect : fs.answer (collectFiles target) = .ok files)
    (hprepare : fs.answer (prepareDirectory path) = .ok ())
    (hbefore : (prepared fs path).fileBytes? path = before.map String.toUTF8)
    (hsources : ∀ p ∈ files, IsSource (prepared fs path) path p (texts p))
    (hopens : (contributions name texts (keysBefore before) files).flatten ≠ [] →
      Opens (prepared fs path) path before) :
    ∃ progress last, Merged (prepared fs path) name texts path before files progress last ∧
      fs.run (scan name target path) =
        (.ok ⟨path, before.isSome, List.zipWith (reportOn name texts) files
          (contributions name texts (keysBefore before) files)⟩, last) := by
  obtain ⟨progress, last, hmerge, hmerged⟩ :=
    (merged_nil _ name texts path before).exists_run_foldlM hbefore hsources
      (by rwa [List.nil_append])
  rw [List.nil_append] at hmerged
  refine ⟨progress, last, hmerged, ?_⟩
  rw [run_scan hcollect hprepare hbefore, hmerge, ← hmerged.reports]

/-- **A successful scan writes what its files contribute.**  The catalog is judged once its
directory is there; what it held before that is what it holds then. -/
theorem scan_writes_contributions {summary : Summary}
    (hcollect : fs.answer (collectFiles target) = .ok files)
    (hreadable : ∀ p ∈ files, fs.textAt p = .ok (texts p))
    (hbefore : (prepared fs path).fileBytes? path = before.map String.toUTF8)
    (hapart : ∀ p ∈ files,
      (prepared fs path).fileLocation? p ≠ (prepared fs path).fileLocation? path)
    (hscan : fs.answer (scan name target path) = .ok summary) :
    let contributed := contributions name texts (keysBefore before) files
    let written := contributed.flatten
    (fs.after (scan name target path)).fileBytes? path =
        (if written = [] then before
          else some (before.getD "" ++ Entry.textOfList written)).map String.toUTF8 ∧
      summary = ⟨path, before.isSome, List.zipWith (reportOn name texts) files contributed⟩ ∧
      (∀ p ∈ files, p.fileName? = some (sourceRef p)) ∧
      (written.map Entry.key).Nodup ∧
      (∀ key, key ∈ written.map Entry.key ↔
        (∃ p ∈ files, key ∈ Call.literals name (texts p)) ∧ key ∉ keysBefore before) ∧
      (∀ bytes, fs.fileBytes? path = some bytes → before.map String.toUTF8 = some bytes) ∧
      (written = [] → fs.after (scan name target path) = prepared fs path) := by
  intro contributed written
  obtain ⟨progress, hmerged, rfl⟩ := merged_of_scan hcollect hbefore
    (fun p hp => isSource_prepared (hreadable p hp) (hapart p hp)) hscan
  refine ⟨hmerged.written.fileBytes? hbefore, by rw [hmerged.reports],
    fun p hp => fileName?_of_mem_collectFiles hcollect hp, nodup_keys_contributions,
    fun key => mem_keys_contributions_iff, fun bytes hbytes => ?_, fun hnil => ?_⟩
  · rw [← hbefore, fileBytes?_eq_some_iff]
    exact (adds_prepareDirectory fs path).bytesAt (fileBytes?_eq_some_iff.mp hbytes)
  · have hwritten := hmerged.written
    rw [show (contributions name texts (keysBefore before) files).flatten = [] from hnil]
      at hwritten
    exact hwritten.eq_ready

/-! ### A small site -/

/-- A file system with another node at a location, if it can hold one. -/
def withNode (fs : FileSystem) (l : Location) (node : Node) : FileSystem :=
  (fs.store l node).toOption.getD fs

/-- The directory of the site. -/
def siteLocation : Location :=
  [⟨"site", by decide⟩]

/-- The location of the second file of the site. -/
def siteOther : Location :=
  siteLocation ++ [⟨"Other.cs", by decide⟩]

/-- A directory with two source files. -/
def site (main other : ByteArray) : FileSystem :=
  let directory := withNode .empty siteLocation .directory
  let first := withNode directory (siteLocation ++ [⟨"Main.cs", by decide⟩]) (.file 0 main)
  withNode first siteOther (.file 1 other)

/-- The site with a catalog. -/
def siteWithCatalog (main other catalog : ByteArray) : FileSystem :=
  let directory := withNode (site main other) (siteLocation ++ [⟨"POs", by decide⟩]) .directory
  withNode directory (siteLocation ++ [⟨"POs", by decide⟩, ⟨"fr.po", by decide⟩])
    (.file 2 catalog)

/-- The translation function of the site. -/
def siteFunction : FunctionName :=
  ⟨['t'], by simp, fun c hc => by rw [List.mem_singleton.mp hc]; decide⟩

def siteTarget : Target :=
  ⟨⟨"/site"⟩, ["*.cs"], []⟩

def siteCatalog : Path :=
  ⟨"/site/POs/fr.po"⟩

def siteFiles : List Path :=
  [⟨"/site/Main.cs"⟩, ⟨"/site/Other.cs"⟩]

/-- The texts of the files of the site. -/
def siteTexts (main other : String) (p : Path) : String :=
  if p = ⟨"/site/Main.cs"⟩ then main else other

/-- Two files share a literal, and a catalog holds another one already. -/
theorem scan_writes_contributions_of_site :
    ((siteWithCatalog "t(\"Save\"); t(\"Open\"); t(\"Save\")".toUTF8
          "t(\"Open\"); t(\"Close\"); t(\"Quit\")".toUTF8 "msgid \"Close\"\n".toUTF8).after
        (scan siteFunction siteTarget siteCatalog)).fileBytes? siteCatalog =
      some ("msgid \"Close\"\n" ++ Entry.textOfList [.untranslated "Main.cs" "Save",
        .untranslated "Main.cs" "Open", .untranslated "Other.cs" "Quit"]).toUTF8 := by
  generalize hfs : siteWithCatalog _ _ _ = fs
  have hresult := scan_writes_contributions
    (show fs.answer (collectFiles siteTarget) = .ok siteFiles by rw [← hfs]; decide +kernel)
    (show ∀ p ∈ siteFiles, fs.textAt p = .ok (siteTexts "t(\"Save\"); t(\"Open\"); t(\"Save\")"
      "t(\"Open\"); t(\"Close\"); t(\"Quit\")" p) by rw [← hfs]; decide +kernel)
    (show (prepared fs siteCatalog).fileBytes? siteCatalog =
      (some "msgid \"Close\"\n").map String.toUTF8 by rw [← hfs]; decide +kernel)
    (by rw [← hfs]; decide +kernel)
    (show fs.answer (scan siteFunction siteTarget siteCatalog) =
      .ok ⟨siteCatalog, true, [⟨⟨"/site/Main.cs"⟩, 2, 2⟩, ⟨⟨"/site/Other.cs"⟩, 3, 1⟩]⟩
      by rw [← hfs]; decide +kernel)
  rw [hresult.1]
  decide +kernel

end MessageCatalog.Scan
