import MessageCatalog.Proofs.FileSystem.Denotation
import MessageCatalog.Proofs.FileSystem.Directories
import MessageCatalog.Proofs.Scan.Contribution

/-!
# The phases of a scan

On a file system that is a value, a scan looks for its files, which changes nothing
(`run_collectFiles`), sees to the directory of the catalog, which adds directories and nothing
else (`adds_prepareDirectory`) and has no effect when it is done again
(`run_prepareDirectory_again`), reads the keys of the catalog, and merges the files one by one
(`run_scan`).

The root that is walked is the canonical form of the root of the target (`walkedRoot_eq`), and the
directories that are left out are the canonical forms of the excludes, which start there
(`leftOut_eq`).
-/

namespace MessageCatalog.Scan

open Catalog FileSystem

variable {fs fs' : FileSystem} {name : FunctionName} {target : Target} {path p : Path}
  {files : List Path} {before : Option String} {l : Location}

/-! ### Canonical forms -/

/-- The canonical form of a path, or the path itself. -/
def normalized (fs : FileSystem) (p : Path) : Path :=
  match fs.canonicalLocation p with
  | .ok l => l.toPath
  | .error _ => p

theorem normalized_of_told (h : fs.canonicalLocation p = .ok l) : normalized fs p = l.toPath := by
  rw [normalized, h]

theorem normalized_of_not_told (h : ¬ fs.Told p) : normalized fs p = p := by
  unfold normalized
  split
  · rename_i l htold
    exact absurd ⟨l, htold⟩ h
  · rfl

theorem normalize_apply (fs : FileSystem) (p : Path) :
    (normalize p : StateM FileSystem Path) fs = (normalized fs p, fs) := by
  have hlook : (FileAccess.canonicalPath p : StateM FileSystem (Except AccessFault Path)) fs =
      ((fs.canonicalLocation p).map Location.toPath, fs) := rfl
  unfold normalize normalized
  rw [bind_apply, hlook]
  cases fs.canonicalLocation p <;> rfl

theorem readOnly_normalize (p : Path) : ReadOnly (normalize p) := fun fs => by
  rw [normalize_apply]

/-! ### Looking for files -/

/-- The root that is walked. -/
def walkedRoot (fs : FileSystem) (target : Target) : Path :=
  ((normalize target.root : StateM FileSystem Path) fs).1

/-- The directories whose own files are left out. -/
def leftOut (fs : FileSystem) (target : Target) : List Path :=
  ((target.excludes.mapM fun dir => normalize ((walkedRoot fs target).join dir) :
    StateM FileSystem (List Path)) fs).1

theorem walkedRoot_eq (fs : FileSystem) (target : Target) :
    walkedRoot fs target = normalized fs target.root := by
  rw [walkedRoot, normalize_apply]

theorem leftOut_eq (fs : FileSystem) (target : Target) :
    leftOut fs target =
      target.excludes.map fun dir => normalized fs ((walkedRoot fs target).join dir) := by
  rw [leftOut, ReadOnly.mapM_apply fun _ => readOnly_normalize _]
  simp only [normalize_apply]

/-- Files are found by their patterns on a walk, and nothing is changed. -/
theorem run_collectFiles (fs : FileSystem) (target : Target) :
    fs.run (collectFiles target) =
      match compileIncludes target.includes with
      | .error failure => (.error failure, fs)
      | .ok patterns =>
        if patterns.isEmpty then (.ok [], fs)
        else
          match fs.filesFrom (walkedRoot fs target) with
          | .error fault => (.error (.walk fault), fs)
          | .ok walked => (.ok (selectFiles patterns (leftOut fs target) walked), fs) := by
  have hroot : (normalize target.root : StateM FileSystem Path) fs = (walkedRoot fs target, fs) :=
    Prod.ext rfl (readOnly_normalize _ fs)
  have hexcludes : (target.excludes.mapM fun dir => normalize ((walkedRoot fs target).join dir) :
      StateM FileSystem (List Path)) fs = (leftOut fs target, fs) :=
    Prod.ext rfl (ReadOnly.mapM (fun _ => readOnly_normalize _) _ fs)
  unfold collectFiles
  rw [run_bind]
  cases compileIncludes target.includes with
  | error failure => rfl
  | ok patterns =>
      change fs.run (if patterns.isEmpty = true then _ else _) = _
      dsimp only
      split
      · rfl
      · simp only [run_bind, run_lift, hroot, hexcludes]
        change fs.run (match fs.filesFrom (walkedRoot fs target) with
          | .error _ => _
          | .ok _ => _) = _
        cases fs.filesFrom (walkedRoot fs target) <;> rfl

theorem after_collectFiles (fs : FileSystem) (target : Target) :
    fs.after (collectFiles target) = fs := by
  rw [after, run_collectFiles]
  split
  · rfl
  · split
    · rfl
    · split <;> rfl

/-- The files that are found are those that the patterns select on the walk; without patterns there
is no walk. -/
theorem eq_selectFiles_of_collectFiles (hcollect : fs.answer (collectFiles target) = .ok files) :
    ∃ patterns, compileIncludes target.includes = .ok patterns ∧
      (patterns = [] ∧ files = [] ∨ ∃ walked, fs.filesFrom (walkedRoot fs target) = .ok walked ∧
        files = selectFiles patterns (leftOut fs target) walked) := by
  rw [answer, run_collectFiles] at hcollect
  split at hcollect
  · cases hcollect
  · rename_i patterns hpatterns
    refine ⟨patterns, hpatterns, ?_⟩
    split at hcollect
    · rename_i hempty
      cases hcollect
      exact .inl ⟨List.isEmpty_iff.mp hempty, rfl⟩
    · split at hcollect
      · cases hcollect
      · rename_i walked hwalked
        cases hcollect
        exact .inr ⟨walked, hwalked, rfl⟩

theorem exists_error_of_mapM {α β ε : Type} {f : α → Except ε β} {items : List α} {error : ε}
    (h : items.mapM f = .error error) : ∃ item ∈ items, f item = .error error := by
  induction items with
  | nil => cases h
  | cons item items ih =>
      rw [List.mapM_cons] at h
      cases hitem : f item with
      | error error' =>
          rw [hitem] at h
          cases h
          exact ⟨item, List.mem_cons_self .., hitem⟩
      | ok b =>
          cases hothers : items.mapM f with
          | error error' =>
              rw [hitem, hothers] at h
              cases h
              obtain ⟨other, hmem, hother⟩ := ih hothers
              exact ⟨other, List.mem_cons_of_mem _ hmem, hother⟩
          | ok bs =>
              rw [hitem, hothers] at h
              cases h

/-- Looking for files fails at a text that is no pattern or on the walk. -/
theorem failure_of_collectFiles {failure : Failure}
    (h : fs.answer (collectFiles target) = .error failure) :
    (∃ pattern fault, failure = .includePattern pattern fault) ∨
      ∃ fault, failure = .walk fault := by
  rw [answer, run_collectFiles] at h
  split at h
  · rename_i hcompile
    cases h
    obtain ⟨pattern, -, hpattern⟩ := exists_error_of_mapM hcompile
    cases hfault : Glob.Pattern.ofString? pattern with
    | ok => simp [hfault, Except.mapError] at hpattern
    | error fault =>
        rw [hfault] at hpattern
        cases hpattern
        exact .inl ⟨pattern, fault, rfl⟩
  · split at h
    · cases h
    · split at h
      · rename_i fault _
        cases h
        exact .inr ⟨fault, rfl⟩
      · cases h

/-- Every file of a scan has a bare name. -/
theorem fileName?_of_mem_collectFiles (hcollect : fs.answer (collectFiles target) = .ok files)
    {p : Path} (hp : p ∈ files) : p.fileName? = some (sourceRef p) := by
  obtain ⟨_, _, ⟨_, rfl⟩ | ⟨_, _, rfl⟩⟩ := eq_selectFiles_of_collectFiles hcollect
  · cases hp
  · unfold selectFiles at hp
    rw [List.mem_eraseDups, List.mem_flatMap] at hp
    obtain ⟨pattern, -, hp⟩ := hp
    have hselects := (List.mem_filter.mp hp).2
    unfold selects at hselects
    unfold sourceRef
    cases hname : p.fileName? with
    | none => simp [hname] at hselects
    | some bare => rfl

/-- No file of a scan is found twice. -/
theorem nodup_of_collectFiles (hcollect : fs.answer (collectFiles target) = .ok files) :
    files.Nodup := by
  obtain ⟨_, _, ⟨_, rfl⟩ | ⟨_, _, rfl⟩⟩ := eq_selectFiles_of_collectFiles hcollect
  · exact List.nodup_nil
  · exact nodup_eraseDups _

/-! ### The directory of the catalog -/

/-- The file system once the directory of a catalog is there. -/
def prepared (fs : FileSystem) (path : Path) : FileSystem :=
  fs.after (prepareDirectory path)

theorem run_prepareDirectory (fs : FileSystem) (path : Path) :
    fs.run (prepareDirectory path) =
      match path.parent? with
      | none => (.ok (), fs)
      | some dir =>
        if dir.text.isEmpty then (.ok (), fs)
        else ((fs.createChain dir.ancestors).1.mapError (.catalogWrite path),
          (fs.createChain dir.ancestors).2) := by
  unfold prepareDirectory
  cases path.parent? with
  | none => rfl
  | some dir =>
      dsimp only
      split
      · rfl
      · exact run_orFail _ _ _

/-- The paths of the directories above a path. -/
def directoriesAbove (path : Path) : List Path :=
  path.parent?.elim [] Path.ancestors

/-- Seeing to the directory of a catalog adds directories above the catalog only. -/
theorem addsAlong_prepareDirectory (fs : FileSystem) (path : Path) :
    AddsAlong (directoriesAbove path) fs (prepared fs path) := by
  unfold prepared after directoriesAbove
  rw [run_prepareDirectory]
  cases path.parent? with
  | none => exact .refl _ fs
  | some dir =>
      dsimp only
      split
      · exact .refl _ fs
      · exact (fs.createChain_spec _).1

theorem adds_prepareDirectory (fs : FileSystem) (path : Path) :
    AddsDirectories fs (prepared fs path) :=
  (addsAlong_prepareDirectory fs path).toAddsDirectories

/-- **Once the directory of a catalog is there, nothing is left to create.** -/
theorem run_prepareDirectory_again (hprepare : fs.answer (prepareDirectory path) = .ok ())
    (hgrows : Grows (prepared fs path) fs') :
    fs'.run (prepareDirectory path) = (.ok (), fs') := by
  unfold answer at hprepare
  unfold prepared after at hgrows
  rw [run_prepareDirectory] at hprepare hgrows ⊢
  split
  · rfl
  · rename_i dir hdir
    simp only [hdir] at hprepare hgrows
    split
    · rfl
    · rename_i hne
      rw [if_neg hne] at hprepare hgrows
      obtain ⟨parents, hparents⟩ : ∃ parents, dir.ancestors = dir :: parents :=
        ⟨_, dir.ancestors_eq⟩
      have hdone : (fs.createChain dir.ancestors).1 = .ok () := by
        cases hchain : (fs.createChain dir.ancestors).1 with
        | ok => rfl
        | error cause =>
            simp only [hchain] at hprepare
            cases hprepare
      -- the directory is there since the first time, and it stays there in every growth
      have hkind := (fs.createChain_spec dir.ancestors).2 hdone dir (by rw [hparents]; rfl)
        (by simpa using hne)
      rw [hparents, createChain_of_kindAt? fun _ => hgrows.kindAt?_directory hkind]
      rfl

/-! ### The catalog before the scan -/

/-- How a catalog is opened by a scan. -/
def modeFor (before : Option String) : WriteMode :=
  if before.isSome then .extend else .startAnew

/-- The keys that a scan starts with. -/
def keysBefore (before : Option String) : KeySet :=
  before.elim ∅ keys

private theorem run_readKeys {text : String} (h : fs.bytesAt path = .ok text.toUTF8) :
    fs.run (readKeys path) = (.ok (keys text), fs) := by
  unfold FileSystem.run readKeys ExceptT.run ExceptT.mk StateT.run
  rw [bind_apply, readText_eq, textAt_eq_ok_iff.mpr h]
  rfl

/-- A scan once its files are found. -/
def scanFiles {m : Type → Type} [Monad m] [FileAccess m] (name : FunctionName) (path : Path)
    (files : List Path) : Action m Summary := do
  prepareDirectory path
  let existed ← (FileAccess.isFile path : m Bool)
  let known ← if existed then readKeys path else pure ∅
  let mode := if existed then .extend else .startAnew
  let progress ← files.foldlM (mergeFile name path mode) ⟨known, none, []⟩
  return ⟨path, existed, progress.reportsRev.reverse⟩

theorem scan_eq {m : Type → Type} [Monad m] [FileAccess m] :
    (scan name target path : Action m Summary) = collectFiles target >>= scanFiles name path :=
  rfl

/-- A scan merges the files that it finds. -/
theorem run_scan_of_collectFiles (hcollect : fs.answer (collectFiles target) = .ok files) :
    fs.run (scan name target path) = fs.run (scanFiles name path files) := by
  have hcollected := run_eq_of_answer hcollect
  rw [after_collectFiles] at hcollected
  rw [scan_eq, run_bind_of_ok hcollected]

private theorem run_isFile (hbefore : fs.fileBytes? path = before.map String.toUTF8) :
    fs.run (FileAccess.isFile path : StateM FileSystem Bool) = (.ok before.isSome, fs) := by
  rw [run_lift, isFile_eq, hbefore, Option.isSome_map]

/-- Files are merged into the catalog that stands in its directory. -/
theorem run_scanFiles (hprepare : fs.answer (prepareDirectory path) = .ok ())
    (hbefore : (prepared fs path).fileBytes? path = before.map String.toUTF8) :
    fs.run (scanFiles name path files) =
      match (prepared fs path).run
          (files.foldlM (mergeFile name path (modeFor before)) ⟨keysBefore before, none, []⟩) with
      | (.ok progress, last) =>
        (.ok ⟨path, before.isSome, progress.reportsRev.reverse⟩, last)
      | (.error failure, last) => (.error failure, last) := by
  have hprepared : fs.run (prepareDirectory path) = (.ok (), prepared fs path) :=
    run_eq_of_answer hprepare
  unfold scanFiles
  rw [run_bind_of_ok hprepared, run_bind_of_ok (run_isFile hbefore)]
  -- whichever keys are known, what is left of the scan is the merge and its summary
  have hmerging : ∀ known : KeySet, (prepared fs path).run (do
        let progress ← files.foldlM (mergeFile name path (modeFor before)) ⟨known, none, []⟩
        return (⟨path, before.isSome, progress.reportsRev.reverse⟩ : Summary)) =
      match (prepared fs path).run
          (files.foldlM (mergeFile name path (modeFor before)) ⟨known, none, []⟩) with
      | (.ok progress, last) =>
        (.ok ⟨path, before.isSome, progress.reportsRev.reverse⟩, last)
      | (.error failure, last) => (.error failure, last) := by
    intro known
    rw [run_bind]
    rcases (prepared fs path).run (files.foldlM (mergeFile name path (modeFor before))
      ⟨known, none, []⟩) with ⟨_ | _, _⟩ <;> rfl
  cases before with
  | none => exact hmerging ∅
  | some text =>
      have hknown := run_readKeys (fileBytes?_eq_some_iff.mp hbefore)
      exact (run_bind_of_ok hknown _).trans (hmerging (keys text))

/-- A scan merges its files into the catalog that stands in its directory. -/
theorem run_scan (hcollect : fs.answer (collectFiles target) = .ok files)
    (hprepare : fs.answer (prepareDirectory path) = .ok ())
    (hbefore : (prepared fs path).fileBytes? path = before.map String.toUTF8) :
    fs.run (scan name target path) =
      match (prepared fs path).run
          (files.foldlM (mergeFile name path (modeFor before)) ⟨keysBefore before, none, []⟩) with
      | (.ok progress, last) =>
        (.ok ⟨path, before.isSome, progress.reportsRev.reverse⟩, last)
      | (.error failure, last) => (.error failure, last) := by
  rw [run_scan_of_collectFiles hcollect, run_scanFiles hprepare hbefore]

end MessageCatalog.Scan
