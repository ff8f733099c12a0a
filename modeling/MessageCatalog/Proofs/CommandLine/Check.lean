import MessageCatalog.CommandLine.Run
import MessageCatalog.Proofs.Catalog.Repetition
import MessageCatalog.Proofs.FileSystem.Run

/-!
# What a check reports

A check reads one file and changes nothing (`runCheck_eq`).  What it counts and what it reports
follow from the keys of the text alone, and its exit status tells which of three things it met: a
text whose keys are pairwise different, a text in which a key repeats, or no text at all
(`check_reports_repeats`).
-/

namespace MessageCatalog.CommandLine

open Catalog FileSystem

variable {fs : FileSystem} {path : Path}

/-! ### Running a check -/

theorem run_checkFile_eq (fs : FileSystem) (path : Path) :
    fs.run (checkFile path) =
      (((fs.textAt path).mapError (.catalogUnreadable path)).map KeyCheck.ofText, fs) := by
  have hread : fs.run (Action.orFail (FileAccess.readText path) (.catalogUnreadable path)) =
      ((fs.textAt path).mapError (.catalogUnreadable path), fs) := by
    rw [run_orFail, readText_eq]
  unfold checkFile
  rw [run_bind, hread]
  cases fs.textAt path <;> rfl

theorem run_checkFile {text : String} (h : fs.fileBytes? path = some text.toUTF8) :
    fs.run (checkFile path) = (.ok (KeyCheck.ofText text), fs) := by
  have htext : fs.textAt path = .ok text := textAt_eq_ok_iff.mpr (fileBytes?_eq_some_iff.mp h)
  rw [run_checkFile_eq, htext]
  rfl

/-- What a check writes and how it ends, told from the text that is there. -/
def checkOutput (colored : Bool) (path : Path) : Except AccessFault String → Output
  | .error cause => failed "" (.engine (.catalogUnreadable path cause))
  | .ok text =>
    ⟨if (duplicates text).isEmpty then 0 else 1,
      checkReport colored path ⟨(keyTexts text).length, duplicates text⟩, ""⟩

theorem runCheck_apply (fs : FileSystem) (colored : Bool) (path : Path) :
    (runCheck colored path : StateM FileSystem Output) fs =
      (checkOutput colored path (fs.textAt path), fs) := by
  have hcheck : (ExceptT.run (checkFile path) : StateM FileSystem _) fs =
      (((fs.textAt path).mapError (.catalogUnreadable path)).map KeyCheck.ofText, fs) :=
    run_checkFile_eq fs path
  unfold runCheck
  rw [bind_apply, hcheck]
  cases fs.textAt path with
  | error cause => rfl
  | ok text =>
      dsimp only [Except.mapError, Except.map]
      rw [keyCheck_ofText_eq]
      rfl

theorem runCheck_eq {text : String} (h : fs.fileBytes? path = some text.toUTF8) (colored : Bool) :
    (runCheck colored path : StateM FileSystem Output) fs =
      (⟨if (duplicates text).isEmpty then 0 else 1,
        checkReport colored path ⟨(keyTexts text).length, duplicates text⟩, ""⟩, fs) := by
  rw [runCheck_apply, textAt_eq_ok_iff.mpr (fileBytes?_eq_some_iff.mp h)]
  rfl

/-! ### What it tells -/

/-- A text is clean exactly if its keys are pairwise different. -/
theorem duplicates_isEmpty_iff {text : String} :
    (duplicates text).isEmpty = true ↔ (keyTexts text).Nodup := by
  rw [List.isEmpty_iff, duplicates_eq_repeats, repeats_eq_nil_iff, map_fst_keyLines]

private theorem status_checkOutput_iff (colored : Bool) (path : Path)
    (read : Except AccessFault String) :
    ((checkOutput colored path read).status = 0 ↔
        ∃ text, read = .ok text ∧ (keyTexts text).Nodup) ∧
      ((checkOutput colored path read).status = 1 ↔
        ∃ text, read = .ok text ∧ ¬ (keyTexts text).Nodup) ∧
      ((checkOutput colored path read).status = 2 ↔ ∀ text, read ≠ .ok text) := by
  cases read with
  | error cause => simp [checkOutput, failed]
  | ok text =>
      by_cases hclean : (keyTexts text).Nodup
      · have hempty := duplicates_isEmpty_iff.mpr hclean
        simp [checkOutput, hempty, hclean]
      · have hnonempty := mt duplicates_isEmpty_iff.mp hclean
        simp [checkOutput, hnonempty, hclean]

/-- **A check agrees with the reader of keys.**  It counts all keys and reports those that repeat an
earlier one, each with the line of the first; what it does not report are the keys of the text, one
time each.  The status of the command tells whether the file is a text and whether a key of it
repeats, and the file system stays as it is. -/
theorem check_reports_repeats :
    (∀ text : String,
      (KeyCheck.ofText text).keyCount = (keyTexts text).length ∧
      (KeyCheck.ofText text).duplicates = repeats (keyLines text) ∧
      (KeyCheck.ofText text).keyCount =
        (keys text).size + (KeyCheck.ofText text).duplicates.length ∧
      (∀ duplicate ∈ (KeyCheck.ofText text).duplicates, duplicate.key ∈ keys text) ∧
      ((KeyCheck.ofText text).isClean = true ↔ (keyTexts text).Nodup)) ∧
    ∀ (fs : FileSystem) (colored : Bool) (path : Path),
      let ran := (Command.run colored (.checkDuplicates path) : StateM FileSystem Output) fs
      ran.2 = fs ∧
      (ran.1.status = 0 ↔ ∃ text, fs.textAt path = .ok text ∧ (keyTexts text).Nodup) ∧
      (ran.1.status = 1 ↔ ∃ text, fs.textAt path = .ok text ∧ ¬ (keyTexts text).Nodup) ∧
      (ran.1.status = 2 ↔ ∀ text, fs.textAt path ≠ .ok text) := by
  constructor
  · intro text
    rw [keyCheck_ofText_eq]
    dsimp only [KeyCheck.isClean]
    have hcount : (keyTexts text).length = (keys text).size + (duplicates text).length := by
      rw [size_keys_add_length_duplicates, keyTexts, List.length_map]
    refine ⟨rfl, duplicates_eq_repeats text, hcount, fun duplicate hduplicate => ?_,
      duplicates_isEmpty_iff⟩
    rw [duplicates_eq_repeats] at hduplicate
    have hkey := key_mem_of_mem_repeats hduplicate
    rw [map_fst_keyLines] at hkey
    exact mem_keys_iff.mpr hkey
  · intro fs colored path ran
    have hran : ran = (checkOutput colored path (fs.textAt path), fs) :=
      runCheck_apply fs colored path
    rw [hran]
    exact ⟨rfl, status_checkOutput_iff colored path (fs.textAt path)⟩

/-- The third occurrence of a key names the line of the first one, as the second does. -/
theorem check_reports_third_occurrence :
    let text := "msgid \"A\"\nmsgid \"B\"\nmsgid \"A\"\nmsgid \"A\"\n"
    repeats (keyLines text) = [⟨"A", 3, 1⟩, ⟨"A", 4, 1⟩] ∧
      (⟨"A", 4, 1⟩ : Duplicate) ∈ (KeyCheck.ofText text).duplicates ∧ "A" ∈ keys text ∧
      (KeyCheck.ofText text).keyCount = 4 ∧ (keys text).size = 2 := by
  intro text
  obtain ⟨-, hreport, hcount, hkeys, -⟩ := check_reports_repeats.1 text
  have hrepeats : repeats (keyLines text) = [⟨"A", 3, 1⟩, ⟨"A", 4, 1⟩] := by decide +kernel
  have hmem : (⟨"A", 4, 1⟩ : Duplicate) ∈ (KeyCheck.ofText text).duplicates := by
    rw [hreport, hrepeats]
    decide
  have hall : (KeyCheck.ofText text).keyCount = 4 := by decide +kernel
  refine ⟨hrepeats, hmem, hkeys _ hmem, hall, ?_⟩
  rw [hall, hreport, hrepeats, List.length_cons, List.length_singleton] at hcount
  omega

end MessageCatalog.CommandLine
