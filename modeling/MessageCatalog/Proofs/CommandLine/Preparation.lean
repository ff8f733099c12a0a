import MessageCatalog.CommandLine.Run
import MessageCatalog.Proofs.Config.Discovery

/-!
# What an extraction knows before it scans

Before it scans, an extraction checks its settings, loads the configuration of its root and asks
for the working directory.  All of that only looks at the file system: it ends with a scan that is
asked for (`Plan`) or with a failure that leaves the file system as it was (`outcome_extraction`).

The catalog of a scan that is asked for is named after the language and lies in the directory that
is configured (`Plan.exists_namesChild`).
-/

namespace MessageCatalog.CommandLine

open FileSystem

variable {fs : FileSystem}

/-! ### Preparing -/

private theorem outcome_functionName (fs : FileSystem) (text : String) :
    fs.outcome (Scan.functionName text : Action (StateM FileSystem) FunctionName) =
      ((FunctionName.ofString? text).mapError (.functionName text), fs) := by
  unfold Scan.functionName
  cases FunctionName.ofString? text <;> rfl

theorem outcome_prepare (fs : FileSystem) (options : ExtractOptions) :
    fs.outcome (prepare options) =
      match FunctionName.ofString? options.function with
      | .error fault => (.error (.engine (.functionName options.function fault)), fs)
      | .ok name =>
        if fs.kindAt? options.root = some .directory then
          match languageFault? options.language with
          | some fault => (.error (.language options.language fault), fs)
          | none =>
            match (fs.outcome (Config.load options.root)).1 with
            | .error failure => (.error (.config failure), fs)
            | .ok loaded => (.ok ⟨name, loaded⟩, fs)
        else (.error (.noRoot options.root), fs) := by
  have hroot : fs.outcome (liftM (FileAccess.isDirectory options.root : StateM FileSystem Bool) :
      ExceptT CommandFailure (StateM FileSystem) Bool) =
        (.ok (fs.kindAt? options.root == some .directory), fs) := rfl
  unfold prepare
  -- the checks in their order: function name, root, language, configuration
  rw [outcome_bind, outcome_adapt, outcome_functionName]
  cases FunctionName.ofString? options.function with
  | error fault => rfl
  | ok name =>
      dsimp only [Except.mapError]
      rw [outcome_bind_of_ok hroot]
      by_cases hkind : fs.kindAt? options.root = some .directory
      · rw [if_pos hkind, hkind]
        cases hlanguage : languageFault? options.language with
        | some fault => rfl
        | none =>
            have hsame : (fs.outcome (Config.load options.root)).2 = fs :=
              congrArg Prod.snd (Config.outcome_load fs options.root)
            have hloaded : fs.outcome (do
                  let loaded ← (Config.load options.root).adapt CommandFailure.config
                  return (⟨name, loaded⟩ : Preparation)) =
                match (fs.outcome (Config.load options.root)).1 with
                | .error failure => (.error (.config failure), fs)
                | .ok loaded => (.ok ⟨name, loaded⟩, fs) := by
              rw [outcome_bind, outcome_adapt, hsame]
              cases (fs.outcome (Config.load options.root)).1 <;> rfl
            exact hloaded
      · rw [if_neg hkind, beq_eq_false_iff_ne.mpr hkind]
        rfl

/-! ### The scan that is asked for -/

/-- A scan that an extraction asks for. -/
structure Plan where
  name : FunctionName
  target : Scan.Target
  catalog : Path

/-- The scan that follows from some settings and the working directory. -/
def Preparation.plan (preparation : Preparation) (options : ExtractOptions)
    (workingDirectory : Path) : Plan where
  name := preparation.name
  target := extractTarget options preparation.loaded.config workingDirectory
  catalog := Scan.catalogPath options.root preparation.loaded.config.catalogDir options.language

/-- The scan that an extraction asks for, if it gets that far. -/
def plan? (fs : FileSystem) (options : ExtractOptions) : Option Plan :=
  match (fs.outcome (prepare options)).1, fs.workingPath with
  | .ok preparation, .ok workingDirectory => some (preparation.plan options workingDirectory)
  | _, _ => none

/-- A failure that comes before the scan. -/
def CommandFailure.IsEarly : CommandFailure → Prop
  | engine (.functionName ..) => True
  | noRoot _ => True
  | language .. => True
  | config _ => True
  | noWorkingDirectory _ => True
  | _ => False

/-- An extraction, from the check of its settings to its last entry. -/
def extraction {m : Type → Type} [Monad m] [FileAccess m] (options : ExtractOptions) :
    ExceptT CommandFailure m Scan.Summary := do
  let preparation ← prepare options
  scanRoot options preparation

private theorem readOnly_prepare (fs : FileSystem) (options : ExtractOptions) :
    (fs.outcome (prepare options)).2 = fs := by
  rw [outcome_prepare]
  split
  · rfl
  · split
    · split
      · rfl
      · split <;> rfl
    · rfl

private theorem isEarly_of_prepare {options : ExtractOptions} {failure : CommandFailure}
    (h : (fs.outcome (prepare options)).1 = .error failure) : failure.IsEarly := by
  rw [outcome_prepare] at h
  split at h
  · cases h
    trivial
  · split at h
    · split at h
      · cases h
        trivial
      · split at h
        · cases h
          trivial
        · cases h
    · cases h
      trivial

/-- **An extraction fails before the scan and changes nothing, or it scans.** -/
theorem outcome_extraction (fs : FileSystem) (options : ExtractOptions) :
    (∃ failure : CommandFailure, failure.IsEarly ∧ plan? fs options = none ∧
        fs.outcome (extraction options) = (.error failure, fs)) ∨
      ∃ plan, plan? fs options = some plan ∧ fs.outcome (extraction options) =
        ((fs.answer (Scan.scan plan.name plan.target plan.catalog)).mapError .engine,
          fs.after (Scan.scan plan.name plan.target plan.catalog)) := by
  -- the checks look at the files only, so that a failure among them leaves everything as it was
  have hsame := readOnly_prepare fs options
  have hworking : fs.outcome (liftM (FileAccess.workingDirectory :
      StateM FileSystem (Except AccessFault Path)) : ExceptT CommandFailure (StateM FileSystem) _) =
        (.ok fs.workingPath, fs) := rfl
  unfold plan? extraction
  rcases hprepare : fs.outcome (prepare options) with ⟨failure | preparation, next⟩
  · have hearly := isEarly_of_prepare (congrArg Prod.fst hprepare)
    rw [hprepare] at hsame
    obtain rfl : next = fs := hsame
    exact .inl ⟨failure, hearly, rfl, outcome_bind_of_error hprepare _⟩
  · rw [hprepare] at hsame
    obtain rfl : next = fs := hsame
    rw [outcome_bind_of_ok hprepare]
    unfold scanRoot
    rw [outcome_bind_of_ok hworking]
    cases next.workingPath with
    | error cause => exact .inl ⟨.noWorkingDirectory cause, trivial, rfl, rfl⟩
    | ok workingDirectory => exact .inr ⟨preparation.plan options workingDirectory, rfl, rfl⟩

/-! ### The catalog that is asked for -/

private theorem isSegment_of_languageFault? {language : String}
    (h : languageFault? language = none) :
    Path.IsSegment (language ++ ".po") := by
  have hlength : (language ++ ".po").length = language.length + 3 := by
    rw [String.length_append]
    rfl
  have hne : ∀ {s : String}, s.length < 3 → language ++ ".po" ≠ s := by
    rintro s hs rfl
    omega
  refine ⟨fun hslash => ?_, hne (by decide), hne (by decide), hne (by decide)⟩
  rw [String.toList_append] at hslash
  have hmem : '/' ∈ language.toList := (List.mem_append.mp hslash).resolve_right (by decide)
  have hany : language.toList.any (fun c => c = '/' || c = '\\') = true :=
    List.any_eq_true.mpr ⟨'/', hmem, by simp⟩
  unfold languageFault? at h
  rw [hany] at h
  split at h <;> cases h

/-- A scan that is asked for starts at a directory, and its catalog follows from the configuration
of that directory. -/
private theorem exists_loaded_of_plan? {options : ExtractOptions} {plan : Plan}
    (h : plan? fs options = some plan) :
    fs.kindAt? options.root = some .directory ∧ languageFault? options.language = none ∧
      ∃ loaded, (fs.outcome (Config.load options.root)).1 = .ok loaded ∧
        plan.catalog =
          Scan.catalogPath options.root loaded.config.catalogDir options.language := by
  unfold plan? at h
  split at h
  · rename_i preparation workingDirectory hprepare hworking
    cases h
    rw [outcome_prepare] at hprepare
    split at hprepare
    · cases hprepare
    · split at hprepare
      · split at hprepare
        · cases hprepare
        · split at hprepare
          · cases hprepare
          · cases hprepare
            exact ⟨‹_›, ‹_›, _, ‹_›, rfl⟩
      · cases hprepare
  · cases h

/-- **The catalog that is asked for is named after the language, in the directory that is
configured.** -/
theorem Plan.exists_namesChild {options : ExtractOptions} {plan : Plan}
    (h : plan? fs options = some plan) :
    ∃ loaded, (fs.outcome (Config.load options.root)).1 = .ok loaded ∧
      plan.catalog =
        Scan.catalogPath options.root loaded.config.catalogDir options.language ∧
      NamesChild plan.catalog (options.root.join ⟨loaded.config.catalogDir⟩)
        (options.language ++ ".po") := by
  obtain ⟨hroot, hlanguage, loaded, hload, hcatalog⟩ := exists_loaded_of_plan? h
  refine ⟨loaded, hload, hcatalog, ?_⟩
  rw [hcatalog]
  exact namesChild_join (Path.text_join_ne_empty (text_ne_empty_of_kindAt? hroot) _)
    (isSegment_of_languageFault? hlanguage)

end MessageCatalog.CommandLine
