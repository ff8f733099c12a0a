import MessageCatalog.Failure
import MessageCatalog.FileSystem.Operations
import Mathlib.Data.List.Basic

/-!
# Running actions on a file system

An action on a file system that is a value answers or fails, and leaves a file system
behind (`run`).  A chain of actions runs step by step: `run_bind_eq_ok_iff` takes a
successful run apart, `run_bind_of_ok` and `run_bind_of_error` put one together.
-/

namespace MessageCatalog.FileSystem

variable {α β : Type} {fs fs' : FileSystem}

/-- The outcome of an action and the file system after it. -/
def run (fs : FileSystem) (action : Action (StateM FileSystem) α) :
    Except Failure α × FileSystem :=
  StateT.run (ExceptT.run action) fs

/-- The outcome of an action. -/
def answer (fs : FileSystem) (action : Action (StateM FileSystem) α) : Except Failure α :=
  (fs.run action).1

/-- The file system after an action. -/
def after (fs : FileSystem) (action : Action (StateM FileSystem) α) : FileSystem :=
  (fs.run action).2

theorem run_eq_of_answer {action : Action (StateM FileSystem) α} {outcome : Except Failure α}
    (h : fs.answer action = outcome) : fs.run action = (outcome, fs.after action) := by
  rw [← h]
  rfl

/-! ### Failures of any kind -/

/-- The outcome of an operation, whatever it fails with, and the file system after it. -/
def outcome {ε : Type} (fs : FileSystem) (operation : ExceptT ε (StateM FileSystem) α) :
    Except ε α × FileSystem :=
  StateT.run (ExceptT.run operation) fs

section

variable {ε : Type}

theorem outcome_bind (fs : FileSystem) (x : ExceptT ε (StateM FileSystem) α)
    (f : α → ExceptT ε (StateM FileSystem) β) :
    fs.outcome (x >>= f) =
      match fs.outcome x with
      | (.ok a, fs') => fs'.outcome (f a)
      | (.error failure, fs') => (.error failure, fs') := by
  -- both layers are opened here once; later proofs take runs apart by the lemmas below
  simp only [outcome, ExceptT.run_bind, StateT.run_bind]
  rcases StateT.run (ExceptT.run x) fs with ⟨_ | _, _⟩ <;> rfl

theorem outcome_bind_of_ok {x : ExceptT ε (StateM FileSystem) α} {a : α}
    (h : fs.outcome x = (.ok a, fs')) (f : α → ExceptT ε (StateM FileSystem) β) :
    fs.outcome (x >>= f) = fs'.outcome (f a) := by
  rw [outcome_bind, h]

theorem outcome_bind_of_error {x : ExceptT ε (StateM FileSystem) α} {failure : ε}
    (h : fs.outcome x = (.error failure, fs')) (f : α → ExceptT ε (StateM FileSystem) β) :
    fs.outcome (x >>= f) = (.error failure, fs') := by
  rw [outcome_bind, h]

theorem outcome_adapt (fs : FileSystem) {ε' : Type} (x : ExceptT ε' (StateM FileSystem) α)
    (f : ε' → ε) :
    fs.outcome (x.adapt f) = ((fs.outcome x).1.mapError f, (fs.outcome x).2) := rfl

end

/-! ### Chains of actions -/

theorem bind_apply (x : StateM FileSystem α) (f : α → StateM FileSystem β) (fs : FileSystem) :
    (x >>= f) fs = f (x fs).1 (x fs).2 := rfl

theorem run_bind_of_ok {x : Action (StateM FileSystem) α} {a : α}
    (h : fs.run x = (.ok a, fs')) (f : α → Action (StateM FileSystem) β) :
    fs.run (x >>= f) = fs'.run (f a) :=
  outcome_bind_of_ok h f

theorem run_bind_of_error {x : Action (StateM FileSystem) α} {failure : Failure}
    (h : fs.run x = (.error failure, fs')) (f : α → Action (StateM FileSystem) β) :
    fs.run (x >>= f) = (.error failure, fs') :=
  outcome_bind_of_error h f

theorem run_bind (fs : FileSystem) (x : Action (StateM FileSystem) α)
    (f : α → Action (StateM FileSystem) β) :
    fs.run (x >>= f) =
      match fs.run x with
      | (.ok a, fs') => fs'.run (f a)
      | (.error failure, fs') => (.error failure, fs') := by
  rcases h : fs.run x with ⟨failure | a, next⟩
  · exact run_bind_of_error h f
  · exact run_bind_of_ok h f

/-- A chain succeeds exactly if its steps succeed one after the other. -/
theorem run_bind_eq_ok_iff {x : Action (StateM FileSystem) α}
    {f : α → Action (StateM FileSystem) β} {b : β} {last : FileSystem} :
    fs.run (x >>= f) = (.ok b, last) ↔
      ∃ a next, fs.run x = (.ok a, next) ∧ next.run (f a) = (.ok b, last) := by
  rcases h : fs.run x with ⟨failure | a, next⟩
  · rw [run_bind_of_error h]
    simp
  · rw [run_bind_of_ok h]
    simp

theorem run_lift (fs : FileSystem) (operation : StateM FileSystem α) :
    fs.run (liftM operation) = (.ok (operation fs).1, (operation fs).2) := rfl

theorem run_orFail (fs : FileSystem) (operation : StateM FileSystem (Except AccessFault α))
    (failure : AccessFault → Failure) :
    fs.run (Action.orFail operation failure) =
      ((operation fs).1.mapError failure, (operation fs).2) := by
  unfold run Action.orFail ExceptT.run ExceptT.mk StateT.run
  simp only [bind, StateT.bind]
  rcases operation fs with ⟨_ | _, _⟩ <;> rfl

theorem exists_failure_of_run_orFail {operation : StateM FileSystem (Except AccessFault α)}
    {failure : AccessFault → Failure} {met : Failure}
    (h : fs.run (Action.orFail operation failure) = (.error met, fs')) :
    ∃ cause, met = failure cause := by
  rw [run_orFail] at h
  cases houtcome : (operation fs).1 with
  | error cause =>
      rw [houtcome] at h
      cases h
      exact ⟨cause, rfl⟩
  | ok a =>
      rw [houtcome] at h
      cases h

/-! ### Operations that only look -/

/-- An operation that does not change the file system. -/
def ReadOnly (operation : StateM FileSystem α) : Prop :=
  ∀ fs, (operation fs).2 = fs

namespace ReadOnly

theorem pure (a : α) : ReadOnly (Pure.pure a : StateM FileSystem α) :=
  fun _ => rfl

theorem bind {x : StateM FileSystem α} {f : α → StateM FileSystem β} (hx : ReadOnly x)
    (hf : ∀ a, ReadOnly (f a)) : ReadOnly (x >>= f) := by
  intro fs
  rw [bind_apply, hx, hf]

theorem mapM {f : α → StateM FileSystem β} (h : ∀ a, ReadOnly (f a)) (as : List α) :
    ReadOnly (as.mapM f) := by
  induction as with
  | nil => exact .pure []
  | cons a as ih =>
      rw [List.mapM_cons]
      exact (h a).bind fun b => ih.bind fun bs => .pure _

/-- Operations that only look answer as if each were the first one. -/
theorem mapM_apply {f : α → StateM FileSystem β} (h : ∀ a, ReadOnly (f a)) (as : List α)
    (fs : FileSystem) : ((as.mapM f) fs).1 = as.map fun a => (f a fs).1 := by
  induction as with
  | nil => rfl
  | cons a as ih => rw [List.mapM_cons, bind_apply, bind_apply, h a, ih, List.map_cons]; rfl

end ReadOnly

/-! ### Looking at files -/

/-- The text that some bytes encode. -/
def decode (bytes : ByteArray) : Except AccessFault String :=
  match String.fromUTF8? bytes with
  | none => .error .notText
  | some text => .ok text

theorem decode_eq_ok_iff {bytes : ByteArray} {text : String} :
    decode bytes = .ok text ↔ bytes = text.toUTF8 := by
  unfold decode String.fromUTF8?
  constructor
  · intro h
    split at h
    · cases h
    · rename_i decoded hdecoded
      cases h
      split at hdecoded
      · cases hdecoded
        rfl
      · cases hdecoded
  · rintro rfl
    have hvalid : text.toUTF8.IsValidUTF8 := text.isValidUTF8
    rw [dif_pos hvalid]
    rfl

/-- The text of the file that a path leads to. -/
def textAt (fs : FileSystem) (p : Path) : Except AccessFault String :=
  (fs.bytesAt p).bind decode

/-- The bytes of the regular file that a path leads to, if it leads to one. -/
def fileBytes? (fs : FileSystem) (p : Path) : Option ByteArray :=
  (fs.bytesAt p).toOption

theorem textAt_eq_ok_iff {p : Path} {text : String} :
    fs.textAt p = .ok text ↔ fs.bytesAt p = .ok text.toUTF8 := by
  unfold textAt
  cases fs.bytesAt p with
  | error cause => simp [Except.bind]
  | ok bytes => simpa [Except.bind] using decode_eq_ok_iff

theorem fileBytes?_eq_some_iff {p : Path} {bytes : ByteArray} :
    fs.fileBytes? p = some bytes ↔ fs.bytesAt p = .ok bytes := by
  unfold fileBytes?
  cases fs.bytesAt p <;> simp [Except.toOption]

theorem kindAt?_eq_regular_iff {p : Path} :
    fs.kindAt? p = some .regular ↔ (fs.fileBytes? p).isSome := by
  unfold kindAt? fileBytes? bytesAt
  rcases fs.resolve .lookup p with _ | _ | _ | _ <;> simp [Except.toOption]

theorem readText_eq (fs : FileSystem) (p : Path) :
    (FileAccess.readText p : StateM FileSystem (Except AccessFault String)) fs =
      (fs.textAt p, fs) := by
  unfold FileAccess.readText textAt decode
  simp only [bind, StateT.bind, FileAccess.readBytes]
  rcases fs.bytesAt p with cause | bytes
  · rfl
  · dsimp only [Except.bind]
    cases String.fromUTF8? bytes <;> rfl

theorem isFile_eq (fs : FileSystem) (p : Path) :
    (FileAccess.isFile p : StateM FileSystem Bool) fs = ((fs.fileBytes? p).isSome, fs) := by
  have hkind : (fs.kindAt? p == some .regular) = (fs.fileBytes? p).isSome := by
    rw [Bool.eq_iff_iff, beq_iff_eq, kindAt?_eq_regular_iff]
  rw [← hkind]
  rfl

end MessageCatalog.FileSystem
