import MessageCatalog.Proofs.Catalog.Appending

/-!
# Entries in batches

A scan meets the entries of a catalog batch by batch.  It may keep the catalog open and write each
batch behind the one before (`writeBatches`), it may open the catalog again for each batch
(`appendBatches`), or it may gather all entries and append them at once.

Where a catalog is started anew, the first entries alone empty the file, and later batches have to
extend it.  Where it is extended, an open file always writes at the end, and a file that was emptied
goes on at its own offset, which is the end of it as well (`Attached`).  So a step of each way
appends the entries of one batch to the file at the path, and the run appends them all: the ways
agree for every division into batches that has an entry at all (`ways_agree`).  Without entries only
`writeBatches` opens the catalog.
-/

namespace MessageCatalog.Catalog

open FileSystem

variable {m : Type → Type} [Monad m] [FileAccess m]

/-! ### Three ways to write -/

/-- Opens a catalog once and writes one batch of entries behind the other. -/
def writeBatches (path : Path) (mode : WriteMode) (batches : List (List Entry)) :
    Action m Unit := do
  let writer ← Writer.openAt path mode
  let _ ← batches.foldlM Writer.writeEntries writer
  return ()

/-- Appends one batch after the other.  Behind the first entries the catalog is extended. -/
def appendBatches (path : Path) (mode : WriteMode) : List (List Entry) → Action m Unit
  | [] => return ()
  | batch :: batches => do
    appendEntries path batch mode
    appendBatches path (if batch.isEmpty then mode else .extend) batches

/-- The ways to write batches of entries to a catalog. -/
def waysToWrite (path : Path) (mode : WriteMode) (batches : List (List Entry)) :
    List (Action m Unit) :=
  [writeBatches path mode batches, appendBatches path mode batches,
    appendEntries path batches.flatten mode]

variable {fs fs' : FileSystem} {path : Path} {mode : WriteMode} {bytes : ByteArray}
  {batch : List Entry} {batches : List (List Entry)}

theorem run_appendEntries (hne : batch ≠ []) :
    fs.run (appendEntries path batch mode) =
      fs.run (do
        let writer ← Writer.openAt path mode
        let _ ← writer.writeEntries batch
        return ()) := by
  unfold appendEntries
  rw [List.isEmpty_eq_false_iff.mpr hne]
  rfl

theorem run_appendBatches_nil_cons :
    fs.run (appendBatches path mode ([] :: batches)) = fs.run (appendBatches path mode batches) :=
  rfl

theorem run_appendBatches_cons (hne : batch ≠ []) :
    fs.run (appendBatches path mode (batch :: batches)) =
      fs.run (do
        appendEntries path batch mode
        appendBatches path .extend batches) := by
  rw [appendBatches, List.isEmpty_eq_false_iff.mpr hne]
  rfl

/-! ### Opening -/

/-- The bytes that stay in a catalog when it is opened. -/
def keptBytes (fs : FileSystem) (path : Path) : WriteMode → ByteArray
  | .startAnew => ByteArray.empty
  | .extend => (fs.fileBytes? path).getD ByteArray.empty

/-- A catalog cannot be opened: it is to be extended and is no regular file, or the file cannot be
created or emptied. -/
inductive CannotOpen (fs : FileSystem) (path : Path) : WriteMode → Failure → Prop
  | missing (hkind : fs.kindAt? path ≠ some .regular) :
      CannotOpen fs path .extend (.catalogMissing path)
  | write {cause : AccessFault} (hopen : fs.openNew path = .error cause) :
      CannotOpen fs path .startAnew (.catalogWrite path cause)

/-- **A catalog is opened without a loss, or the attempt changes nothing.** -/
theorem run_openAt_cases (fs : FileSystem) (path : Path) (mode : WriteMode) :
    (∃ failure, fs.run (Writer.openAt path mode) = (.error failure, fs) ∧
        CannotOpen fs path mode failure) ∨
      ∃ file opened, fs.run (Writer.openAt path mode) = (.ok ⟨path, file⟩, opened) ∧
        Attached opened path file (keptBytes fs path mode) ∧
        GrowsAt fs opened file.location ∧ fs.OpensAt path file.location ∧
        (mode = .extend → fs.kindAt? path = some .regular) := by
  cases mode with
  | startAnew =>
      simp only [Writer.openAt, run_bind, run_orFail, create_eq]
      cases hopen : fs.openNew path with
      | error cause => exact .inl ⟨_, rfl, .write hopen⟩
      | ok opened =>
          obtain ⟨file, next⟩ := opened
          obtain ⟨hattached, hgrows, hplace⟩ := attached_of_openNew hopen
          exact .inr ⟨file, next, rfl, hattached, hgrows, hplace, fun hextend => by cases hextend⟩
  | extend =>
      cases hbytes : fs.fileBytes? path with
      | none =>
          have hkind : fs.kindAt? path ≠ some .regular := by
            rw [ne_eq, kindAt?_eq_regular_iff, hbytes]
            simp
          refine .inl ⟨_, ?_, .missing hkind⟩
          simp only [Writer.openAt, run_bind, run_lift, isFile_eq, hbytes]
          rfl
      | some old =>
          obtain ⟨file, hrun, hattached⟩ :=
            exists_run_openAt_extend_of_bytesAt (fileBytes?_eq_some_iff.mp hbytes)
          refine .inr ⟨file, fs, hrun, ?_, .refl fs _, .inr hattached.location, fun _ => ?_⟩
          · rwa [keptBytes, hbytes]
          · rw [kindAt?_eq_regular_iff, hbytes]
            rfl

/-! ### What each way does to an open file -/

/-- The bytes of several batches, one behind the other. -/
def batchBytes (batches : List (List Entry)) : ByteArray :=
  (Entry.textOfList batches.flatten).toUTF8

theorem append_batchBytes_nil (bytes : ByteArray) : bytes ++ batchBytes [] = bytes :=
  ByteArray.append_empty

theorem batchBytes_nil_cons (batches : List (List Entry)) :
    batchBytes ([] :: batches) = batchBytes batches := rfl

theorem append_batchBytes_cons (bytes : ByteArray) (batch : List Entry)
    (batches : List (List Entry)) :
    bytes ++ batchBytes (batch :: batches) =
      bytes ++ (Entry.textOfList batch).toUTF8 ++ batchBytes batches := by
  rw [batchBytes, batchBytes, List.flatten_cons, Entry.textOfList_append, ByteArray.append_assoc]
  exact congrArg (bytes ++ ·) String.toByteArray_append

/-- The file at a path holds some bytes now, and no other file is touched. -/
structure EndsWith (fs fs' : FileSystem) (path : Path) (l : Location) (bytes : ByteArray) :
    Prop where
  grows : GrowsAt fs fs' l
  attached : ∃ file, file.location = l ∧ Attached fs' path file bytes

/-- **One writer appends batch after batch.** -/
theorem exists_run_foldlM_writeEntries (writer : Writer (StateM FileSystem))
    (h : Attached fs path writer.file bytes) (batches : List (List Entry)) :
    ∃ writer' fs', fs.run (batches.foldlM Writer.writeEntries writer) = (.ok writer', fs') ∧
      EndsWith fs fs' path writer.file.location (bytes ++ batchBytes batches) := by
  induction batches generalizing fs writer bytes with
  | nil =>
      refine ⟨writer, fs, rfl, .refl fs _, writer.file, rfl, ?_⟩
      rwa [append_batchBytes_nil]
  | cons batch batches ih =>
      obtain ⟨file, fs₁, hwrite, hlocation, hattached, hgrows⟩ :=
        exists_run_writeEntries_of_attached writer h batch
      obtain ⟨writer', fs₂, hrun, hgrows', hends⟩ := ih { writer with file } hattached
      refine ⟨writer', fs₂, ?_, ?_, ?_⟩
      · rw [List.foldlM_cons, run_bind_of_ok hwrite, hrun]
      · exact hgrows.trans (hlocation ▸ hgrows')
      · rw [append_batchBytes_cons]
        exact hlocation ▸ hends

theorem exists_run_open_write {file : FileWriter} {opened : FileSystem}
    (hopen : fs.run (Writer.openAt path mode) = (.ok ⟨path, file⟩, opened))
    (hattached : Attached opened path file bytes) (hne : batch ≠ []) :
    ∃ fs', fs.run (appendEntries path batch mode) = (.ok (), fs') ∧
      EndsWith opened fs' path file.location (bytes ++ (Entry.textOfList batch).toUTF8) := by
  obtain ⟨file', fs', hwrite, hlocation, hattached', hgrows⟩ :=
    exists_run_writeEntries_of_attached ⟨path, file⟩ hattached batch
  refine ⟨fs', ?_, hgrows, file', hlocation, hattached'⟩
  rw [run_appendEntries hne, run_bind_of_ok hopen, run_bind_of_ok hwrite]
  rfl

/-- **Each batch extends the file that the one before has left.** -/
theorem exists_run_appendBatches_extend {file : FileWriter} (h : Attached fs path file bytes)
    (batches : List (List Entry)) :
    ∃ fs', fs.run (appendBatches path .extend batches) = (.ok (), fs') ∧
      EndsWith fs fs' path file.location (bytes ++ batchBytes batches) := by
  induction batches generalizing fs file bytes with
  | nil =>
      refine ⟨fs, rfl, .refl fs _, file, rfl, ?_⟩
      rwa [append_batchBytes_nil]
  | cons batch batches ih =>
      by_cases hne : batch = []
      · subst hne
        rw [run_appendBatches_nil_cons, batchBytes_nil_cons]
        exact ih h
      · rw [append_batchBytes_cons]
        obtain ⟨file₀, hopen, hattached₀⟩ := exists_run_openAt_extend_of_bytesAt h.bytesAt
        -- opening the file again for this batch leads to the same location
        have hlocation₀ : file₀.location = file.location :=
          Option.some.inj (hattached₀.location.symm.trans h.location)
        obtain ⟨fs₁, hrun, hgrows, file₁, hlocation₁, hattached₁⟩ :=
          exists_run_open_write hopen hattached₀ hne
        obtain ⟨fs₂, hrun', hgrows', hends⟩ := ih hattached₁
        rw [hlocation₁, hlocation₀] at hgrows' hends
        refine ⟨fs₂, ?_, (hlocation₀ ▸ hgrows).trans hgrows', hends⟩
        rw [run_appendBatches_cons hne, run_bind_of_ok hrun, hrun']

private theorem exists_run_appendBatches {file : FileWriter} {opened : FileSystem}
    (hopen : fs.run (Writer.openAt path mode) = (.ok ⟨path, file⟩, opened))
    (hattached : Attached opened path file bytes) (hne : ∃ batch ∈ batches, batch ≠ []) :
    ∃ fs', fs.run (appendBatches path mode batches) = (.ok (), fs') ∧
      EndsWith opened fs' path file.location (bytes ++ batchBytes batches) := by
  induction batches with
  | nil => simp at hne
  | cons batch batches ih =>
      by_cases hempty : batch = []
      · subst hempty
        rw [run_appendBatches_nil_cons, batchBytes_nil_cons]
        exact ih (by simpa using hne)
      · rw [append_batchBytes_cons]
        obtain ⟨fs₁, hrun, hgrows, file₁, hlocation₁, hattached₁⟩ :=
          exists_run_open_write hopen hattached hempty
        obtain ⟨fs₂, hrun', hgrows', hends⟩ := exists_run_appendBatches_extend hattached₁ batches
        rw [hlocation₁] at hgrows' hends
        refine ⟨fs₂, ?_, hgrows.trans hgrows', hends⟩
        rw [run_appendBatches_cons hempty, run_bind_of_ok hrun, hrun']

private theorem run_appendBatches_of_error {failure : Failure}
    (hopen : fs.run (Writer.openAt path mode) =
      ((.error failure : Except Failure (Writer (StateM FileSystem))), fs))
    (hne : ∃ batch ∈ batches, batch ≠ []) :
    fs.run (appendBatches path mode batches) = (.error failure, fs) := by
  induction batches with
  | nil => simp at hne
  | cons batch batches ih =>
      by_cases hempty : batch = []
      · subst hempty
        rw [run_appendBatches_nil_cons]
        exact ih (by simpa using hne)
      · have hrun : fs.run (appendEntries path batch mode) = (.error failure, fs) := by
          rw [run_appendEntries hempty, run_bind_of_error hopen]
        rw [run_appendBatches_cons hempty, run_bind_of_error hrun]

/-! ### Agreement -/

/-- What the writer of a catalog does, told of the file system before it was opened. -/
private theorem EndsWith.puts {file : FileWriter} {opened : FileSystem} {old : ByteArray}
    (h : EndsWith opened fs' path file.location bytes) (hattached : Attached opened path file old)
    (hgrows : GrowsAt fs opened file.location) :
    fs'.bytesAt path = .ok bytes ∧ Puts fs fs' file.location (.file file.stamp bytes) := by
  obtain ⟨hgrows', file', hlocation, hattached'⟩ := h
  have hstamp : file'.stamp = file.stamp := hgrows'.stamp_eq hattached hattached' hlocation
  have hnode := hattached'.node
  rw [hlocation, hstamp] at hnode
  exact ⟨hattached'.bytesAt, (hgrows.trans hgrows').puts hnode⟩

theorem flatten_ne_nil (hne : ∃ batch ∈ batches, batch ≠ []) : batches.flatten ≠ [] := by
  obtain ⟨batch, hmem, hbatch⟩ := hne
  exact fun hnil => hbatch (List.flatten_eq_nil_iff.mp hnil batch hmem)

private theorem run_ways_of_error {failure : Failure}
    (hopen : fs.run (Writer.openAt path mode) =
      ((.error failure : Except Failure (Writer (StateM FileSystem))), fs))
    (hne : ∃ batch ∈ batches, batch ≠ []) :
    ∀ way ∈ waysToWrite path mode batches, fs.run way = (.error failure, fs) := by
  simp only [waysToWrite, List.forall_mem_cons, List.not_mem_nil, false_imp_iff, implies_true,
    and_true]
  refine ⟨?_, run_appendBatches_of_error hopen hne, ?_⟩
  · rw [writeBatches, run_bind_of_error hopen]
  · rw [run_appendEntries (flatten_ne_nil hne), run_bind_of_error hopen]

private theorem exists_run_ways {file : FileWriter} {opened : FileSystem}
    (hopen : fs.run (Writer.openAt path mode) = (.ok ⟨path, file⟩, opened))
    (hattached : Attached opened path file bytes) (hne : ∃ batch ∈ batches, batch ≠ []) :
    ∀ way ∈ waysToWrite path mode batches, ∃ fs', fs.run way = (.ok (), fs') ∧
      EndsWith opened fs' path file.location (bytes ++ batchBytes batches) := by
  simp only [waysToWrite, List.forall_mem_cons, List.not_mem_nil, false_imp_iff, implies_true,
    and_true]
  refine ⟨?_, exists_run_appendBatches hopen hattached hne,
    exists_run_open_write hopen hattached (flatten_ne_nil hne)⟩
  obtain ⟨writer, fs', hrun, hends⟩ :=
    exists_run_foldlM_writeEntries ⟨path, file⟩ hattached batches
  refine ⟨fs', ?_, hends⟩
  rw [writeBatches, run_bind_of_ok hopen, run_bind_of_ok hrun]
  rfl

/-- **All ways to write agree, however the entries are divided into batches.**  Where the catalog
cannot be opened, each way fails alike and changes nothing.  Otherwise each way succeeds, and leaves
the same bytes in the same file: what stayed in it when it was opened, and all entries behind
that. -/
theorem ways_agree (fs : FileSystem) (path : Path) (mode : WriteMode)
    (batches : List (List Entry)) (hne : ∃ batch ∈ batches, batch ≠ []) :
    (fs.answer (Writer.openAt path mode) = .error (.catalogMissing path) ↔
        mode = .extend ∧ fs.kindAt? path ≠ some .regular) ∧
      (∀ failure, fs.answer (Writer.openAt path mode) = .error failure →
        (failure = .catalogMissing path ∨ ∃ cause, failure = .catalogWrite path cause) ∧
          ∀ way ∈ waysToWrite path mode batches, fs.run way = (.error failure, fs)) ∧
      ∀ writer, fs.answer (Writer.openAt path mode) = .ok writer →
        let bytes := keptBytes fs path mode ++ batchBytes batches
        fs.OpensAt path writer.file.location ∧ ∀ way ∈ waysToWrite path mode batches,
          fs.answer way = .ok () ∧ (fs.after way).bytesAt path = .ok bytes ∧
            Puts fs (fs.after way) writer.file.location (.file writer.file.stamp bytes) := by
  -- either no way can open the catalog, or all of them go on from the same opened file
  rcases run_openAt_cases fs path mode with
    ⟨failure, hopen, hcannot⟩ | ⟨file, opened, hopen, hattached, hgrows, hplace, hkind⟩
  · have hanswer : fs.answer (Writer.openAt path mode) = .error failure := congrArg Prod.fst hopen
    simp only [hanswer, Except.error.injEq, reduceCtorEq, false_imp_iff, implies_true, and_true]
    refine ⟨?_, ?_⟩
    · cases hcannot with
      | missing hkind => simpa using hkind
      | write hcause => simp
    · rintro _ rfl
      refine ⟨?_, run_ways_of_error hopen hne⟩
      cases hcannot with
      | missing hkind => exact .inl rfl
      | write hcause => exact .inr ⟨_, rfl⟩
  · have hanswer : fs.answer (Writer.openAt path mode) = .ok ⟨path, file⟩ :=
      congrArg Prod.fst hopen
    simp only [hanswer, Except.ok.injEq, reduceCtorEq, false_imp_iff, false_iff, implies_true,
      true_and]
    refine ⟨?_, ?_⟩
    · exact fun ⟨hextend, hnot⟩ => hnot (hkind hextend)
    · rintro _ rfl
      refine ⟨hplace, fun way hway => ?_⟩
      obtain ⟨fs', hrun, hends⟩ := exists_run_ways hopen hattached hne way hway
      have hafter : fs.after way = fs' := congrArg Prod.snd hrun
      rw [hafter]
      exact ⟨congrArg Prod.fst hrun, hends.puts hattached hgrows⟩

/-- A batch without entries in front of the first entries does not matter. -/
theorem ways_agree_behind_empty_batch :
    let batches : List (List Entry) :=
      [[], [.untranslated "Main.cs" "Save"], [], [.untranslated "Other.cs" "Open"]]
    (∃ batch ∈ batches, batch ≠ []) ∧
      ∀ way ∈ waysToWrite ⟨"/fr.po"⟩ .startAnew batches,
        (FileSystem.empty.after way).bytesAt ⟨"/fr.po"⟩ = .ok (batchBytes batches) := by
  intro batches
  have hne : ∃ batch ∈ batches, batch ≠ [] := by decide
  have hopen : ∃ writer, FileSystem.empty.answer (Writer.openAt ⟨"/fr.po"⟩ .startAnew) =
      .ok (writer : Writer (StateM FileSystem)) :=
    ⟨⟨⟨"/fr.po"⟩, [⟨"fr.po", by decide⟩], 0, .atOffset 0⟩, by rfl⟩
  obtain ⟨writer, hopen⟩ := hopen
  refine ⟨hne, fun way hway => ?_⟩
  have hbytes := (((ways_agree .empty ⟨"/fr.po"⟩ .startAnew batches hne).2.2 writer hopen).2
    way hway).2.1
  rwa [keptBytes, ByteArray.empty_append] at hbytes

end MessageCatalog.Catalog
