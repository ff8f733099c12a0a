import MessageCatalog.Proofs.FileSystem.Growth

/-!
# Writing to one file

A writer that is attached to the file at a path (`Attached`) stands at the end of that file,
whichever way it was opened.  What it writes is appended, it stays attached, and no other
file is touched (`exists_writeOpen`).
-/

namespace MessageCatalog.FileSystem

variable {fs fs' fs'' : FileSystem}

private theorem overwrite_end {old new : ByteArray} {position : WritePosition}
    (h : position = .atEnd ∨ position = .atOffset old.size) :
    overwrite old new position = old ++ new := by
  rcases h with rfl | rfl
  · rfl
  · have hzeros : zeros (old.size - old.size) = ByteArray.empty := by
      rw [Nat.sub_self]
      rfl
    simp only [overwrite, hzeros]
    rw [ByteArray.extract_zero_size, ByteArray.append_empty,
      ByteArray.extract_eq_empty_iff.mpr (by omega), ByteArray.append_empty]

/-- A path leads to the file to which a writer writes next at its end. -/
structure Attached (fs : FileSystem) (p : Path) (file : OpenFile) (bytes : ByteArray) : Prop where
  location : fs.fileLocation? p = some file.location
  node : fs.node? file.location = some (.file file.stamp bytes)
  position : file.position = .atEnd ∨ file.position = .atOffset bytes.size

/-- Only one location may look different, and a file that stands there is the same file. -/
structure GrowsAt (fs fs' : FileSystem) (l : Location) : Prop where
  grows : Grows fs fs'
  node? : ∀ {k}, k ≠ l → fs'.node? k = fs.node? k
  stamp : ∀ {stamp bytes}, fs.node? l = some (.file stamp bytes) →
    ∃ bytes', fs'.node? l = some (.file stamp bytes')

theorem GrowsAt.refl (fs : FileSystem) (l : Location) : GrowsAt fs fs l :=
  ⟨.refl fs, fun _ => rfl, fun h => ⟨_, h⟩⟩

theorem GrowsAt.trans {l : Location} (h : GrowsAt fs fs' l) (h' : GrowsAt fs' fs'' l) :
    GrowsAt fs fs'' l where
  grows := h.grows.trans h'.grows
  node? hk := (h'.node? hk).trans (h.node? hk)
  stamp hl := by
    obtain ⟨bytes, hl⟩ := h.stamp hl
    exact h'.stamp hl

/-- Storing a file under the stamp of the one that may stand there. -/
theorem Puts.growsAt {l : Location} {stamp : Nat} {bytes : ByteArray}
    (h : Puts fs fs' l (.file stamp bytes)) (hgrows : Grows fs fs')
    (hstamp : ∀ {stamp' bytes'}, fs.node? l = some (.file stamp' bytes') → stamp' = stamp) :
    GrowsAt fs fs' l where
  grows := hgrows
  node? hk := h.node?_of_ne hk
  stamp hl := ⟨bytes, by rw [hstamp hl, h.node?_self]⟩

/-- Where only one location may look different, its node tells the whole change. -/
theorem GrowsAt.puts {l : Location} {node : Node} (h : GrowsAt fs fs' l)
    (hnode : fs'.node? l = some node) : Puts fs fs' l node where
  node? k := by
    split
    · rename_i hk
      rw [hk, hnode]
    · rename_i hk
      exact h.node? hk
  workingDirectory := h.grows.workingDirectory

/-- The file that the path of a writer leads to. -/
theorem Attached.bytesAt {p : Path} {file : OpenFile} {bytes : ByteArray}
    (h : Attached fs p file bytes) : fs.bytesAt p = .ok bytes := by
  obtain ⟨stamp, bytes', hresolve⟩ := fileLocation?_eq_some_iff.mp h.location
  have hnode := node?_of_resolve_file hresolve
  rw [h.node] at hnode
  cases hnode
  exact bytesAt_eq_ok_iff.mpr ⟨_, _, hresolve⟩

/-- A file that is there can be opened at its end. -/
theorem exists_openEnd {p : Path} {bytes : ByteArray} (h : fs.bytesAt p = .ok bytes) :
    ∃ file, fs.openEnd p = .ok file ∧ Attached fs p file bytes := by
  obtain ⟨l, stamp, hresolve⟩ := bytesAt_eq_ok_iff.mp h
  refine ⟨⟨l, stamp, .atEnd⟩, ?_, fileLocation?_eq_some_iff.mpr ⟨stamp, bytes, hresolve⟩,
    node?_of_resolve_file hresolve, .inl rfl⟩
  unfold openEnd
  rw [hresolve]

/-- A writer of a file writes to the same file after any growth there. -/
theorem GrowsAt.stamp_eq {p q : Path} {file file' : OpenFile} {bytes bytes' : ByteArray}
    (h : GrowsAt fs fs' file.location) (hfile : Attached fs p file bytes)
    (hfile' : Attached fs' q file' bytes') (hlocation : file'.location = file.location) :
    file'.stamp = file.stamp := by
  obtain ⟨_, hnode⟩ := h.stamp hfile.node
  have hnode' := hfile'.node
  rw [hlocation, hnode, Option.some_inj, Node.file.injEq] at hnode'
  exact hnode'.1.symm

/-- A file that is opened at the end of a path: nothing stands in its place, or the path leads
there already. -/
def OpensAt (fs : FileSystem) (p : Path) (l : Location) : Prop :=
  fs.node? l = none ∨ fs.fileLocation? p = some l

/-- The place of a file with a given stamp or a place for one. -/
def IsFilePlace (place : Place) (l : Location) (stamp : Nat) : Prop :=
  place = .free l ∨ ∃ bytes, place = .file l stamp bytes

private theorem attached_of_puts {p : Path} {place : Place} {l : Location} {stamp : Nat}
    (hresolve : fs.resolve .creation p = .ok place) (hplace : IsFilePlace place l stamp)
    (hputs : Puts fs fs' l (.file stamp ByteArray.empty)) :
    Attached fs' p ⟨l, stamp, .atOffset 0⟩ ByteArray.empty ∧ GrowsAt fs fs' l ∧
      fs.OpensAt p l := by
  -- the place was free, or a file with the same stamp stood there
  have hgrowsAt : GrowsAt fs fs' l := by
    rcases hplace with rfl | ⟨bytes, rfl⟩
    · have hnone := node?_of_resolve_free hresolve
      refine hputs.growsAt (hputs.grows_of_none hnone) fun hfile => ?_
      rw [hnone] at hfile
      cases hfile
    · have hthere := node?_of_resolve_file hresolve
      refine hputs.growsAt (hputs.grows_of_file hthere) fun hfile => ?_
      rw [hthere] at hfile
      cases hfile
      rfl
  have hfile : fs'.placeIn? place = some (.file l stamp ByteArray.empty) := by
    rcases hplace with rfl | ⟨bytes, rfl⟩ <;> simp [placeIn?, placeAt?, hputs.node?_self]
  have hlocation : fs'.resolve .lookup p = .ok (.file l stamp ByteArray.empty) :=
    hgrowsAt.grows.resolve (Purpose.admits_lookup _) hfile hresolve
  refine ⟨⟨fileLocation?_eq_some_iff.mpr ⟨_, _, hlocation⟩, hputs.node?_self, .inr rfl⟩,
    hgrowsAt, ?_⟩
  rcases hplace with rfl | ⟨bytes, rfl⟩
  · exact .inl (node?_of_resolve_free hresolve)
  · have hthere := (Grows.refl fs).resolve_file hresolve (node?_of_resolve_file hresolve)
    exact .inr (fileLocation?_eq_some_iff.mpr ⟨stamp, bytes, hthere⟩)

/-- A file that is opened anew is empty. -/
theorem attached_of_openNew {p : Path} {file : OpenFile} (h : fs.openNew p = .ok (file, fs')) :
    Attached fs' p file ByteArray.empty ∧ GrowsAt fs fs' file.location ∧
      fs.OpensAt p file.location := by
  unfold openNew at h
  split at h
  · cases h
  · cases h
  · rename_i l stamp bytes hresolve
    cases hstore : fs.store l (.file stamp ByteArray.empty) with
    | error fault =>
        rw [hstore] at h
        cases h
    | ok next =>
        rw [hstore] at h
        cases h
        exact attached_of_puts hresolve (.inr ⟨bytes, rfl⟩) (puts_of_store hstore)
  · rename_i l hresolve
    -- taking a stamp leaves every node where it is
    cases hstore : fs.takeStamp.2.store l (.file fs.takeStamp.1 ByteArray.empty) with
    | error fault =>
        dsimp only at h
        rw [hstore] at h
        cases h
    | ok next =>
        dsimp only at h
        rw [hstore] at h
        cases h
        have hputs := puts_of_store hstore
        exact attached_of_puts hresolve (.inl rfl) ⟨hputs.node?, hputs.workingDirectory⟩

/-- **What an attached writer writes is appended to its file and to no other.** -/
theorem exists_writeOpen {p : Path} {file : OpenFile} {bytes : ByteArray}
    (h : Attached fs p file bytes) (new : ByteArray) :
    ∃ file' fs', fs.writeOpen file new = (file', fs') ∧ file'.location = file.location ∧
      Attached fs' p file' (bytes ++ new) ∧ GrowsAt fs fs' file.location := by
  obtain ⟨fs', hstore⟩ := exists_store_of_file h.node
    (.file file.stamp (overwrite bytes new file.position))
  have hputs := puts_of_store hstore
  have hgrows := hputs.grows_of_file h.node
  have hgrowsAt : GrowsAt fs fs' file.location := by
    refine hputs.growsAt hgrows fun hfile => ?_
    rw [h.node] at hfile
    cases hfile
    rfl
  refine ⟨{ file with position := file.position.advance new.size }, fs', ?_, rfl, ?_, hgrowsAt⟩
  · unfold writeOpen
    simp only [h.node, if_true, hstore]
  · refine ⟨hgrows.fileLocation? h.location, ?_, ?_⟩
    · rw [hputs.node?_self, overwrite_end h.position]
    · rcases h.position with hend | hoffset
      · exact .inl (by rw [hend]; rfl)
      · refine .inr ?_
        rw [hoffset, ByteArray.size_append]
        rfl

/-! ### The operations as effects -/

/-- A writer among the effects. -/
abbrev FileWriter := FileAccess.Writer (StateM FileSystem)

theorem openAtEnd_eq (fs : FileSystem) (p : Path) :
    (FileAccess.openAtEnd p : StateM FileSystem (Except AccessFault FileWriter)) fs =
      (fs.openEnd p, fs) := rfl

theorem create_eq (fs : FileSystem) (p : Path) :
    (FileAccess.create p : StateM FileSystem (Except AccessFault FileWriter)) fs =
      match fs.openNew p with
      | .ok (file, next) => (.ok file, next)
      | .error fault => (.error fault, fs) := rfl

theorem write_eq (fs : FileSystem) (file : FileWriter) (bytes : ByteArray) :
    (FileAccess.write file bytes : StateM FileSystem (Except AccessFault FileWriter)) fs =
      (.ok (fs.writeOpen file bytes).1, (fs.writeOpen file bytes).2) := rfl

end MessageCatalog.FileSystem
