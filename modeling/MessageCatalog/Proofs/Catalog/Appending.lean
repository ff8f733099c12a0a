import MessageCatalog.Catalog.Writer
import MessageCatalog.Proofs.FileSystem.Writing

/-!
# Writing entries to a catalog file

On a file system that is a value, a catalog that is opened anew is empty, one that is extended
keeps what it holds, and entries are appended to either (`exists_run_writeEntries`).  No other
file is touched.
-/

namespace MessageCatalog.Catalog

open FileSystem

variable {fs fs' : FileSystem}

/-- A writer of the catalog at a path, which holds a text. -/
structure Writer.Holds (writer : Writer (StateM FileSystem)) (fs : FileSystem) (path : Path)
    (text : String) : Prop where
  path_eq : writer.path = path
  attached : Attached fs path writer.file text.toUTF8

/-- A file that is there can be extended, whatever its bytes are. -/
theorem exists_run_openAt_extend_of_bytesAt {path : Path} {bytes : ByteArray}
    (h : fs.bytesAt path = .ok bytes) :
    ∃ file, fs.run (Writer.openAt path .extend) = (.ok ⟨path, file⟩, fs) ∧
      Attached fs path file bytes := by
  obtain ⟨file, hopen, hattached⟩ := exists_openEnd h
  have hfile : (fs.fileBytes? path).isSome = true := by
    rw [fileBytes?_eq_some_iff.mpr h]
    rfl
  refine ⟨file, ?_, hattached⟩
  simp only [Writer.openAt, run_bind, run_lift, isFile_eq, hfile, if_true, run_orFail,
    openAtEnd_eq, hopen]
  rfl

theorem exists_run_openAt_extend {path : Path} {text : String}
    (h : fs.bytesAt path = .ok text.toUTF8) :
    ∃ writer, fs.run (Writer.openAt path .extend) = (.ok writer, fs) ∧
      writer.Holds fs path text := by
  obtain ⟨file, hrun, hattached⟩ := exists_run_openAt_extend_of_bytesAt h
  exact ⟨⟨path, file⟩, hrun, rfl, hattached⟩

theorem exists_run_openAt_startAnew_iff {path : Path} :
    (∃ writer next, fs.run (Writer.openAt path .startAnew) =
        (.ok (writer : Writer (StateM FileSystem)), next)) ↔
      ∃ opened, fs.openNew path = .ok opened := by
  simp only [Writer.openAt, run_bind, run_orFail, create_eq]
  cases fs.openNew path with
  | error fault => simp [Except.mapError]
  | ok opened => exact ⟨fun _ => ⟨opened, rfl⟩, fun _ => ⟨⟨path, opened.1⟩, opened.2, rfl⟩⟩

theorem holds_of_run_openAt_startAnew {path : Path} {writer : Writer (StateM FileSystem)}
    (h : fs.run (Writer.openAt path .startAnew) = (.ok writer, fs')) :
    writer.Holds fs' path "" ∧ GrowsAt fs fs' writer.file.location ∧
      fs.OpensAt path writer.file.location := by
  simp only [Writer.openAt, run_bind, run_orFail, create_eq] at h
  cases hopen : fs.openNew path with
  | error fault =>
      rw [hopen] at h
      cases h
  | ok opened =>
      obtain ⟨file, next⟩ := opened
      rw [hopen] at h
      cases h
      obtain ⟨hattached, hgrows, hopens⟩ := attached_of_openNew hopen
      exact ⟨⟨rfl, hattached⟩, hgrows, hopens⟩

/-- Entries are appended to the bytes of the file, whatever they are. -/
theorem exists_run_writeEntries_of_attached {path : Path} (writer : Writer (StateM FileSystem))
    {bytes : ByteArray} (h : Attached fs path writer.file bytes) (entries : List Entry) :
    ∃ file fs', fs.run (writer.writeEntries entries) = (.ok { writer with file }, fs') ∧
      file.location = writer.file.location ∧
      Attached fs' path file (bytes ++ (Entry.textOfList entries).toUTF8) ∧
      GrowsAt fs fs' writer.file.location := by
  cases entries with
  | nil =>
      have hbytes : bytes ++ (Entry.textOfList []).toUTF8 = bytes := ByteArray.append_empty
      exact ⟨writer.file, fs, rfl, rfl, by rwa [hbytes], .refl fs _⟩
  | cons e entries =>
      obtain ⟨file, fs', hwrite, hlocation, hattached, hgrows⟩ :=
        exists_writeOpen h (Entry.textOfList (e :: entries)).toUTF8
      refine ⟨file, fs', ?_, hlocation, hattached, hgrows⟩
      simp only [Writer.writeEntries, List.isEmpty_cons, Bool.false_eq_true, if_false, run_bind,
        run_orFail, write_eq, hwrite]
      rfl

/-- **Entries are appended to what the catalog holds.** -/
theorem exists_run_writeEntries {path : Path} {writer : Writer (StateM FileSystem)}
    {text : String} (h : writer.Holds fs path text) (entries : List Entry) :
    ∃ writer' fs', fs.run (writer.writeEntries entries) = (.ok writer', fs') ∧
      writer'.file.location = writer.file.location ∧
      writer'.Holds fs' path (text ++ Entry.textOfList entries) ∧
      GrowsAt fs fs' writer.file.location := by
  obtain ⟨file, fs', hrun, hlocation, hattached, hgrows⟩ :=
    exists_run_writeEntries_of_attached writer h.attached entries
  have hbytes : (text ++ Entry.textOfList entries).toUTF8 =
      text.toUTF8 ++ (Entry.textOfList entries).toUTF8 := String.toByteArray_append
  exact ⟨_, fs', hrun, hlocation, ⟨h.path_eq, by rwa [hbytes]⟩, hgrows⟩

end MessageCatalog.Catalog
