import MessageCatalog.Catalog.Entry
import MessageCatalog.Failure

/-!
# Writing catalog files

A catalog is either started anew or extended at its end.  Extending asks for a
regular file and creates none.  Without entries nothing is written, and
`appendEntries` does not even open the file.
-/

namespace MessageCatalog.Catalog

/-- How a catalog is opened for writing. -/
inductive WriteMode where
  /-- Creates the file, or empties the one that is there. -/
  | startAnew
  /-- Keeps what is there. -/
  | extend
  deriving DecidableEq, Repr

/-- A catalog that is open for writing. -/
structure Writer (m : Type → Type) [FileAccess m] where
  path : Path
  file : FileAccess.Writer m

variable {m : Type → Type} [Monad m] [FileAccess m]

namespace Writer

/-- Opens the catalog at a path. -/
def openAt (path : Path) (mode : WriteMode) : Action m (Writer m) := do
  match mode with
  | .startAnew =>
    let file ← Action.orFail (FileAccess.create path) (.catalogWrite path)
    return ⟨path, file⟩
  | .extend =>
    if ← FileAccess.isFile (m := m) path then
      let file ← Action.orFail (FileAccess.openAtEnd path) (.catalogWrite path)
      return ⟨path, file⟩
    else throw (.catalogMissing path)

/-- Writes entries behind those written before. -/
def writeEntries (writer : Writer m) (entries : List Entry) : Action m (Writer m) := do
  if entries.isEmpty then return writer
  let bytes := (Entry.textOfList entries).toUTF8
  let file ← Action.orFail (FileAccess.write writer.file bytes) (.catalogWrite writer.path)
  return { writer with file }

end Writer

/-- Writes entries to the catalog at a path; without entries the path is not looked at. -/
def appendEntries (path : Path) (entries : List Entry) (mode : WriteMode) : Action m Unit := do
  if entries.isEmpty then return ()
  let writer ← Writer.openAt path mode
  let _ ← writer.writeEntries entries
  return ()

end MessageCatalog.Catalog
