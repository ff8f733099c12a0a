import MessageCatalog.Call.Basic
import MessageCatalog.Catalog.Reader
import MessageCatalog.Catalog.Writer
import MessageCatalog.Scan.Collect

/-!
# Merging literals into a catalog

A scan goes through the files of its target and writes an entry for each literal
that the catalog does not know yet.  The keys of the catalog are read once, before
the files; keys that are written join the known ones, so that no key is written
twice.  The catalog is opened for the first new entry: it is extended if it existed
before the scan and started anew otherwise.
-/

namespace MessageCatalog.Scan

open Catalog

/-- What one file contributed. -/
structure FileReport where
  path : Path
  /-- The number of distinct literals in the file. -/
  extracted : Nat
  /-- The number of entries written for the file. -/
  added : Nat
  deriving DecidableEq, Repr

/-- The outcome of a scan. -/
structure Summary where
  catalogPath : Path
  catalogExisted : Bool
  files : List FileReport
  deriving DecidableEq, Repr

namespace Summary

def filesScanned (summary : Summary) : Nat :=
  summary.files.length

def entriesAdded (summary : Summary) : Nat :=
  summary.files.foldr (fun file total => file.added + total) 0

/-- The number of files for which entries were written. -/
def contributing (summary : Summary) : Nat :=
  (summary.files.filter fun file => 0 < file.added).length

end Summary

/-- The source reference of a file is its bare name. -/
def sourceRef (path : Path) : String :=
  path.fileName?.getD path.text

/-- The entries for those literals of a file that are not known yet. -/
def newEntries (known : KeySet) (path : Path) (literals : List String) : List Entry :=
  (literals.filter fun key => !known.contains key).map (Entry.untranslated (sourceRef path))

/-- A scan between two files. -/
structure Progress (m : Type → Type) [FileAccess m] where
  known : KeySet
  /-- The catalog once something was written to it. -/
  writer : Option (Writer m)
  /-- The reports on the files so far, the last one first. -/
  reportsRev : List FileReport

variable {m : Type → Type} [Monad m] [FileAccess m]

/-- Writes entries to the catalog, which is opened if it is not yet. -/
def writeNew (catalogPath : Path) (mode : WriteMode) (writer : Option (Writer m))
    (entries : List Entry) : Action m (Option (Writer m)) := do
  if entries.isEmpty then return writer
  let opened ←
    match writer with
    | some opened => pure opened
    | none => Writer.openAt catalogPath mode
  return some (← opened.writeEntries entries)

/-- Merges the literals of one file. -/
def mergeFile (name : FunctionName) (catalogPath : Path) (mode : WriteMode)
    (progress : Progress m) (path : Path) : Action m (Progress m) := do
  let source ← Action.orFail (FileAccess.readText path) (.sourceUnreadable path)
  let literals := Call.distinctLiterals name source
  let entries := newEntries progress.known path literals
  let writer ← writeNew catalogPath mode progress.writer entries
  return {
    known := progress.known.insertMany (entries.map Entry.key)
    writer
    reportsRev := ⟨path, literals.length, entries.length⟩ :: progress.reportsRev }

/-- Creates the directory of a catalog if the path of the catalog names one. -/
def prepareDirectory (catalogPath : Path) : Action m Unit :=
  match catalogPath.parent? with
  | none => return ()
  | some dir =>
    if dir.text.isEmpty then return ()
    else Action.orFail (FileAccess.createDirectories dir) (.catalogWrite catalogPath)

/-- Scans a target and merges what is new into the catalog at a path. -/
def scan (name : FunctionName) (target : Target) (catalogPath : Path) : Action m Summary := do
  let files ← collectFiles target
  prepareDirectory catalogPath
  let existed ← (FileAccess.isFile catalogPath : m Bool)
  let known ← if existed then readKeys catalogPath else pure ∅
  let mode := if existed then .extend else .startAnew
  let progress ← files.foldlM (mergeFile name catalogPath mode) ⟨known, none, []⟩
  return ⟨catalogPath, existed, progress.reportsRev.reverse⟩

/-- The function name that a text spells. -/
def functionName (text : String) : Action m FunctionName :=
  ExceptT.mk (pure ((FunctionName.ofString? text).mapError (.functionName text)))

end MessageCatalog.Scan
