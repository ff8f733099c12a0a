import MessageCatalog.FileSystem.Fault
import MessageCatalog.Path

/-!
# Access to files

What the program asks of a file system, as a class over the monad in which the
effects take place.  The program is written against this class alone, so that it
runs on the files of the machine as well as on a file system that is a value.
-/

namespace MessageCatalog

/-- What stands at a path once links are followed. -/
inductive FileKind where
  | directory
  | regular
  deriving DecidableEq, Repr

/-- Where a walk failed and why. -/
structure WalkFault where
  path : Path
  cause : AccessFault
  deriving DecidableEq, Repr

/-- The operations on files that the program uses. -/
class FileAccess (m : Type → Type) where
  /-- A file that is open for writing. -/
  Writer : Type
  workingDirectory : m (Except AccessFault Path)
  /-- The kind of what a path leads to; nothing if it leads nowhere. -/
  kind? : Path → m (Option FileKind)
  /-- The absolute path without links, `.` and `..` that leads to the same place. -/
  canonicalPath : Path → m (Except AccessFault Path)
  readBytes : Path → m (Except AccessFault ByteArray)
  /-- The regular files at or below a path, depth first, the names of each directory in the
  order of their code points.  Links are not followed, except for one to a directory at the
  end of the path itself. -/
  filesBelow : Path → m (Except WalkFault (List Path))
  /-- Creates one directory in an existing one. -/
  createDirectory : Path → m (Except AccessFault Unit)
  /-- Creates or empties a file and opens it for writing from its start on. -/
  create : Path → m (Except AccessFault Writer)
  /-- Opens an existing file for writing at its end. -/
  openAtEnd : Path → m (Except AccessFault Writer)
  /-- Writes all the bytes and returns the writer for what comes after them. -/
  write : Writer → ByteArray → m (Except AccessFault Writer)

namespace FileAccess

variable {m : Type → Type} [Monad m] [FileAccess m]

def isDirectory (p : Path) : m Bool := do
  return (← kind? p) == some .directory

def isFile (p : Path) : m Bool := do
  return (← kind? p) == some .regular

def pathExists (p : Path) : m Bool := do
  return (← kind? p).isSome

/-- Reads a file as UTF-8 text. -/
def readText (p : Path) : m (Except AccessFault String) := do
  match ← readBytes p with
  | .error cause => return .error cause
  | .ok bytes =>
    match String.fromUTF8? bytes with
    | none => return .error .notText
    | some text => return .ok text

/-- Creates the first of some directories, each of which lies in the next one, and those of
the others that are missing. -/
def createDirectoryChain : List Path → m (Except AccessFault Unit)
  | [] => return .ok ()
  | p :: parents => do
    if p.text.isEmpty then return .ok ()
    match ← createDirectory p with
    | .ok () => return .ok ()
    | .error .notFound =>
      if parents.isEmpty then return .error (.other "failed to create whole tree")
      match ← createDirectoryChain parents with
      | .error cause => return .error cause
      | .ok () => accept p (← createDirectory p)
    | .error cause => accept p (.error cause)
where
  /-- A directory that is there already is as good as a new one. -/
  accept (p : Path) : Except AccessFault Unit → m (Except AccessFault Unit)
    | .ok () => return .ok ()
    | .error cause => do
      if ← isDirectory p then return .ok () else return .error cause

/-- Creates a directory with all that lie above it. -/
def createDirectories (p : Path) : m (Except AccessFault Unit) :=
  createDirectoryChain p.ancestors

end FileAccess

end MessageCatalog
