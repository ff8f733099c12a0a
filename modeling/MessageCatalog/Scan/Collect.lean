import MessageCatalog.Failure
import MessageCatalog.Glob.Match
import MessageCatalog.Scan.Target

/-!
# The files of a scan

The files below the root are listed pattern by pattern: first those that the first
pattern selects, in the order of the walk, then those that the second one selects and
the first did not, and so on.  A file that lies directly in an excluded directory is
left out; a file in a directory further down is not.

Root and excluded directories are put into canonical form before they are compared.
Where there is none, as for relative paths in a working directory that was removed, the
spelling counts as it is, and the files are named by it too.
-/

namespace MessageCatalog.Scan

/-- The patterns that some texts spell; the first text that is no pattern is reported. -/
def compileIncludes (includes : List String) : Except Failure (List Glob.Pattern) :=
  includes.mapM fun text => (Glob.Pattern.ofString? text).mapError (.includePattern text)

/-- A file is selected by its name unless its directory is excluded. -/
def selects (excluded : List Path) (pattern : Glob.Pattern) (file : Path) : Bool :=
  file.fileName?.any pattern.accepts &&
    !file.parent?.any fun dir => excluded.any (Path.spellsLike dir)

/-- The files selected by each pattern in turn, without repetition. -/
def selectFiles (patterns : List Glob.Pattern) (excluded files : List Path) : List Path :=
  (patterns.flatMap fun pattern => files.filter (selects excluded pattern)).eraseDups

variable {m : Type → Type} [Monad m] [FileAccess m]

/-- The canonical form of a path, or the path itself if it has none. -/
def normalize (path : Path) : m Path := do
  match ← FileAccess.canonicalPath path with
  | .ok canonical => return canonical
  | .error _ => return path

/-- The files of a target; without patterns nothing is looked at. -/
def collectFiles (target : Target) : Action m (List Path) := do
  let patterns ← ExceptT.mk (pure (compileIncludes target.includes))
  if patterns.isEmpty then return []
  let root ← (normalize target.root : m Path)
  let excluded ← (target.excludes.mapM fun dir => normalize (root.join dir) : m (List Path))
  match ← (FileAccess.filesBelow root : m (Except WalkFault (List Path))) with
  | .error fault => throw (.walk fault)
  | .ok files => return selectFiles patterns excluded files

end MessageCatalog.Scan
