import MessageCatalog.Config.Reader
import MessageCatalog.FileSystem.Access
import MessageCatalog.Text.Quoted

/-!
# Finding the configuration of a directory

The configuration of a directory is the file `.xtextrc.json` in the nearest directory on
the way up, the directory itself included.  The way ends at a directory that holds
`.git`: a configuration beside it still counts, one further up does not.  The way up is
that of the path's text.
-/

namespace MessageCatalog.Config

/-- The name of configuration files. -/
def fileName : Path :=
  ⟨".xtextrc.json"⟩

/-- What marks the outermost directory of a project. -/
def boundaryName : Path :=
  ⟨".git"⟩

/-- Why the configuration of a directory cannot be loaded. -/
inductive LoadFailure where
  | unreadable (path : Path) (cause : AccessFault)
  | malformed (path : Path) (cause : Json.Fault)
  | invalid (fault : ConfigFault)
  deriving DecidableEq, Repr

namespace LoadFailure

def message : LoadFailure → String
  | unreadable path _ => "Failed to read config file: " ++ Text.quoteString path.text
  | malformed path _ => "Failed to parse config file: " ++ Text.quoteString path.text
  | invalid fault => fault.message

def causes : LoadFailure → List String
  | unreadable _ cause => [cause.message]
  | malformed _ cause => [cause.message]
  | invalid fault => fault.causes

end LoadFailure

/-- A configuration and the file that it came from, if it is not the default one. -/
structure Loaded where
  config : Config
  path : Option Path
  deriving DecidableEq, Repr

variable {m : Type → Type} [Monad m] [FileAccess m]

/-- The configuration file of the first of some directories that has one, unless a boundary
comes first. -/
def findAlong : List Path → m (Option Path)
  | [] => return none
  | dir :: others => do
    if ← FileAccess.pathExists (dir.join fileName) then return some (dir.join fileName)
    else if ← FileAccess.pathExists (dir.join boundaryName) then return none
    else findAlong others

/-- The configuration file that counts for a directory. -/
def find (start : Path) : m (Option Path) :=
  findAlong start.ancestors

/-- The configuration in a file. -/
def loadFile (path : Path) : ExceptT LoadFailure m Config :=
  ExceptT.mk do
    match ← FileAccess.readText path with
    | .error cause => return .error (.unreadable path cause)
    | .ok text =>
      match ofString? text with
      | .error cause => return .error (.malformed path cause)
      | .ok config =>
        match config.fault? with
        | some fault => return .error (.invalid fault)
        | none => return .ok config

/-- The configuration of a directory. -/
def load (start : Path) : ExceptT LoadFailure m Loaded := do
  match ← (find start : m (Option Path)) with
  | none => return ⟨{}, none⟩
  | some path => return ⟨← loadFile path, some path⟩

end MessageCatalog.Config
