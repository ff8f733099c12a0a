import MessageCatalog.Call.FunctionName
import MessageCatalog.FileSystem.Access
import MessageCatalog.Glob.Pattern
import MessageCatalog.Text.Quoted

/-!
# Failures of a scan

Each failure ends the operation that met it.  A failure has a message and the
messages of its causes, from the nearest one on.
-/

namespace MessageCatalog

/-- The wording of a fault in a function name. -/
def NameFault.message : NameFault → String
  | empty => "function name is empty"
  | unsupported c => "contains unsupported character " ++ Text.quoteChar c

/-- The wordings of a failed walk and of its cause. -/
def WalkFault.messages (fault : WalkFault) : List String :=
  ["IO error for operation on " ++ fault.path.text ++ ": " ++ fault.cause.message,
    fault.cause.message]

/-- Why reading, scanning or writing failed. -/
inductive Failure where
  | functionName (name : String) (fault : NameFault)
  | includePattern (pattern : String) (fault : Glob.Fault)
  | walk (fault : WalkFault)
  | sourceUnreadable (path : Path) (cause : AccessFault)
  | catalogUnreadable (path : Path) (cause : AccessFault)
  /-- A catalog that was to be extended is no regular file. -/
  | catalogMissing (path : Path)
  | catalogWrite (path : Path) (cause : AccessFault)
  deriving DecidableEq, Repr

namespace Failure

def message : Failure → String
  | functionName name fault => "Invalid function name \"" ++ name ++ "\": " ++ fault.message
  | includePattern pattern _ => "Invalid include pattern \"" ++ pattern ++ "\""
  | walk _ => "Cannot access path while scanning"
  | sourceUnreadable path _ => "Failed to read source file: " ++ path.text
  | catalogUnreadable path _ => "Failed to read catalog: " ++ path.text
  | catalogMissing path =>
    "File: " ++ path.text ++ " does not exist. Can't append data to it."
  | catalogWrite path _ => "Failed to write catalog: " ++ path.text

/-- The messages of the causes, outermost first. -/
def causes : Failure → List String
  | functionName _ _ => []
  | includePattern _ fault => [fault.message]
  | walk fault => fault.messages
  | sourceUnreadable _ cause => [cause.message]
  | catalogUnreadable _ cause => [cause.message]
  | catalogMissing _ => []
  | catalogWrite _ cause => [cause.message]

end Failure

/-- An effectful operation that may end in a failure. -/
abbrev Action (m : Type → Type) := ExceptT Failure m

namespace Action

variable {m : Type → Type} [Monad m]

/-- Runs an operation on files and turns its fault into a failure. -/
def orFail {α : Type} (operation : m (Except AccessFault α)) (failure : AccessFault → Failure) :
    Action m α :=
  ExceptT.mk do
    match ← operation with
    | .ok a => return .ok a
    | .error fault => return .error (failure fault)

end Action

end MessageCatalog
