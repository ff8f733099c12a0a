import MessageCatalog.Catalog.Duplicate
import MessageCatalog.Failure

/-!
# Reading catalog files

A catalog that does not exist holds no keys; any other fault of reading is a
failure.  A check, on the other hand, needs the file.
-/

namespace MessageCatalog.Catalog

variable {m : Type → Type} [Monad m] [FileAccess m]

/-- The keys of the catalog at a path. -/
def readKeys (path : Path) : Action m KeySet :=
  ExceptT.mk do
    match ← FileAccess.readText path with
    | .ok text => return .ok (keys text)
    | .error .notFound => return .ok ∅
    | .error cause => return .error (.catalogUnreadable path cause)

/-- Checks the catalog at a path for repeated keys. -/
def checkFile (path : Path) : Action m KeyCheck := do
  let text ← Action.orFail (FileAccess.readText path) (.catalogUnreadable path)
  return KeyCheck.ofText text

end MessageCatalog.Catalog
