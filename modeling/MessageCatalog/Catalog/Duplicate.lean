import MessageCatalog.Catalog.Key
import Std.Data.TreeMap

/-!
# Keys that occur twice

Each occurrence of a key after its first one is a duplicate.  A duplicate names
its own line and the line of the first occurrence.
-/

namespace MessageCatalog.Catalog

open Text

/-- A repeated key. -/
structure Duplicate where
  key : String
  line : Nat
  firstLine : Nat
  deriving DecidableEq, Repr

/-- The key occurrences of a text, counted, and those that repeat an earlier one. -/
structure KeyCheck where
  keyCount : Nat
  duplicates : List Duplicate
  deriving DecidableEq, Repr

/-- No key occurs twice. -/
def KeyCheck.isClean (check : KeyCheck) : Bool :=
  check.duplicates.isEmpty

/-- The keys of a text with their lines, in file order. -/
def keyLines (text : String) : List (String × Nat) :=
  let index := LineIndex.ofText text.toList
  (keySites text).map fun site => (site.key, index.lineAt site.offset)

/-- The duplicates among keys with their lines, where `firstLines` holds the lines of the
keys that stand before them. -/
def Duplicate.ofKeyLines (firstLines : Std.TreeMap String Nat) :
    List (String × Nat) → List Duplicate
  | [] => []
  | (key, line) :: others =>
    match firstLines[key]? with
    | some firstLine => ⟨key, line, firstLine⟩ :: ofKeyLines firstLines others
    | none => ofKeyLines (firstLines.insert key line) others

/-- The duplicates of a catalog text in file order. -/
def duplicates (text : String) : List Duplicate :=
  Duplicate.ofKeyLines ∅ (keyLines text)

/-- The check of a catalog text. -/
def KeyCheck.ofText (text : String) : KeyCheck :=
  let lines := keyLines text
  ⟨lines.length, Duplicate.ofKeyLines ∅ lines⟩

end MessageCatalog.Catalog
