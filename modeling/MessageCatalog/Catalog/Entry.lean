/-!
# Catalog entries

An entry pairs a key with its translation and names the source file in which the
key was found.  Its written form is three lines and an empty one, each ended by
carriage return and line feed.  All three texts are written as they are, without
escapes.
-/

namespace MessageCatalog.Catalog

/-- One key of a catalog. -/
structure Entry where
  sourceRef : String
  key : String
  translation : String
  deriving DecidableEq, Repr

namespace Entry

/-- An entry that still waits for its translation. -/
def untranslated (sourceRef key : String) : Entry :=
  ⟨sourceRef, key, ""⟩

/-- The written form of an entry. -/
def text (e : Entry) : String :=
  "#: " ++ e.sourceRef ++ "\r\nmsgid \"" ++ e.key ++ "\"\r\nmsgstr \"" ++ e.translation ++
    "\"\r\n\r\n"

/-- The written form of several entries, one behind the other. -/
def textOfList (entries : List Entry) : String :=
  entries.foldl (fun written e => written ++ e.text) ""

theorem foldl_text (entries : List Entry) (written : String) :
    entries.foldl (fun written e => written ++ e.text) written =
      written ++ textOfList entries := by
  induction entries generalizing written with
  | nil => simp [textOfList]
  | cons e entries ih =>
    simp only [textOfList, List.foldl_cons, String.empty_append]
    rw [ih, ih e.text, String.append_assoc]

@[simp] theorem textOfList_nil : textOfList [] = "" := rfl

@[simp] theorem textOfList_cons (e : Entry) (entries : List Entry) :
    textOfList (e :: entries) = e.text ++ textOfList entries := by
  simp only [textOfList, List.foldl_cons, String.empty_append]
  rw [foldl_text]
  rfl

@[simp] theorem textOfList_append (first second : List Entry) :
    textOfList (first ++ second) = textOfList first ++ textOfList second := by
  induction first with
  | nil => simp
  | cons e first ih => simp [ih, String.append_assoc]

end Entry

end MessageCatalog.Catalog
