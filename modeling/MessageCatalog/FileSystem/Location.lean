import MessageCatalog.Path

/-!
# Locations

A location is the list of names that leads from the root to a node of a file
system, outermost first.  A name is never empty, never `.` or `..`, and holds
neither a slash nor NUL, so that a location has exactly one spelling as a path
(`toPath`).  A directory stands at a location until it is removed (`Directory`).

A path that is to be resolved is read as the steps that it describes
(`Path.steps`).
-/

namespace MessageCatalog

/-- A text that can name a node of a directory. -/
def isName (s : String) : Bool :=
  s != "" && s != "." && s != ".." && s.toList.all fun c => c ≠ '/' && c ≠ '\x00'

/-- The name of a node in its directory. -/
structure Name where
  text : String
  valid : isName text = true
  deriving DecidableEq

namespace Name

/-- Names are ordered by their code points. -/
instance : Ord Name where
  compare a b := compare a.text b.text

instance : Std.TransOrd Name where
  eq_swap {a b} := (Std.OrientedCmp.eq_swap : compare a.text b.text = _)
  isLE_trans {a b _} := (Std.TransCmp.isLE_trans : (compare a.text b.text).isLE = true → _)

instance : Std.LawfulEqOrd Name where
  eq_of_compare {a b} h := by
    have : a.text = b.text :=
      Std.LawfulEqCmp.eq_of_compare (show compare a.text b.text = _ from h)
    cases a
    cases b
    simp_all
  compare_self {a} := (Std.ReflCmp.compare_self : compare a.text a.text = _)

/-- The name with a given text, if the text can name a node. -/
def ofString? (s : String) : Option Name :=
  if h : isName s = true then some ⟨s, h⟩ else none

end Name

/-- The names from the root to a node. -/
abbrev Location := List Name

namespace Location

/-- The one absolute path that spells a location without detours. -/
def toPath (l : Location) : Path :=
  ⟨String.ofList ('/' :: joinSegments (l.map fun n => n.text.toList))⟩

/-- The location of the directory that holds a location; the root holds itself. -/
def parent (l : Location) : Location :=
  l.dropLast

end Location

/-- A directory in which steps may start.  A directory that was removed while it was the working
directory has no location any more, but it still knows the directory that held it. -/
structure Directory where
  /-- The nearest directory on the way up that was not removed. -/
  location : Location
  /-- How many removed directories lie on the way down from there. -/
  removed : Nat
  deriving DecidableEq

namespace Directory

/-- The directory at a location. -/
def standing (l : Location) : Directory :=
  ⟨l, 0⟩

@[simp] theorem location_standing (l : Location) : (standing l).location = l := rfl

/-- The directory is still there. -/
def Stands (d : Directory) : Prop :=
  d.removed = 0

instance (d : Directory) : Decidable d.Stands :=
  inferInstanceAs (Decidable (d.removed = 0))

/-- The directory that holds a directory; the root holds itself. -/
def parent (d : Directory) : Directory :=
  match d.removed with
  | 0 => standing d.location.parent
  | n + 1 => ⟨d.location, n⟩

/-- What becomes of a directory when a location is removed with everything below it. -/
def afterRemoval (d : Directory) (l : Location) : Directory :=
  if l.isPrefixOf d.location then
    ⟨l.parent, d.removed + (d.location.length - l.parent.length)⟩
  else d

end Directory

/-- One step on the way that a path describes. -/
inductive Step where
  /-- Stays in the directory. -/
  | here
  /-- Goes to the directory that holds this one. -/
  | up
  /-- Goes to a node of the directory. -/
  | into (name : Name)
  /-- The slash at the end of a path, which asks for a directory. -/
  | asDirectory
  deriving DecidableEq

/-- The step that a segment spells; an empty segment is no step. -/
def Step.ofSegment? (segment : List Char) : Option Step :=
  if segment = ['.'] then some .here
  else if segment = ['.', '.'] then some .up
  else (Name.ofString? (String.ofList segment)).map .into

/-- The steps that a path describes, from the root if it is absolute and from the working
directory otherwise. -/
def Path.steps (p : Path) : List Step :=
  let steps := (segments p.text.toList).filterMap Step.ofSegment?
  if p.text.toList.getLast? = some '/' && !steps.isEmpty then steps ++ [.asDirectory] else steps

end MessageCatalog
