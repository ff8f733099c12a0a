import MessageCatalog.FileSystem.Basic
import MessageCatalog.FileSystem.Fault

/-!
# Where paths lead

A path is resolved step by step.  A link on the way is replaced by the steps of its
target; no more than `maxLinks` links are followed for one path.  What a path leads
to is a directory, a regular file, or a free place in a directory, and never a link.

A removed directory can still be stepped out of, but no name leads anywhere in it.

`resolveEntry` stops in front of a link at the end of a path, as operations do that
work on the link itself.  `canonicalLocation` resolves a path of any length, as long as
the names that it comes by have absolute paths that are not too long.
-/

namespace MessageCatalog

/-- The number of links that are followed for one path. -/
def maxLinks : Nat := 40

/-- The number of bytes that a name may have. -/
def maxNameBytes : Nat := 255

/-- The number of bytes that a path may have. -/
def maxPathBytes : Nat := 4095

/-- A path has more bytes than a path may have. -/
def Path.isTooLong (p : Path) : Bool :=
  maxPathBytes < p.text.utf8ByteSize

/-- What a path leads to. -/
inductive Place where
  | directory (directory : Directory)
  | file (location : Location) (stamp : Nat) (bytes : ByteArray)
  | free (location : Location)

/-- What a path is resolved for. -/
inductive Purpose where
  /-- To find what is there. -/
  | lookup
  /-- To open a file that is created if it is missing. -/
  | creation
  /-- To tell the absolute path of what is there. -/
  | canonical
  deriving DecidableEq

/-- Why a step to a name leads nowhere, whatever stands at that name; `steps` are those that
remain. -/
def Purpose.nameFault? (purpose : Purpose) (d : Directory) (name : Name) (steps : List Step) :
    Option AccessFault :=
  if purpose = .creation ∧ steps = [.asDirectory] then some .isDirectory
  else if ¬ d.Stands then some .notFound
  else if maxNameBytes < name.text.utf8ByteSize then some .nameTooLong
  else if purpose = .canonical ∧ (Location.toPath (d.location ++ [name])).isTooLong then
    some .nameTooLong
  else none

namespace FileSystem

/-- Takes steps from a directory.  At a link it goes on with `onLink`, given the location of
the directory that holds the link, the target and the steps that remain. -/
def takeSteps (fs : FileSystem) (purpose : Purpose)
    (onLink : Location → Path → List Step → Except AccessFault Place) :
    Directory → List Step → Except AccessFault Place
  | d, [] => .ok (.directory d)
  | d, .here :: steps => takeSteps fs purpose onLink d steps
  | d, .asDirectory :: steps => takeSteps fs purpose onLink d steps
  | d, .up :: steps => takeSteps fs purpose onLink d.parent steps
  | d, .into name :: steps =>
    match purpose.nameFault? d name steps with
    | some fault => .error fault
    | none =>
      let l := d.location ++ [name]
      match fs.node? l with
      | none => if steps = [] then .ok (.free l) else .error .notFound
      | some .directory => takeSteps fs purpose onLink (.standing l) steps
      | some (.file stamp bytes) =>
        if steps = [] then .ok (.file l stamp bytes) else .error .notDirectory
      | some (.link target) => onLink d.location target steps

/-- The directory in which the steps of a path start. -/
def start (fs : FileSystem) (p : Path) : Directory :=
  if p.isAbsolute then .standing [] else fs.workingDirectory

/-- Takes steps and follows links, as many as are allowed. -/
def followSteps (fs : FileSystem) (purpose : Purpose) :
    Nat → Directory → List Step → Except AccessFault Place
  | 0 => fs.takeSteps purpose fun _ _ _ => .error .tooManyLinks
  | links + 1 => fs.takeSteps purpose fun l target steps =>
    followSteps fs purpose links (.standing (if target.isAbsolute then [] else l))
      (target.steps ++ steps)

/-- What makes a text no path. -/
def textFault? (p : Path) : Option AccessFault :=
  if p.text.toList.contains '\x00' then some .nulInPath
  else if p.text.isEmpty then some .notFound
  else none

/-- What makes a path unusable whatever the file system holds. -/
def pathFault? (p : Path) : Option AccessFault :=
  match textFault? p with
  | some fault => some fault
  | none => if p.isTooLong then some .nameTooLong else none

/-- What a path leads to. -/
def resolve (fs : FileSystem) (purpose : Purpose) (p : Path) : Except AccessFault Place :=
  match pathFault? p with
  | some fault => .error fault
  | none => fs.followSteps purpose maxLinks (fs.start p) p.steps

/-- The location that the last step of a path names, in the directory to which the steps
before it lead; nothing if the path ends in a step that names no node. -/
def resolveEntry (fs : FileSystem) (p : Path) : Except AccessFault (Option Location) :=
  match pathFault? p with
  | some fault => .error fault
  | none =>
    match (p.steps.filter (· ≠ .asDirectory)).reverse with
    | [] => .ok none
    | last :: initRev =>
      match fs.followSteps .lookup maxLinks (fs.start p) (initRev.reverse ++ [.asDirectory]) with
      | .error fault => .error fault
      | .ok (.directory d) =>
        match last with
        | .into name =>
          match Purpose.lookup.nameFault? d name [] with
          | some fault => .error fault
          | none => .ok (some (d.location ++ [name]))
        | _ => .ok none
      | .ok _ => .error .notDirectory

/-- The location of what a path leads to.  A path that starts in a removed directory has no
absolute spelling, wherever it leads. -/
def canonicalLocation (fs : FileSystem) (p : Path) : Except AccessFault Location :=
  match textFault? p with
  | some fault => .error fault
  | none =>
    if ¬ (fs.start p).Stands then .error .notFound
    else
      match fs.followSteps .canonical maxLinks (fs.start p) p.steps with
      | .ok (.directory d) => .ok d.location
      | .ok (.file l _ _) => .ok l
      | .ok (.free _) => .error .notFound
      | .error fault => .error fault

end FileSystem

end MessageCatalog
