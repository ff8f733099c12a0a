import MessageCatalog.FileSystem.Access
import MessageCatalog.FileSystem.Resolve

/-!
# Operations on a file system that is a value

Each operation returns its answer and the file system after it; one that fails
leaves the file system as it was.

A writer belongs to the file that it opened and not to the place where that file
stood: once the file is gone, or another one has taken its place, what it writes is
lost.  Opened on an emptied file, it goes on at its own offset, and what lies between
the end of the file and that offset reads as zeros; opened at the end, it always
writes at the end.
-/

namespace MessageCatalog.FileSystem

/-- Where the next bytes of a writer go. -/
inductive WritePosition where
  | atEnd
  | atOffset (offset : Nat)
  deriving DecidableEq

/-- A file that is open for writing. -/
structure OpenFile where
  location : Location
  stamp : Nat
  position : WritePosition
  deriving DecidableEq

/-! ### Looking -/

def kindAt? (fs : FileSystem) (p : Path) : Option FileKind :=
  match fs.resolve .lookup p with
  | .ok (.directory _) => some .directory
  | .ok (.file ..) => some .regular
  | _ => none

/-- The bytes of the file that a path leads to. -/
def bytesAt (fs : FileSystem) (p : Path) : Except AccessFault ByteArray :=
  match fs.resolve .lookup p with
  | .ok (.directory _) => .error .isDirectory
  | .ok (.file _ _ bytes) => .ok bytes
  | .ok (.free _) => .error .notFound
  | .error fault => .error fault

/-- The path of the working directory, as long as it is there. -/
def workingPath (fs : FileSystem) : Except AccessFault Path :=
  if fs.workingDirectory.Stands then .ok fs.workingDirectory.location.toPath
  else .error .notFound

/-! ### Walking -/

/-- A location with a node that lies at or below another one. -/
def nodesFrom (fs : FileSystem) (l : Location) : List (Location × Node) :=
  fs.nodes.toList.filter fun entry => l.isPrefixOf entry.1

/-- The nodes below a location, with their paths from a path of that location on. -/
def nodesBelow (fs : FileSystem) (l : Location) (root : Path) : List (Path × Node) :=
  ((fs.nodesFrom l).filter fun entry => entry.1 ≠ l).map fun entry =>
    ((entry.1.drop l.length).foldl (fun p name => p.join ⟨name.text⟩) root, entry.2)

/-- The regular files among nodes, as long as no directory among them has a path that is too
long to be opened. -/
def filesAmong : List (Path × Node) → Except WalkFault (List Path)
  | [] => .ok []
  | (p, .directory) :: nodes =>
    if p.isTooLong then .error ⟨p, .nameTooLong⟩ else filesAmong nodes
  | (p, .file ..) :: nodes => (filesAmong nodes).map (p :: ·)
  | (_, .link _) :: nodes => filesAmong nodes

/-- A path ends in a link. -/
def endsInLink (fs : FileSystem) (p : Path) : Bool :=
  match fs.resolveEntry p with
  | .ok (some l) =>
    match fs.node? l with
    | some (.link _) => true
    | _ => false
  | _ => false

/-- The regular files at or below a path, in the order of their locations.  The path may lead
through links and may end in one to a directory, but not in one to a file. -/
def filesFrom (fs : FileSystem) (root : Path) : Except WalkFault (List Path) :=
  match fs.resolve .lookup root with
  | .error fault => .error ⟨root, fault⟩
  | .ok (.free _) => .error ⟨root, .notFound⟩
  | .ok (.file ..) => .ok (if fs.endsInLink root then [] else [root])
  | .ok (.directory d) =>
    if d.Stands then filesAmong (fs.nodesBelow d.location root) else .ok []

/-! ### Changing -/

/-- Puts a node at a location, which fails where the directory around it is gone. -/
def store (fs : FileSystem) (l : Location) (node : Node) : Except AccessFault FileSystem :=
  if h : fs.CanHold l then .ok (fs.put l node h) else .error .notFound

/-- Creates a node that is no file at the end of a path. -/
def makeNode (fs : FileSystem) (p : Path) (node : Node) : Except AccessFault FileSystem :=
  match fs.resolveEntry p with
  | .error fault => .error fault
  | .ok none => .error .alreadyExists
  | .ok (some l) => if (fs.node? l).isSome then .error .alreadyExists else fs.store l node

/-- Creates a directory. -/
def makeDirectory (fs : FileSystem) (p : Path) : Except AccessFault FileSystem :=
  fs.makeNode p .directory

/-- Creates a link. -/
def makeLink (fs : FileSystem) (p target : Path) : Except AccessFault FileSystem :=
  match pathFault? target with
  | some fault => .error fault
  | none => fs.makeNode p (.link target)

/-- Removes what stands at the end of a path, a directory with all that it holds. -/
def remove (fs : FileSystem) (p : Path) : Except AccessFault FileSystem :=
  match fs.resolveEntry p with
  | .error fault => .error fault
  | .ok none =>
    match fs.canonicalLocation p with
    | .error fault => .error fault
    | .ok l => .ok (fs.removeAll l)
  | .ok (some l) => if (fs.node? l).isSome then .ok (fs.removeAll l) else .error .notFound

/-- Makes the directory to which a path leads the working directory. -/
def changeDirectory (fs : FileSystem) (p : Path) : Except AccessFault FileSystem :=
  match fs.resolve .lookup p with
  | .ok (.directory d) =>
    if h : fs.nodes.HasDirectory d.location then .ok (fs.enter d h) else .error .notFound
  | .ok (.file ..) => .error .notDirectory
  | .ok (.free _) => .error .notFound
  | .error fault => .error fault

/-- Creates or empties a file and opens it. -/
def openNew (fs : FileSystem) (p : Path) : Except AccessFault (OpenFile × FileSystem) :=
  match fs.resolve .creation p with
  | .error fault => .error fault
  | .ok (.directory _) => .error .isDirectory
  | .ok (.file l stamp _) =>
    (fs.store l (.file stamp ByteArray.empty)).map fun fs => (⟨l, stamp, .atOffset 0⟩, fs)
  | .ok (.free l) =>
    let (stamp, fs) := fs.takeStamp
    (fs.store l (.file stamp ByteArray.empty)).map fun fs => (⟨l, stamp, .atOffset 0⟩, fs)

/-- Opens an existing file at its end. -/
def openEnd (fs : FileSystem) (p : Path) : Except AccessFault OpenFile :=
  match fs.resolve .lookup p with
  | .error fault => .error fault
  | .ok (.directory _) => .error .isDirectory
  | .ok (.file l stamp _) => .ok ⟨l, stamp, .atEnd⟩
  | .ok (.free _) => .error .notFound

/-- Some zero bytes. -/
def zeros (n : Nat) : ByteArray :=
  ⟨Array.replicate n 0⟩

/-- The bytes of a file after new ones are written at a position. -/
def overwrite (old new : ByteArray) : WritePosition → ByteArray
  | .atEnd => old ++ new
  | .atOffset offset =>
    old.extract 0 offset ++ zeros (offset - old.size) ++ new ++
      old.extract (offset + new.size) old.size

/-- The position after some bytes are written. -/
def WritePosition.advance (n : Nat) : WritePosition → WritePosition
  | .atEnd => .atEnd
  | .atOffset offset => .atOffset (offset + n)

/-- Writes bytes to an open file. -/
def writeOpen (fs : FileSystem) (file : OpenFile) (bytes : ByteArray) : OpenFile × FileSystem :=
  let after := { file with position := file.position.advance bytes.size }
  match fs.node? file.location with
  | some (.file stamp old) =>
    if stamp = file.stamp then
      match fs.store file.location (.file stamp (overwrite old bytes file.position)) with
      | .ok fs => (after, fs)
      | .error _ => (after, fs)
    else (after, fs)
  | _ => (after, fs)

/-! ### The operations as effects -/

/-- Replaces the file system by the outcome of a change, unless the change failed. -/
def change (f : FileSystem → Except AccessFault FileSystem) :
    StateM FileSystem (Except AccessFault Unit) := fun fs =>
  match f fs with
  | .ok fs => (.ok (), fs)
  | .error fault => (.error fault, fs)

instance : FileAccess (StateM FileSystem) where
  Writer := OpenFile
  workingDirectory := fun fs => (fs.workingPath, fs)
  kind? p := fun fs => (fs.kindAt? p, fs)
  canonicalPath p := fun fs => ((fs.canonicalLocation p).map Location.toPath, fs)
  readBytes p := fun fs => (fs.bytesAt p, fs)
  filesBelow p := fun fs => (fs.filesFrom p, fs)
  createDirectory p := change (makeDirectory · p)
  create p := fun fs =>
    match fs.openNew p with
    | .ok (file, fs) => (.ok file, fs)
    | .error fault => (.error fault, fs)
  openAtEnd p := fun fs => (fs.openEnd p, fs)
  write file bytes := fun fs =>
    let (file, fs) := fs.writeOpen file bytes
    (.ok file, fs)

end MessageCatalog.FileSystem
