import MessageCatalog.FileSystem.Access

/-!
# The files of the machine

The operations on files as effects on the machine's own file system.
-/

namespace MessageCatalog.Disk

/-- A cause that the operating system reports under a number of its own. -/
def otherFault (details : String) (number : UInt32) : AccessFault :=
  .other (details.capitalize ++ " (os error " ++ toString number.toNat ++ ")")

/-- The cause that an error of the machine stands for. -/
def faultOf : IO.Error → AccessFault
  | .noFileOrDirectory .. => .notFound
  | .alreadyExists .. => .alreadyExists
  | .inappropriateType _ number details =>
    if number = 20 then .notDirectory
    else if number = 21 then .isDirectory
    else otherFault details number
  | .permissionDenied _ number details => otherFault details number
  | .resourceExhausted _ number details => otherFault details number
  | .invalidArgument _ number details => otherFault details number
  | .otherError number details => otherFault details number
  | error => .other (toString error)

/-- Runs an operation and returns its error as a fault. -/
def attempt {α : Type} (operation : IO α) : IO (Except AccessFault α) := do
  try
    return .ok (← operation)
  catch error => return .error (faultOf error)

/-- The kind of what a path leads to. -/
def kind? (p : Path) : IO (Option FileKind) := do
  let native := (IO.FS.DirEntry.mk p.text "").root
  try
    match (← native.metadata).type with
    | .dir => return some .directory
    | .file => return some .regular
    | _ => return none
  catch _ => return none

/-- The regular files below a directory, the names of each directory in order. -/
partial def filesBelow (p : Path) : ExceptT WalkFault IO (List Path) := do
  let native := (IO.FS.DirEntry.mk p.text "").root
  let entries ← ExceptT.mk ((attempt native.readDir).map (·.mapError (⟨p, ·⟩)))
  let sorted := entries.toList.mergeSort fun a b => a.fileName ≤ b.fileName
  let below ← sorted.mapM fun entry => do
    let path := p.join ⟨entry.fileName⟩
    let data ← ExceptT.mk ((attempt entry.path.symlinkMetadata).map (·.mapError (⟨path, ·⟩)))
    match data.type with
    | .dir => filesBelow path
    | .file => return [path]
    | _ => return []
  return below.flatten

/-- The regular files at or below a path. -/
def filesFrom (p : Path) : ExceptT WalkFault IO (List Path) := do
  let native := (IO.FS.DirEntry.mk p.text "").root
  let own ← ExceptT.mk ((attempt native.symlinkMetadata).map (·.mapError (⟨p, ·⟩)))
  let data ← ExceptT.mk ((attempt native.metadata).map (·.mapError (⟨p, ·⟩)))
  match own.type, data.type with
  | _, .dir => filesBelow p
  | .file, _ => return [p]
  | _, _ => return []

/-- The working directory.  It has no path when it is removed, which the machine reports
without a number of its own. -/
def workingDirectory : IO (Except AccessFault Path) := do
  try
    return .ok ⟨(← IO.currentDir).toString⟩
  catch _ => return .error .notFound

instance : FileAccess IO where
  Writer := IO.FS.Handle
  workingDirectory := workingDirectory
  kind? := kind?
  canonicalPath p := attempt do return ⟨(← IO.FS.realPath p.text).toString⟩
  readBytes p := attempt (IO.FS.readBinFile p.text)
  filesBelow p := (filesFrom p).run
  createDirectory p := attempt (IO.FS.createDir p.text)
  create p := attempt (IO.FS.Handle.mk p.text .write)
  openAtEnd p := attempt (IO.FS.Handle.mk p.text .append)
  write handle bytes := attempt do
    handle.write bytes
    handle.flush
    return handle

end MessageCatalog.Disk
