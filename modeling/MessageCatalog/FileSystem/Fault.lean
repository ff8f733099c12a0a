/-!
# Why a file cannot be reached

The causes that an operation on files can fail with, and their wording.
-/

namespace MessageCatalog

/-- Why an operation on files failed. -/
inductive AccessFault where
  | notFound
  | alreadyExists
  | notDirectory
  | isDirectory
  | nameTooLong
  | tooManyLinks
  /-- The path holds a NUL character. -/
  | nulInPath
  /-- The bytes of the file are no UTF-8 text. -/
  | notText
  | other (message : String)
  deriving DecidableEq, Repr

/-- A cause that the operating system reports under a number. -/
private def numbered (text : String) (number : Nat) : String :=
  text ++ " (os error " ++ toString number ++ ")"

/-- The wording of a cause. -/
def AccessFault.message : AccessFault → String
  | notFound => numbered "No such file or directory" 2
  | alreadyExists => numbered "File exists" 17
  | notDirectory => numbered "Not a directory" 20
  | isDirectory => numbered "Is a directory" 21
  | nameTooLong => numbered "File name too long" 36
  | tooManyLinks => numbered "Too many levels of symbolic links" 40
  | nulInPath => "file name contained an unexpected NUL byte"
  | notText => "stream did not contain valid UTF-8"
  | other message => message

end MessageCatalog
