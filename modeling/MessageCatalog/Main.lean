import MessageCatalog.CommandLine.Run
import MessageCatalog.Disk

/-!
# The program

Reads the command line, runs the command on the files of the machine, and writes what
it reports.
-/

namespace MessageCatalog.CommandLine

/-- The wording of a usage fault. -/
def UsageFault.message : UsageFault → String
  | missingArgument => "a required argument is missing"
  | unknownArgument => "unexpected argument found"
  | invalidSubcommand => "unrecognized subcommand"
  | invalidValue => "invalid value for an argument"
  | repeatedFlag => "an argument cannot be used multiple times"
  | unwantedValue => "a value was given to an argument that takes none"

/-- Colours are used on a terminal unless the environment asks for none. -/
def wantsColors : IO Bool := do
  if (← IO.getEnv "NO_COLOR").isSome then return false
  (← IO.getStdout).isTty

/-- The output of a command line. -/
def outputOf (arguments : List String) : IO Output := do
  match Request.ofArguments arguments with
  | .ok request => request.answer (← wantsColors)
  | .error fault => return ⟨2, "", "error: " ++ fault.message ++ "\n"⟩

end MessageCatalog.CommandLine

def main (arguments : List String) : IO UInt32 := do
  let output ← MessageCatalog.CommandLine.outputOf arguments
  (← IO.getStderr).putStr output.stderr
  (← IO.getStdout).putStr output.stdout
  return UInt32.ofNat output.status
