import MessageCatalog.CommandLine.Help
import MessageCatalog.CommandLine.Report
import MessageCatalog.Config.Discovery
import MessageCatalog.Config.Printer

/-!
# Running commands

A command ends with an exit status and what it wrote to its two outputs.  The status
is 0 for success, 1 if a check found something, and 2 if the command failed; a failure
is written to the second output with all its causes.
-/

namespace MessageCatalog.CommandLine

/-- How a run ended. -/
structure Output where
  status : Nat
  stdout : String
  stderr : String
  deriving DecidableEq, Repr

/-- Why a language is no language code. -/
inductive LanguageFault where
  | blank
  /-- The text is not a single segment of a path. -/
  | notSegment
  deriving DecidableEq, Repr

/-- Why a command failed. -/
inductive CommandFailure where
  | engine (failure : Failure)
  | config (failure : Config.LoadFailure)
  | noRoot (root : Path)
  | language (language : String) (fault : LanguageFault)
  | noWorkingDirectory (cause : AccessFault)
  | configExists
  | configNotWritten (cause : AccessFault)
  deriving DecidableEq, Repr

namespace CommandFailure

/-- The message of a failure and those of its causes, outermost first. -/
def messages : CommandFailure → List String
  | engine failure => failure.message :: failure.causes
  | config failure => failure.message :: failure.causes
  | noRoot root => ["Root folder does not exist: " ++ root.text]
  | language _ .blank => ["Language code must not be empty"]
  | language text .notSegment => ["Invalid language code: \"" ++ text ++ "\""]
  | noWorkingDirectory cause => ["Failed to read the current directory", cause.message]
  | configExists => [Config.fileName.text ++ " already exists"]
  | configNotWritten cause => ["Failed to write " ++ Config.fileName.text, cause.message]

/-- The line that reports a failure. -/
def line (failure : CommandFailure) : String :=
  "Error: " ++ ": ".intercalate failure.messages ++ "\n"

end CommandFailure

/-- What is wrong with a text as a language code, which becomes the name of a file. -/
def languageFault? (language : String) : Option LanguageFault :=
  if Text.allBlank language then some .blank
  else if language.toList.any (fun c => c = '/' || c = '\\') || language = "." ||
      language = ".." then some .notSegment
  else none

/-- A run that failed, after `log` was written. -/
def failed (log : String) (failure : CommandFailure) : Output :=
  ⟨2, "", log ++ failure.line⟩

variable {m : Type → Type} [Monad m] [FileAccess m]

/-! ### Extraction -/

/-- What an extraction needs to know before it looks for files. -/
structure Preparation where
  name : FunctionName
  loaded : Config.Loaded
  deriving DecidableEq

/-- Checks the settings of an extraction and loads the configuration of its root. -/
def prepare (options : ExtractOptions) : ExceptT CommandFailure m Preparation := do
  let name ← (Scan.functionName options.function : Action m FunctionName).adapt .engine
  if !(← (FileAccess.isDirectory options.root : m Bool)) then throw (.noRoot options.root)
  match languageFault? options.language with
  | some fault => throw (.language options.language fault)
  | none => pure ()
  let loaded ← (Config.load options.root : ExceptT Config.LoadFailure m _).adapt .config
  return ⟨name, loaded⟩

/-- The target of an extraction.  Includes of the command line replace those of the
configuration; its excludes are added and seen from the working directory. -/
def extractTarget (options : ExtractOptions) (config : Config) (workingDirectory : Path) :
    Scan.Target where
  root := options.root
  includes := if options.includes.isEmpty then config.includes else options.includes
  excludes := config.excludes.map Path.mk ++ options.excludes.map workingDirectory.join

/-- Scans the root of an extraction. -/
def scanRoot (options : ExtractOptions) (preparation : Preparation) :
    ExceptT CommandFailure m Scan.Summary := do
  let config := preparation.loaded.config
  match ← (FileAccess.workingDirectory : m (Except AccessFault Path)) with
  | .error cause => throw (.noWorkingDirectory cause)
  | .ok workingDirectory =>
    let target := extractTarget options config workingDirectory
    let path := Scan.catalogPath options.root config.catalogDir options.language
    (Scan.scan preparation.name target path : Action m Scan.Summary).adapt .engine

/-- The note of a verbose extraction that finds no configuration file. -/
def defaultsNote (options : ExtractOptions) (loaded : Config.Loaded) : String :=
  if options.verbose && loaded.path.isNone then
    "Note: No " ++ Config.fileName.text ++ " found, using default configuration\n"
  else ""

/-- Extracts the literals of a source tree into a catalog. -/
def runExtract (colored : Bool) (options : ExtractOptions) : m Output := do
  match ← (prepare options).run with
  | .error failure => return failed "" failure
  | .ok preparation =>
    let note := defaultsNote options preparation.loaded
    match ← (scanRoot options preparation).run with
    | .error failure => return failed note failure
    | .ok summary =>
      let details :=
        if options.verbose then extractDetails colored preparation.loaded.path summary else ""
      return ⟨0, successLine colored (extractSentence summary), note ++ details⟩

/-! ### The other commands -/

/-- Reports the repeated keys of a catalog. -/
def runCheck (colored : Bool) (catalog : Path) : m Output := do
  match ← (Catalog.checkFile catalog : Action m Catalog.KeyCheck).run with
  | .error failure => return failed "" (.engine failure)
  | .ok check =>
    return ⟨if check.isClean then 0 else 1, checkReport colored catalog check, ""⟩

/-- Writes a text to a new file. -/
def writeNewFile (path : Path) (text : String) : m (Except AccessFault Unit) := do
  match ← FileAccess.create path with
  | .error cause => return .error cause
  | .ok file => return (← FileAccess.write file text.toUTF8).map fun _ => ()

/-- Writes the default configuration to the working directory. -/
def runInit (colored : Bool) : m Output := do
  if ← FileAccess.pathExists Config.fileName then return failed "" .configExists
  match ← writeNewFile Config.fileName (Config.text {}) with
  | .error cause => return failed "" (.configNotWritten cause)
  | .ok () => return ⟨0, successLine colored ("Created " ++ Config.fileName.text), ""⟩

/-- Runs a command. -/
def Command.run (colored : Bool) : Command → m Output
  | .extract options => runExtract colored options
  | .checkDuplicates catalog => runCheck colored catalog
  | .init => runInit colored

/-- Answers a request. -/
def Request.answer (colored : Bool) : Request → m Output
  | .run none => return ⟨0, Page.overview.text, ""⟩
  | .run (some command) => command.run colored
  | .help page => return ⟨0, page.text, ""⟩
  | .version => return ⟨0, versionText, ""⟩

end MessageCatalog.CommandLine
