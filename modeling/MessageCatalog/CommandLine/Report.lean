import MessageCatalog.Catalog.Duplicate
import MessageCatalog.Scan.Merge

/-!
# Reports

What a command tells about its outcome.  Colours are a matter of the report: the same
text is written with or without them.
-/

namespace MessageCatalog.CommandLine

/-! ### Colours -/

/-- How a piece of text is set off. -/
inductive Accent where
  | green
  | red
  | blue
  | bold
  | dimmed
  | boldYellow
  deriving DecidableEq, Repr

/-- The control sequence that ends every accent. -/
def resetSequence : String :=
  "\x1b[0m"

/-- The control sequence that starts an accent. -/
def Accent.sequence : Accent → String
  | green => "\x1b[32m"
  | red => "\x1b[31m"
  | blue => "\x1b[34m"
  | bold => "\x1b[1m"
  | dimmed => "\x1b[2m"
  | boldYellow => "\x1b[1;33m"

/-- A text with an accent, which goes on after any reset inside the text. -/
def paint (colored : Bool) (accent : Accent) (text : String) : String :=
  if colored then
    let restarted := text.replace resetSequence (resetSequence ++ accent.sequence)
    accent.sequence ++ restarted ++ resetSequence
  else text

/-! ### Pieces -/

def successMark : String := "\u2713"

def failureMark : String := "\u2718"

/-- A count with its noun. -/
def counted (count : Nat) (singular plural : String) : String :=
  toString count ++ " " ++ if count = 1 then singular else plural

/-- A line that reports success. -/
def successLine (colored : Bool) (message : String) : String :=
  paint colored .green successMark ++ " " ++ paint colored .green message ++ "\n"

/-! ### Extraction -/

/-- The lines that a verbose extraction adds: the configuration file and each scanned file. -/
def extractDetails (colored : Bool) (configPath : Option Path) (summary : Scan.Summary) :
    String :=
  let config :=
    match configPath with
    | some path => "Using config " ++ path.text ++ "\n"
    | none => ""
  let fileLine (file : Scan.FileReport) : String :=
    "  " ++ paint colored .dimmed "scanned" ++ " " ++ file.path.text ++ " (" ++
      toString file.extracted ++ " found, " ++ toString file.added ++ " new)\n"
  config ++ String.join (summary.files.map fileLine)

/-- The sentence about a finished extraction. -/
def extractSentence (summary : Scan.Summary) : String :=
  let sources := toString summary.filesScanned ++ " source " ++
    if summary.filesScanned = 1 then "file" else "files"
  let path := summary.catalogPath.text
  if summary.entriesAdded = 0 then "Scanned " ++ sources ++ " - no new entries for " ++ path
  else
    (if summary.catalogExisted then "Appended " else "Wrote ") ++
      toString summary.entriesAdded ++ " new " ++
      (if summary.entriesAdded = 1 then "entry" else "entries") ++ " from " ++
      counted summary.contributing "file" "files" ++ " to " ++ path ++
      " (scanned " ++ sources ++ ")"

/-! ### Checks -/

/-- The lines about one repeated key. -/
def duplicateLines (colored : Bool) (path : Path) (duplicate : Catalog.Duplicate) : String :=
  paint colored .boldYellow "warning" ++ ": duplicated msgid \"" ++ duplicate.key ++ "\"\n" ++
    "  " ++ paint colored .blue "-->" ++ " " ++ path.text ++ ":" ++ toString duplicate.line ++
    "\n  " ++ paint colored .blue "=" ++ " " ++ paint colored .bold "first defined on" ++
    " line " ++ toString duplicate.firstLine ++ "\n\n"

/-- The report on a checked catalog. -/
def checkReport (colored : Bool) (path : Path) (check : Catalog.KeyCheck) : String :=
  if check.isClean then
    successLine colored ("Checked " ++ counted check.keyCount "msgid" "msgids" ++ " in " ++
      path.text ++ " - no duplicates found")
  else
    let count := check.duplicates.length
    String.join (check.duplicates.map (duplicateLines colored path)) ++
      paint colored .red failureMark ++ " " ++ toString count ++ " duplicated " ++
      (if count = 1 then "msgid" else "msgids") ++ " in " ++ path.text ++ "\n"

end MessageCatalog.CommandLine
