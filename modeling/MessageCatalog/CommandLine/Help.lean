import MessageCatalog.CommandLine.Arguments

/-!
# Help pages

The text of each page of help and of the version line.
-/

namespace MessageCatalog.CommandLine

/-- Lines, each ended by a line feed. -/
def unlines (lines : List String) : String :=
  String.join (lines.map (· ++ "\n"))

/-- The version line. -/
def versionText : String :=
  "xtext 0.1.0\n"

/-- The text of a page. -/
def Page.text : Page → String
  | overview => unlines [
      "An xgettext-like CLI that extracts translatable strings into PO catalogs",
      "",
      "Usage: xtext [COMMAND]",
      "",
      "Commands:",
      "  extract           Extract translatable strings from a source tree into a PO catalog",
      "  check-duplicates  Report msgid keys that appear more than once in a PO catalog",
      "  init              Initialize a new .xtextrc.json configuration file",
      "  help              Print this message or the help of the given subcommand(s)",
      "",
      "Options:",
      "  -h, --help     Print help",
      "  -V, --version  Print version"]
  | extract => unlines [
      "Extract translatable strings from a source tree into a PO catalog",
      "",
      "Usage: xtext extract [OPTIONS] <FUNCTION> <ROOT> <LANGUAGE> [EXCLUDES]...",
      "",
      "Arguments:",
      "  <FUNCTION>     Translation function to look for, e.g. `t` for `t(\"Save\")`",
      "  <ROOT>         Root folder of the source tree",
      "  <LANGUAGE>     Target language code; the catalog is written to " ++
        "<ROOT>/POs/<LANGUAGE>.po",
      "  [EXCLUDES]...  Comma-separated list of folders whose files are skipped " ++
        "(relative paths are resolved against the current directory)",
      "",
      "Options:",
      "      --include <INCLUDES>  File-name glob to scan (overrides config file) " ++
        "Can be specified multiple times: --include '*.cs' --include '*.cshtml'",
      "  -v, --verbose             Enable verbose output",
      "  -h, --help                Print help"]
  | checkDuplicates => unlines [
      "Report msgid keys that appear more than once in a PO catalog",
      "",
      "Usage: xtext check-duplicates <CATALOG>",
      "",
      "Arguments:",
      "  <CATALOG>  PO catalog to inspect",
      "",
      "Options:",
      "  -h, --help  Print help"]
  | init => unlines [
      "Initialize a new .xtextrc.json configuration file",
      "",
      "Usage: xtext init",
      "",
      "Options:",
      "  -h, --help  Print help"]
  | help => unlines [
      "Print this message or the help of the given subcommand(s)",
      "",
      "Usage: xtext help [COMMAND]...",
      "",
      "Arguments:",
      "  [COMMAND]...  Print help for the subcommand(s)"]

end MessageCatalog.CommandLine
