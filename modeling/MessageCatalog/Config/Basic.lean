import MessageCatalog.Glob.Pattern
import MessageCatalog.Scan.Target
import MessageCatalog.Text.Blank

/-!
# Configurations

A configuration says which files a scan takes, which directories it leaves out, and
in which directory the catalogs lie.  What is not configured has its default.
-/

namespace MessageCatalog

/-- The settings of a project. -/
structure Config where
  /-- The name patterns of the files to scan. -/
  includes : List String := Scan.defaultIncludes
  /-- Directories whose own files are left out. -/
  excludes : List String := []
  /-- The directory of the catalogs, seen from the root. -/
  catalogDir : String := Scan.defaultCatalogDir
  deriving DecidableEq, Repr

/-- Why a configuration cannot be used. -/
inductive ConfigFault where
  | includePattern (pattern : String) (fault : Glob.Fault)
  | blankCatalogDir
  deriving DecidableEq, Repr

namespace ConfigFault

def message : ConfigFault → String
  | includePattern pattern _ => "Invalid glob pattern in 'includes': \"" ++ pattern ++ "\""
  | blankCatalogDir => "'catalogDir' must not be empty"

def causes : ConfigFault → List String
  | includePattern _ fault => [fault.message]
  | blankCatalogDir => []

end ConfigFault

/-- The first of some texts that is no pattern. -/
def firstPatternFault? : List String → Option ConfigFault
  | [] => none
  | text :: others =>
    match Glob.Pattern.ofString? text with
    | .ok _ => firstPatternFault? others
    | .error fault => some (.includePattern text fault)

/-- What is wrong with a configuration: an include that is no pattern, or else a catalog
directory that is blank. -/
def Config.fault? (config : Config) : Option ConfigFault :=
  match firstPatternFault? config.includes with
  | some fault => some fault
  | none => if Text.allBlank config.catalogDir then some .blankCatalogDir else none

end MessageCatalog
