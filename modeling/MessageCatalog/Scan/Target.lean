import MessageCatalog.Path

/-!
# What is scanned

A target names a root directory, the name patterns of the files to scan and the
directories whose own files are left out.  The catalog of a language lies in a
directory of its own, as a rule below the root.
-/

namespace MessageCatalog.Scan

/-- Source, markup and template files. -/
def defaultIncludes : List String :=
  ["*.cs", "*.aspx", "*.ascx", "*.Master"]

/-- The usual directory of the catalogs. -/
def defaultCatalogDir : String :=
  "POs"

/-- Where and what to scan. -/
structure Target where
  root : Path
  includes : List String := defaultIncludes
  /-- Directories whose own files are left out; a relative path starts at the root. -/
  excludes : List Path := []
  deriving DecidableEq, Repr

/-- The path of the catalog of a language. -/
def catalogPath (root : Path) (catalogDir language : String) : Path :=
  (root.join ⟨catalogDir⟩).join ⟨language ++ ".po"⟩

end MessageCatalog.Scan
