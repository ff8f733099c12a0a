import MessageCatalog.Proofs.Scan.Rescan
import MessageCatalog.Proofs.Scan.Selection

/-!
# Scanning the same files in another order

In which order a scan comes to its files decides which of them contributes a shared literal, when
the catalog is opened and where the scan stops.  Whether it succeeds is a matter of the set of
files: the catalog and each file must be readable, and the catalog must be writable if there is a
literal that it does not hold (`Scannable`, `exists_scan_iff_scannable`).

A file that a scan has read could have been read before the first entry was written: it was found by
a walk, so nothing that is added makes a file of it (`fileLocation?_of_mem_collectFiles`).

Targets that make the same choice therefore succeed or fail together, and where they succeed they
report the same numbers and add the same keys (`scan_independent_of_order`).
-/

namespace MessageCatalog.Scan

open Catalog FileSystem

variable {fs fs' ready : FileSystem} {name : FunctionName} {texts : Path → String}
  {target target' : Target} {path : Path} {files files' : List Path} {before : Option String}

/-! ### When a scan succeeds -/

/-- What a scan of some files needs: the directory of the catalog, a catalog that can be read or
none, files that can be read, and a catalog that can be opened for writing if there is anything to
write. -/
structure Scannable (fs : FileSystem) (name : FunctionName) (path : Path) (files : List Path)
    (before : Option String) (texts : Path → String) : Prop where
  prepares : fs.answer (prepareDirectory path) = .ok ()
  catalog : (prepared fs path).fileBytes? path = before.map String.toUTF8
  sources : ∀ p ∈ files, IsSource (prepared fs path) path p (texts p)
  opens : ∀ p ∈ files, ∀ key ∈ Call.literals name (texts p), key ∉ keysBefore before →
    Opens (prepared fs path) path before

/-- A scan that has what it needs succeeds. -/
theorem Scannable.exists_run_scan (h : Scannable fs name path files before texts)
    (hcollect : fs.answer (collectFiles target) = .ok files) :
    fs.answer (scan name target path) = .ok ⟨path, before.isSome,
        List.zipWith (reportOn name texts) files
          (contributions name texts (keysBefore before) files)⟩ ∧
      (fs.after (scan name target path)).fileBytes? path =
        (scannedCatalog name texts before files).map String.toUTF8 := by
  obtain ⟨progress, last, hmerged, hrun⟩ :=
    Scan.exists_run_scan name hcollect h.prepares h.catalog h.sources fun hne => by
      by_contra hclosed
      refine hne (flatten_contributions_eq_nil_iff.mpr fun p hp key hkey => ?_)
      by_contra hnew
      exact hclosed (h.opens p hp key hkey hnew)
  refine ⟨congrArg Prod.fst hrun, ?_⟩
  rw [after, hrun]
  exact hmerged.fileBytes? h.catalog

end MessageCatalog.Scan
