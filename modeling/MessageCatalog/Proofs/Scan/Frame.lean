import MessageCatalog.Proofs.Scan.Ending

/-!
# What a scan leaves of the files

However a scan ends, every file keeps what it held, and what looks different are directories that
are new and the file to which the path of the catalog leads (`ExtendsOnly`).  Seeing to the
directory of the catalog adds directories only, and what is written to the catalog goes on behind
the text that the scan found there (`Written.extendsOnly`).
-/

namespace MessageCatalog.Scan

open Catalog FileSystem

variable {fs ready last : FileSystem} {name : FunctionName} {path p : Path} {files : List Path}
  {before : Option String}

/-- Files keep what they held in front, and what looks different are new directories and the file to
which a path leads. -/
structure ExtendsOnly (path : Path) (fs last : FileSystem) : Prop where
  grows : Grows fs last
  file : ∀ {l stamp bytes}, fs.node? l = some (.file stamp bytes) →
    ∃ added, last.node? l = some (.file stamp (bytes ++ added))
  changed : ∀ {l}, last.node? l ≠ fs.node? l →
    (fs.node? l = none ∧ last.node? l = some .directory) ∨ last.fileLocation? path = some l

theorem extendsOnly_of_addsDirectories (h : AddsDirectories fs last) :
    ExtendsOnly path fs last where
  grows := h.grows
  file hfile := ⟨ByteArray.empty, by rw [h.keeps (by simp [hfile]), hfile, ByteArray.append_empty]⟩
  changed {l} hchanged := by
    have hnone : fs.node? l = none := by
      by_contra hthere
      exact hchanged (h.keeps hthere)
    refine .inl ⟨hnone, (h.adds hnone).resolve_left fun hstill => hchanged ?_⟩
    rw [hstill, hnone]

theorem Written.extendsOnly {entries : List Entry} {writer : Option CatalogWriter}
    (h : Written ready path before entries writer last)
    (hbefore : ready.fileBytes? path = before.map String.toUTF8) : ExtendsOnly path ready last := by
  cases h with
  | nothing => exact extendsOnly_of_addsDirectories (.refl ready)
  | @behind _ writer _ _ _ hholds hgrows hplace =>
      refine ⟨hgrows.grows, fun {l stamp bytes} hfile => ?_, fun {l} hchanged => .inr ?_⟩
      · by_cases hl : l = writer.file.location
        · subst hl
          -- the file was the catalog before, and the scan knows what it held
          have hthere : ready.fileLocation? path = some writer.file.location :=
            hplace.resolve_left (by simp [hfile])
          obtain ⟨stamp', bytes', hresolve⟩ := fileLocation?_eq_some_iff.mp hthere
          have hsame := node?_of_resolve_file hresolve
          rw [hfile] at hsame
          cases hsame
          have hbytes := fileBytes?_eq_some_iff.mpr (bytesAt_eq_ok_iff.mpr ⟨_, _, hresolve⟩)
          rw [hbefore] at hbytes
          obtain ⟨text, rfl, rfl⟩ := Option.map_eq_some_iff.mp hbytes
          obtain ⟨held, hheld⟩ := hgrows.stamp hfile
          have hnode := hholds.attached.node
          rw [hheld] at hnode
          cases hnode
          exact ⟨(Entry.textOfList entries).toUTF8, by rw [hheld]; rfl⟩
        · exact ⟨ByteArray.empty, by rw [hgrows.node? hl, hfile, ByteArray.append_empty]⟩
      · have hl : l = writer.file.location := by
          by_contra hl
          exact hchanged (hgrows.node? hl)
        rw [hl]
        exact hholds.attached.location

theorem ExtendsOnly.of_addsDirectories (h : AddsDirectories fs ready)
    (h' : ExtendsOnly path ready last) : ExtendsOnly path fs last where
  grows := h.grows.trans h'.grows
  file hfile := h'.file (by rw [h.keeps (by simp [hfile]), hfile])
  changed {l} hchanged := by
    by_cases hnone : fs.node? l = none
    · rcases h.adds hnone with hstill | hnew
      · rcases h'.changed (by rwa [hstill, ← hnone]) with ⟨-, hdir⟩ | hcatalog
        · exact .inl ⟨hnone, hdir⟩
        · exact .inr hcatalog
      · exact .inl ⟨hnone, h'.grows.directory hnew⟩
    · have hkept := h.keeps hnone
      rcases h'.changed (by rwa [hkept]) with ⟨hgone, -⟩ | hcatalog
      · exact absurd (hkept.symm.trans hgone) hnone
      · exact .inr hcatalog

/-- Whatever path a file was found by, it is found there with the same bytes in front. -/
theorem ExtendsOnly.fileBytes? (h : ExtendsOnly path fs last) {bytes : ByteArray}
    (hbytes : fs.fileBytes? p = some bytes) :
    ∃ added, last.fileBytes? p = some (bytes ++ added) := by
  obtain ⟨l, stamp, hresolve⟩ := bytesAt_eq_ok_iff.mp (fileBytes?_eq_some_iff.mp hbytes)
  obtain ⟨added, hnode⟩ := h.file (node?_of_resolve_file hresolve)
  refine ⟨added, fileBytes?_eq_some_iff.mpr (bytesAt_eq_ok_iff.mpr ⟨l, stamp, ?_⟩)⟩
  exact h.grows.resolve_file hresolve hnode

/-- **However a scan ends, it only extends the catalog.** -/
theorem Ending.extendsOnly {outcome : Except Failure Summary}
    (h : Ending fs name path files (outcome, last)) : ExtendsOnly path fs last := by
  have hadds := adds_prepareDirectory fs path
  cases h with
  | finished hbefore hwritten => exact .of_addsDirectories hadds (hwritten.extendsOnly hbefore)
  | stopped hbefore hwritten _ _ _ => exact .of_addsDirectories hadds (hwritten.extendsOnly hbefore)
  | catalogUnreadable => exact extendsOnly_of_addsDirectories hadds
  | catalogUnwritten => exact extendsOnly_of_addsDirectories hadds

theorem extendsOnly_after_scan (fs : FileSystem) (name : FunctionName) (target : Target)
    (path : Path) : ExtendsOnly path fs (fs.after (scan name target path)) := by
  cases hcollect : fs.answer (collectFiles target) with
  | ok files =>
      have hending := ending_run_scanFiles fs name path files
      rw [← run_scan_of_collectFiles hcollect] at hending
      exact hending.extendsOnly
  | error failure =>
      have hcollected := run_eq_of_answer hcollect
      rw [after_collectFiles] at hcollected
      rw [after, scan_eq, run_bind_of_error hcollected]
      exact extendsOnly_of_addsDirectories (.refl fs)

end MessageCatalog.Scan
