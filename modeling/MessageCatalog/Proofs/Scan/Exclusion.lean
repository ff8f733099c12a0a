import MessageCatalog.Proofs.FileSystem.Denotation
import MessageCatalog.Proofs.Scan.Listing

/-!
# Which directories are left out

Excluded directories are compared with the directories of the walk by their spelling, after both
were put into canonical form as far as there is one.  The spelling tells directories apart: an
exclude that has a canonical form is found again exactly if it denotes the directory and the walk
spells that one canonically, too, and an exclude that has none exactly if the walk spells the
directory as the exclude does, which denotes it then (`spellsLike_normalize_iff`).

So a file is left out only if an exclude denotes its directory, and with canonical forms on both
sides exactly if one does (`not_mem_collectFiles_iff`).
-/

namespace MessageCatalog.Scan

open FileSystem

variable {fs : FileSystem} {target : Target} {files : List Path} {p q : Path} {l dir : Location}

/-! ### Canonical forms of directories -/

private theorem denotes_normalized (h : fs.Denotes p l) : fs.Denotes (normalized fs p) l := by
  unfold normalized
  split
  · rename_i m htold
    obtain rfl := location_eq_of_denotes h htold
    exact denotes_toPath h.node?
  · exact h

/-- **Which excludes are spelled like a directory of a walk.** -/
theorem spellsLike_normalize_iff (hdir : fs.Denotes p dir) (hq : q.text ≠ "") :
    p.spellsLike (normalized fs q) = true ↔ fs.Denotes q dir ∧
      (fs.Told q ∧ p.spellsLike dir.toPath = true ∨ ¬ fs.Told q ∧ p.spellsLike q = true) := by
  by_cases htold : fs.Told q
  · obtain ⟨m, hm⟩ := htold
    rw [normalized_of_told hm]
    simp only [show fs.Told q from ⟨m, hm⟩, true_and, not_true_eq_false, false_and, or_false]
    constructor
    · intro hspelled
      rcases denotes_or_file_of_told hm with hdenotes | ⟨stamp, bytes, hfile⟩
      · obtain rfl := eq_of_spellsLike_toPath hdir hspelled hdenotes.node?
          fun _ hlink => by cases hlink
        exact ⟨hdenotes, hspelled⟩
      · -- a file has the absolute path of no directory
        obtain rfl := eq_of_spellsLike_toPath hdir hspelled hfile fun _ hlink => by cases hlink
        cases hfile.symm.trans hdir.node?
    · rintro ⟨hdenotes, hspelled⟩
      rwa [location_eq_of_denotes hdenotes hm]
  · rw [normalized_of_not_told htold]
    simp only [htold, false_and, false_or, not_false_eq_true, true_and]
    refine ⟨fun hspelled => ⟨hdir.of_spellsLike ?_ hq, hspelled⟩, And.right⟩
    rw [Path.spellsLike_iff] at hspelled ⊢
    exact hspelled.symm

/-! ### Files of a directory -/

private theorem resolve_of_filesFrom {root : Path} {walked : List Path}
    (h : fs.filesFrom root = .ok walked) (hroot : fs.Denotes root l) :
    fs.resolve .lookup root = .ok (.directory (.standing l)) := by
  have hplace : ∃ place, fs.resolve .lookup root = .ok place := by
    rcases filesFrom_cases h with ⟨l, stamp, bytes, hresolve, -⟩ | ⟨l, hresolve, -⟩ |
      ⟨d, hresolve, -, -⟩
    · exact ⟨_, hresolve⟩
    · exact ⟨_, hresolve⟩
    · exact ⟨_, hresolve⟩
  obtain ⟨place, hresolve⟩ := hplace
  rw [hresolve, hroot.place_eq hresolve]

private theorem exists_parent?_spellsLike_iff {root : Path} (hroot : root.text ≠ "")
    (names : List Name) (name : Name) (excluded : List Path) :
    (∃ dir, (root.joinNames (names ++ [name])).parent? = some dir ∧
        ∃ other ∈ excluded, dir.spellsLike other = true) ↔
      ∃ other ∈ excluded, (root.joinNames names).spellsLike other = true := by
  obtain ⟨dir, hparent, hparts⟩ := Path.exists_parent?_joinNames_concat hroot names name
  simp only [hparent, Option.some.injEq, exists_eq_left', Path.spellsLike_iff, hparts]

/-- **A file of a name that is asked for is missing exactly if an exclude denotes its directory and
is spelled, in its canonical form if there is one, as the walk spells the directory.** -/
theorem not_mem_collectFiles_iff {names : List Name} {name : Name} {stamp : Nat}
    {bytes : ByteArray} (hroot : fs.Denotes target.root l)
    (hcollect : fs.answer (collectFiles target) = .ok files)
    (hfile : fs.node? (l ++ names ++ [name]) = some (.file stamp bytes))
    (hinclude : ∃ text ∈ target.includes, ∃ pattern, Glob.Pattern.ofString? text = .ok pattern ∧
      pattern.accepts name.text = true) :
    (walkedRoot fs target).joinNames (names ++ [name]) ∉ files ↔
      ∃ e ∈ target.excludes, fs.Denotes ((walkedRoot fs target).join e) (l ++ names) ∧
        (fs.Told ((walkedRoot fs target).join e) ∧
            ((walkedRoot fs target).joinNames names).spellsLike
              (Location.toPath (l ++ names)) = true ∨
          ¬ fs.Told ((walkedRoot fs target).join e) ∧
            ((walkedRoot fs target).joinNames names).spellsLike
              ((walkedRoot fs target).join e) = true) := by
  have hwalkedRoot : fs.Denotes (walkedRoot fs target) l := by
    rw [walkedRoot_eq]
    exact denotes_normalized hroot
  generalize hR : walkedRoot fs target = root at hwalkedRoot
  have hne : root.text ≠ "" := (textFault?_eq_none_iff.mp hwalkedRoot.text).2
  obtain ⟨text, htext, pattern, hpattern, haccepts⟩ := hinclude
  obtain ⟨patterns, hcompile, hfiles⟩ := eq_selectFiles_of_collectFiles hcollect
  have hmem : pattern ∈ patterns := by
    refine ((mem_iff_of_mapM_eq_ok hcompile).2 pattern).mpr ⟨text, htext, ?_⟩
    rw [hpattern]
    rfl
  obtain ⟨rfl, -⟩ | ⟨walked, hwalked, rfl⟩ := hfiles
  · cases hmem
  rw [hR] at hwalked
  -- the walk reaches the file and an include accepts its name, so that excludes alone decide
  have hreaches : fs.Reaches root (root.joinNames (names ++ [name])) :=
    .below (resolve_of_filesFrom hwalked hwalkedRoot) (by simp) (by rwa [← List.append_assoc])
  have hname : ∃ pattern ∈ patterns, ∃ text,
      (root.joinNames (names ++ [name])).fileName? = some text ∧ pattern.accepts text = true :=
    ⟨pattern, hmem, name.text, Path.fileName?_joinNames_concat hne names name, haccepts⟩
  have hdir : fs.Denotes (root.joinNames names) (l ++ names) :=
    hwalkedRoot.joinNames (node?_eq_directory_of_append (List.cons_ne_nil _ _) hfile)
  rw [mem_selectFiles_iff_reaches hwalked, exists_parent?_spellsLike_iff hne]
  simp only [hreaches, hname, true_and, not_not, mem_leftOut_iff, hR,
    exists_exists_and_eq_and]
  refine exists_congr fun e => and_congr_right fun _ => ?_
  exact spellsLike_normalize_iff hdir (Path.text_join_ne_empty hne e)

end MessageCatalog.Scan
