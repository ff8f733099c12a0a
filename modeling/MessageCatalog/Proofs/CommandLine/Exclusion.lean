import MessageCatalog.CommandLine.Run
import MessageCatalog.Proofs.Scan.Depth
import MessageCatalog.Proofs.Scan.Exclusion

/-!
# Excluding directories from an extraction

The directories that the configuration excludes are seen from the root, those of the command line
from the working directory, and absolute paths stand for themselves (`excludedPaths`).

A file of a name that is asked for is left out only if one of these paths denotes its directory, and
if the absolute paths of the root and of the directory can be told, exactly if one does
(`skips_iff_denoted`).  Then the spelling of an exclude makes no difference, and an exclude that
denotes a file or nothing leaves nothing out.
-/

namespace MessageCatalog.CommandLine

open FileSystem Scan

variable {fs : FileSystem} {options : ExtractOptions} {config : Config} {cwd p q : Path}
  {files : List Path} {l k : Location}

/-- The paths that are excluded from an extraction. -/
def excludedPaths (options : ExtractOptions) (config : Config) (root workingDirectory : Path) :
    List Path :=
  config.excludes.map (fun dir => root.join ⟨dir⟩) ++ options.excludes.map workingDirectory.join

private theorem isAbsolute_of_workingPath (h : fs.workingPath = .ok cwd) :
    cwd.isAbsolute = true := by
  unfold workingPath at h
  split at h
  · cases h
    exact isAbsolute_toPath _
  · cases h

private theorem isAbsolute_join_of_isAbsolute (hp : p.isAbsolute = true) (e : Path) :
    (p.join e).isAbsolute = true := by
  have hne : p.text ≠ "" := by
    intro hempty
    rw [Path.isAbsolute, hempty] at hp
    cases hp
  cases he : e.isAbsolute with
  | true => rwa [join_of_isAbsolute p he]
  | false => rwa [Path.isAbsolute_join hne he]

/-- Excludes of the command line are absolute, so that the root makes no difference to them. -/
theorem map_join_excludes (hcwd : fs.workingPath = .ok cwd) (root : Path) :
    (extractTarget options config cwd).excludes.map root.join =
      excludedPaths options config root cwd := by
  have habsolute := isAbsolute_of_workingPath hcwd
  rw [extractTarget, List.map_append, List.map_map, List.map_map, excludedPaths]
  refine congrArg₂ (· ++ ·) rfl (List.map_congr_left fun e _ => ?_)
  exact join_of_isAbsolute root (isAbsolute_join_of_isAbsolute habsolute e)

private theorem exists_excludedPaths_congr (hp : fs.Denotes p l) (hq : fs.Denotes q l) :
    (∃ e ∈ excludedPaths options config p cwd, fs.Denotes e k) ↔
      ∃ e ∈ excludedPaths options config q cwd, fs.Denotes e k := by
  simp only [excludedPaths, List.mem_append, List.mem_map, or_and_right, exists_or,
    exists_exists_and_eq_and, hp.join_congr hq]

/-- **Which files of an extraction are left out.**  In general an exclude leaves a file out if it
denotes the directory of the file and is spelled as the walk spells it, in its absolute form if that
can be told.  Where it can be told, what an exclude denotes decides alone. -/
theorem skips_iff_denoted {names : List Name} {name : Name} {stamp : Nat} {bytes : ByteArray}
    (hcwd : fs.workingPath = .ok cwd) (hroot : fs.Denotes options.root l)
    (hcollect : fs.answer (collectFiles (extractTarget options config cwd)) = .ok files)
    (hfile : fs.node? (l ++ names ++ [name]) = some (.file stamp bytes))
    (hinclude : ∃ text ∈ (extractTarget options config cwd).includes, ∃ pattern,
      Glob.Pattern.ofString? text = .ok pattern ∧ pattern.accepts name.text = true) :
    let root := walkedRoot fs (extractTarget options config cwd)
    let file := root.joinNames (names ++ [name])
    (file ∉ files ↔ ∃ e ∈ excludedPaths options config root cwd, fs.Denotes e (l ++ names) ∧
      (fs.Told e ∧ (root.joinNames names).spellsLike (Location.toPath (l ++ names)) = true ∨
        ¬ fs.Told e ∧ (root.joinNames names).spellsLike e = true)) ∧
    (fs.Told options.root →
      (∀ e ∈ excludedPaths options config root cwd, fs.Denotes e (l ++ names) → fs.Told e) →
      root = l.toPath ∧ (file ∉ files ↔
        ∃ e ∈ excludedPaths options config options.root cwd, fs.Denotes e (l ++ names))) := by
  intro root file
  have hskipped : file ∉ files ↔ ∃ e ∈ excludedPaths options config root cwd,
      fs.Denotes e (l ++ names) ∧
        (fs.Told e ∧ (root.joinNames names).spellsLike (Location.toPath (l ++ names)) = true ∨
          ¬ fs.Told e ∧ (root.joinNames names).spellsLike e = true) := by
    rw [← map_join_excludes hcwd]
    simp only [List.mem_map, exists_exists_and_eq_and]
    exact not_mem_collectFiles_iff hroot hcollect hfile hinclude
  refine ⟨hskipped, fun htold hall => ?_⟩
  obtain ⟨m, hm⟩ := htold
  -- where the root has a canonical form, the walk spells every directory canonically
  have hrootEq : root = l.toPath := by
    rw [← location_eq_of_denotes hroot hm]
    exact (walkedRoot_eq ..).trans (normalized_of_told hm)
  have hwalked : fs.Denotes root l := by
    rw [hrootEq]
    exact denotes_toPath hroot.node?
  have hspelled : (root.joinNames names).spellsLike (Location.toPath (l ++ names)) = true := by
    rw [hrootEq, Location.joinNames_toPath]
    exact Location.toPath_spellsLike_iff.mpr rfl
  refine ⟨hrootEq, ?_⟩
  rw [hskipped, ← exists_excludedPaths_congr hwalked hroot]
  refine exists_congr fun e => and_congr_right fun he => ⟨And.left, fun hdenotes => ?_⟩
  exact ⟨hdenotes, .inl ⟨hall e he hdenotes, hspelled⟩⟩

/-- The branched site with a link to its directory of old files. -/
def aliasedSite : FileSystem :=
  withNode branchedSite [⟨"alias", by decide⟩] (.link ⟨"site/Main/../old"⟩)

/-- The settings of an extraction that excludes the old files by that link. -/
def aliasOptions : ExtractOptions where
  function := "t"
  root := ⟨"site/."⟩
  language := "fr"
  excludes := [⟨"alias/"⟩]
  includes := []
  verbose := false

/-- An exclude of the command line that is a link with a slash behind it leaves the files of the
directory out to which the link leads. -/
theorem skips_old_part_of_aliasedSite :
    aliasedSite.answer (collectFiles (extractTarget aliasOptions {} ⟨"/"⟩)) =
        .ok [⟨"/site/Main/Part.cs"⟩, ⟨"/site/Main.cs"⟩, ⟨"/site/Other.cs"⟩] ∧
      aliasedSite.Denotes ⟨"/alias/"⟩ (siteLocation ++ [⟨"old", by decide⟩]) ∧
      (⟨"/site/old/Part.cs"⟩ : Path) ∉
        ([⟨"/site/Main/Part.cs"⟩, ⟨"/site/Main.cs"⟩, ⟨"/site/Other.cs"⟩] : List Path) := by
  have hcollect : aliasedSite.answer (collectFiles (extractTarget aliasOptions {} ⟨"/"⟩)) =
      .ok [⟨"/site/Main/Part.cs"⟩, ⟨"/site/Main.cs"⟩, ⟨"/site/Other.cs"⟩] := by decide +kernel
  have halias : aliasedSite.canonicalLocation ⟨"/alias/"⟩ =
      .ok (siteLocation ++ [⟨"old", by decide⟩]) := by decide +kernel
  have hroot : aliasedSite.canonicalLocation ⟨"site/."⟩ = .ok siteLocation := by decide +kernel
  have hdenotes := denotes_of_told halias (by decide +kernel)
  have hskips := skips_iff_denoted
    (show aliasedSite.workingPath = .ok ⟨"/"⟩ by decide +kernel)
    (show aliasedSite.Denotes aliasOptions.root siteLocation from
      denotes_of_told hroot (by decide +kernel))
    hcollect
    (show aliasedSite.node? (siteLocation ++ [⟨"old", by decide⟩] ++ [⟨"Part.cs", by decide⟩]) =
      some (.file 3 ByteArray.empty) by decide +kernel)
    ⟨"*.cs", by decide +kernel, ⟨"*.cs", [.anyRun, .char '.', .char 'c', .char 's']⟩,
      by decide +kernel, by decide +kernel⟩
  have hexcluded : ∀ root : Path, excludedPaths aliasOptions {} root ⟨"/"⟩ = [⟨"/alias/"⟩] :=
    fun _ => congrArg (fun dir => [dir])
      (show (⟨"/"⟩ : Path).join ⟨"alias/"⟩ = ⟨"/alias/"⟩ by decide +kernel)
  obtain ⟨hrootEq, hiff⟩ := hskips.2 ⟨_, hroot⟩ fun e he _ => by
    rw [hexcluded, List.mem_singleton] at he
    exact ⟨_, he ▸ halias⟩
  refine ⟨hcollect, hdenotes, ?_⟩
  rw [show (⟨"/site/old/Part.cs"⟩ : Path) = (Location.toPath siteLocation).joinNames
    ([⟨"old", by decide⟩] ++ [⟨"Part.cs", by decide⟩]) by decide +kernel, ← hrootEq, hiff,
    hexcluded]
  exact ⟨_, List.mem_singleton_self _, hdenotes⟩

/-! ### A directory that cannot be told -/

/-- The settings of an extraction from the far link that excludes a directory there. -/
def farOptions : ExtractOptions where
  function := "t"
  root := ⟨"far"⟩
  language := "fr"
  excludes := [⟨"far/Generated"⟩]
  includes := []
  verbose := false

private theorem excludedPaths_farOptions (root : Path) :
    excludedPaths farOptions {} root ⟨"/"⟩ = [⟨"/far/Generated"⟩] :=
  congrArg (fun dir => [dir])
    (show (⟨"/"⟩ : Path).join ⟨"far/Generated"⟩ = ⟨"/far/Generated"⟩ by decide)

section FarSite

variable {name : Name} {n : Nat}

/-- A root that cannot be told keeps its spelling. -/
private theorem walkedRoot_farSite (hnear : name ≠ near) (hfar : name ≠ far)
    (hlong : maxPathBytes < (n + n) * (name.text.toList.length + 1)) :
    walkedRoot (farSite name n) (extractTarget farOptions {} ⟨"/"⟩) = ⟨"far"⟩ :=
  (walkedRoot_eq ..).trans (normalized_of_not_told (not_told_farSite hnear hfar hlong))

private theorem exists_collected_farSite (hnear : name ≠ near) (hfar : name ≠ far)
    (hlong : maxPathBytes < (n + n) * (name.text.toList.length + 1))
    (hname : name.text.utf8ByteSize ≤ maxNameBytes) :
    ∃ files, (farSite name n).answer
      (collectFiles (extractTarget farOptions {} ⟨"/"⟩)) = .ok files := by
  obtain ⟨walked, hwalked⟩ := exists_walked_farSite (n := n) hnear hfar hname
  rw [← walkedRoot_farSite hnear hfar hlong] at hwalked
  cases hpatterns : compileIncludes (extractTarget farOptions {} ⟨"/"⟩).includes with
  | error fault =>
      have hok : (compileIncludes (extractTarget farOptions {} ⟨"/"⟩).includes).isOk = true := by
        decide +kernel
      rw [hpatterns] at hok
      cases hok
  | ok patterns => exact ⟨_, by rw [answer, run_collectFiles_of_walked hpatterns hwalked]⟩

end FarSite

/-- **An exclude that denotes the directory of a file does not leave the file out if the absolute
paths of both are too long to be told.** -/
theorem keeps_file_of_denoted_directory :
    (farSite longName 10).workingPath = .ok ⟨"/"⟩ ∧
    (farSite longName 10).Denotes farOptions.root (deepLocation longName 10) ∧
    (farSite longName 10).node? (deepLocation longName 10 ++ [generated] ++ [skipped]) =
      some (.file 0 ByteArray.empty) ∧
    (∃ e ∈ excludedPaths farOptions {} farOptions.root ⟨"/"⟩,
      (farSite longName 10).Denotes e (deepLocation longName 10 ++ [generated])) ∧
    ∃ files, (farSite longName 10).answer
        (collectFiles (extractTarget farOptions {} ⟨"/"⟩)) = .ok files ∧
      (⟨"far/Generated/Skip.cs"⟩ : Path) ∈ files := by
  have hnear : longName ≠ near := longName_ne near (by decide)
  have hfar : longName ≠ far := longName_ne far (by decide)
  have hlong : maxPathBytes < (10 + 10) * (longName.text.toList.length + 1) := by
    rw [length_longName, maxPathBytes]
    omega
  have hbytes : longName.text.utf8ByteSize ≤ maxNameBytes := by
    rw [utf8ByteSize_longName]
    decide
  have hcwd : (farSite longName 10).workingPath = .ok ⟨"/"⟩ := by
    rw [workingPath, workingDirectory_farSite]
    rfl
  have hroot := denotes_farSite (n := 10) hnear hfar
  have hdirectory := denotes_farSite_generated (n := 10) hnear hfar
  have hfile : (farSite longName 10).node? (deepLocation longName 10 ++ [generated] ++ [skipped]) =
      some (.file 0 ByteArray.empty) := by
    rw [node?_farSite hnear hfar, if_pos rfl]
  obtain ⟨files, hfiles⟩ := exists_collected_farSite hnear hfar hlong hbytes
  refine ⟨hcwd, hroot, hfile,
    ⟨_, by rw [excludedPaths_farOptions]; exact List.mem_singleton_self _, hdirectory⟩,
    files, hfiles, Decidable.byContradiction fun hmissing => ?_⟩
  have hskipped := not_mem_collectFiles_iff hroot hfiles hfile
    ⟨"*.cs", by decide +kernel, ⟨"*.cs", [.anyRun, .char '.', .char 'c', .char 's']⟩,
      by decide +kernel, by decide +kernel⟩
  rw [walkedRoot_farSite hnear hfar hlong,
    show (⟨"far"⟩ : Path).joinNames ([generated] ++ [skipped]) = ⟨"far/Generated/Skip.cs"⟩ by
      decide] at hskipped
  obtain ⟨e, he, -, hspelled⟩ := hskipped.mp hmissing
  have hjoined : (⟨"far"⟩ : Path).join e = ⟨"/far/Generated"⟩ := by
    have hmem := List.mem_map_of_mem (f := (⟨"far"⟩ : Path).join) he
    rw [map_join_excludes hcwd, excludedPaths_farOptions] at hmem
    exact List.mem_singleton.mp hmem
  -- the exclude cannot be told either, and its spelling is not that of the walk
  rw [hjoined] at hspelled
  rcases hspelled with ⟨htold, -⟩ | ⟨-, hspelled⟩
  · exact not_told_farSite_generated hnear hfar hlong htold
  · exact absurd hspelled (by decide)

end MessageCatalog.CommandLine
