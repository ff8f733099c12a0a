import MessageCatalog.Config.Discovery
import MessageCatalog.Proofs.FileSystem.Lookup
import Mathlib.Data.List.Induction

/-!
# Which configuration is found

Loading looks only at the configuration file that is found (`outcome_load`), and the file is found
by a look into one directory after the other: the first one that holds a configuration or a boundary
ends the search (`nearest?`).

Those directories are the ones to which the path and its textual parents lead (`directoriesAlong`).
They need not be the directory of the path and those above it.  A relative path is given up at the
working directory, `..` comes by a directory that was left again, and behind a link the parent of
the path is not the directory above.  So a directory has the configuration that its place in the
tree gives it exactly if both chains have the same nearest one (`loads_nearest_iff`).
-/

namespace MessageCatalog.Config

open FileSystem

variable {fs : FileSystem} {start p : Path} {d : Directory}

/-! ### Looking and loading -/

/-- The configuration file that is found along some directories. -/
def foundAlong (fs : FileSystem) : List Path → Option Path
  | [] => none
  | dir :: others =>
    if (fs.kindAt? (dir.join fileName)).isSome then some (dir.join fileName)
    else if (fs.kindAt? (dir.join boundaryName)).isSome then none
    else foundAlong fs others

/-- The configuration in the bytes of a file. -/
def configFrom (path : Path) (bytes : Except AccessFault ByteArray) : Except LoadFailure Config :=
  match bytes.bind decode with
  | .error cause => .error (.unreadable path cause)
  | .ok text =>
    match ofString? text with
    | .error cause => .error (.malformed path cause)
    | .ok config =>
      match config.fault? with
      | some fault => .error (.invalid fault)
      | none => .ok config

theorem findAlong_eq (fs : FileSystem) (dirs : List Path) :
    (findAlong dirs : StateM FileSystem (Option Path)) fs = (foundAlong fs dirs, fs) := by
  have hexists : ∀ p, (FileAccess.pathExists p : StateM FileSystem Bool) fs =
      ((fs.kindAt? p).isSome, fs) := fun _ => rfl
  induction dirs with
  | nil => rfl
  | cons dir others ih =>
      unfold findAlong foundAlong
      rw [bind_apply, hexists]
      dsimp only
      split
      · rfl
      · rw [bind_apply, hexists]
        dsimp only
        split
        · rfl
        · exact ih

/-- The configuration file that counts for a directory. -/
def found (fs : FileSystem) (start : Path) : Option Path :=
  ((find start : StateM FileSystem (Option Path)) fs).1

theorem found_eq (fs : FileSystem) (start : Path) :
    found fs start = foundAlong fs start.ancestors := by
  rw [found, find, findAlong_eq]

private theorem outcome_loadFile (fs : FileSystem) (path : Path) :
    fs.outcome (loadFile path) = (configFrom path (fs.bytesAt path), fs) := by
  unfold outcome loadFile ExceptT.run ExceptT.mk StateT.run
  rw [bind_apply, readText_eq, textAt, configFrom]
  dsimp only
  cases (fs.bytesAt path).bind decode with
  | error cause => rfl
  | ok text =>
      dsimp only
      cases ofString? text with
      | error cause => rfl
      | ok config =>
          dsimp only
          cases config.fault? <;> rfl

/-- **Loading only looks, and only at the file that is found.** -/
theorem outcome_load (fs : FileSystem) (start : Path) :
    fs.outcome (load start) =
      (match found fs start with
        | none => .ok ⟨{}, none⟩
        | some path => (configFrom path (fs.bytesAt path)).map fun config => ⟨config, some path⟩,
        fs) := by
  have hfind : fs.outcome (liftM (find start : StateM FileSystem (Option Path)) :
      ExceptT LoadFailure (StateM FileSystem) (Option Path)) = (.ok (found fs start), fs) := by
    have hsame : ((find start : StateM FileSystem (Option Path)) fs).2 = fs := by
      rw [find, findAlong_eq]
    exact Prod.ext rfl hsame
  unfold load
  rw [outcome_bind_of_ok hfind]
  cases found fs start with
  | none => rfl
  | some path =>
      dsimp only
      rw [outcome_bind, outcome_loadFile]
      cases configFrom path (fs.bytesAt path) <;> rfl

/-! ### The directories along a path -/

/-- The name of configuration files. -/
def configName : Name :=
  ⟨".xtextrc.json", by decide⟩

/-- The name of what marks the outermost directory of a project. -/
def projectName : Name :=
  ⟨".git", by decide⟩

private theorem fileName_eq : fileName = ⟨configName.text⟩ := rfl

private theorem boundaryName_eq : boundaryName = ⟨projectName.text⟩ := rfl

/-- The directories to which a path, its parent and so on lead. -/
def directoriesAlong (fs : FileSystem) (start : Path) : List Directory :=
  start.ancestors.filterMap fs.directoryOf?

/-- The search does not go on behind a directory. -/
def endsSearch (fs : FileSystem) (d : Directory) : Bool :=
  fs.holds d configName || fs.holds d projectName

/-- The first of some directories with a configuration, unless a boundary comes first. -/
def nearest? (fs : FileSystem) (dirs : List Directory) : Option Directory :=
  (dirs.find? (endsSearch fs)).filter (fs.holds · configName)

/-- No look-up of the search meets a limit on paths. -/
def InReach (fs : FileSystem) (start : Path) : Prop :=
  ∀ p ∈ start.ancestors, ∀ name ∈ [configName, projectName], fs.NameInReach p name

private theorem exists_directoryOf?_of_mem_ancestors (h : fs.directoryOf? start = some d) :
    ∀ p ∈ start.ancestors, ∃ d', fs.directoryOf? p = some d' := by
  induction start using Path.ancestors.induct generalizing d with
  | case1 start ih =>
      rw [Path.ancestors_eq]
      intro p hp
      rcases List.mem_cons.mp hp with rfl | hp
      · exact ⟨d, h⟩
      · split at hp
        · cases hp
        · rename_i q hq
          obtain ⟨d', hd'⟩ := exists_directoryOf?_parent hq h
          exact ih q hq hd' p hp

theorem nearest?_cons (d : Directory) (dirs : List Directory) :
    nearest? fs (d :: dirs) =
      if fs.holds d configName then some d
      else if fs.holds d projectName then none
      else nearest? fs dirs := by
  unfold nearest?
  rw [List.find?_cons, endsSearch]
  cases hconfig : fs.holds d configName with
  | true => simp [hconfig]
  | false => cases fs.holds d projectName <;> simp [hconfig]

private theorem isSome_kindAt?_join {name : Name} (hp : fs.directoryOf? p = some d)
    (h : fs.NameInReach p name) : (fs.kindAt? (p.join ⟨name.text⟩)).isSome = fs.holds d name := by
  rw [kindAt?_eq_kindIn?, resolve_join_name hp h, holds]

/-- **The search finds the configuration of the nearest of the directories along its paths.** -/
theorem foundAlong_cases {dirs : List Path}
    (hdirs : ∀ p ∈ dirs, (∃ d, fs.directoryOf? p = some d) ∧
      ∀ name ∈ [configName, projectName], fs.NameInReach p name) :
    (nearest? fs (dirs.filterMap fs.directoryOf?) = none ∧ foundAlong fs dirs = none) ∨
      ∃ d p, nearest? fs (dirs.filterMap fs.directoryOf?) = some d ∧
        foundAlong fs dirs = some (p.join ⟨configName.text⟩) ∧ fs.directoryOf? p = some d ∧
        fs.NameInReach p configName ∧ fs.holds d configName = true := by
  induction dirs with
  | nil => exact .inl ⟨rfl, rfl⟩
  | cons p dirs ih =>
      obtain ⟨⟨⟨d, hd⟩, hreach⟩, hdirs⟩ := List.forall_mem_cons.mp hdirs
      have hconfig : fs.NameInReach p configName := hreach _ (by simp)
      have hproject : fs.NameInReach p projectName := hreach _ (by simp)
      rw [List.filterMap_cons_some hd, nearest?_cons, foundAlong, fileName_eq, boundaryName_eq,
        isSome_kindAt?_join hd hconfig, isSome_kindAt?_join hd hproject]
      -- a configuration ends the search here, or a boundary does, or the other paths are tried
      cases hholds : fs.holds d configName with
      | true => exact .inr ⟨d, p, rfl, rfl, hd, hconfig, hholds⟩
      | false =>
          cases fs.holds d projectName with
          | true => exact .inl ⟨rfl, rfl⟩
          | false => exact ih hdirs

/-! ### The configuration of a directory -/

/-- Loading gives the configuration of one of the directories, or the default one.  The path of the
file may be spelled in any way, and its content is what the directory holds. -/
def LoadsFrom (fs : FileSystem) (start : Path) : Option Directory → Prop
  | none => found fs start = none ∧ fs.outcome (load start) = (.ok ⟨{}, none⟩, fs)
  | some d => ∃ path, found fs start = some path ∧
      fs.resolveEntry path = .ok (some (d.location ++ [configName])) ∧
      fs.holds d configName = true ∧ fs.outcome (load start) =
        ((configFrom path (bytesIn (fs.lookupName d configName))).map fun config =>
          ⟨config, some path⟩, fs)

/-- **Loading gives the configuration of the nearest of the directories along the path.** -/
theorem loadsFrom_nearest? (hstart : fs.directoryOf? start = some d) (hreach : InReach fs start) :
    LoadsFrom fs start (nearest? fs (directoriesAlong fs start)) := by
  have hdirs : ∀ p ∈ start.ancestors, (∃ d, fs.directoryOf? p = some d) ∧
      ∀ name ∈ [configName, projectName], fs.NameInReach p name :=
    fun p hp => ⟨exists_directoryOf?_of_mem_ancestors hstart p hp, hreach p hp⟩
  have hload := outcome_load fs start
  rcases foundAlong_cases hdirs with
    ⟨hnearest, hfound⟩ | ⟨d, p, hnearest, hfound, hd, hname, hholds⟩ <;>
    rw [← found_eq] at hfound
  · rw [directoriesAlong, hnearest]
    rw [hfound] at hload
    exact ⟨hfound, hload⟩
  · rw [directoriesAlong, hnearest]
    rw [hfound] at hload
    obtain ⟨place, hplace⟩ := exists_lookupName_of_holds hholds
    dsimp only at hload
    rw [bytesAt_eq_bytesIn, resolve_join_name hd hname] at hload
    exact ⟨_, hfound, resolveEntry_join_name hd hname hplace, hholds, hload⟩

/-- The directory whose configuration is loaded is told by the path of the file. -/
theorem LoadsFrom.unique {found found' : Option Directory} (h : LoadsFrom fs start found)
    (h' : LoadsFrom fs start found') : found = found' := by
  cases found with
  | none =>
      cases found' with
      | none => rfl
      | some d =>
          obtain ⟨path, hfound, -⟩ := h'
          cases h.1.symm.trans hfound
  | some d =>
      obtain ⟨path, hfound, hentry, hholds, -⟩ := h
      cases found' with
      | none => cases h'.1.symm.trans hfound
      | some d' =>
          obtain ⟨path', hfound', hentry', hholds', -⟩ := h'
          cases hfound.symm.trans hfound'
          -- the path of the file ends in one entry, and the entry lies in one directory
          have hsame : d.location ++ [configName] = d'.location ++ [configName] := by
            simpa using hentry.symm.trans hentry'
          rw [eq_standing_of_holds hholds, eq_standing_of_holds hholds',
            List.append_cancel_right hsame]

/-! ### Directories above others -/

/-- The directories from one below another up to the other one. -/
def upTo (base : Location) (names : List Name) : List Directory :=
  names.reverse.tails.map fun back => .standing (base ++ back.reverse)

/-- A directory and those above it. -/
def upwards (l : Location) : List Directory :=
  upTo [] l

variable {base l : Location} {names : List Name}

theorem upTo_nil (base : Location) : upTo base [] = [.standing base] := by
  simp [upTo]

theorem upTo_concat (base : Location) (names : List Name) (name : Name) :
    upTo base (names ++ [name]) = .standing (base ++ (names ++ [name])) :: upTo base names := by
  simp [upTo]

theorem upwards_append (base : Location) (names : List Name) :
    upwards (base ++ names) = upTo base names ++ (upwards base).tail := by
  have hbase : upwards base = .standing base :: (upwards base).tail := by
    rcases List.eq_nil_or_concat base with rfl | ⟨front, last, rfl⟩
    · rfl
    · rw [upwards, List.concat_eq_append, upTo_concat]
      rfl
  induction names using List.reverseRecOn with
  | nil => rw [List.append_nil, upTo_nil, List.singleton_append, ← hbase]
  | append_singleton names name ih =>
      rw [upTo_concat, List.cons_append, ← ih, ← List.append_assoc, upwards, upTo_concat]
      rfl

theorem nearest?_append (first second : List Directory) :
    nearest? fs (first ++ second) =
      if first.any (endsSearch fs) then nearest? fs first else nearest? fs second := by
  unfold nearest?
  rw [List.find?_append]
  cases hfound : first.find? (endsSearch fs) with
  | none =>
      rw [if_neg (by simpa using List.find?_eq_none.mp hfound), Option.none_or]
  | some d =>
      rw [if_pos (List.any_eq_true.mpr
        ⟨d, List.mem_of_find?_eq_some hfound, List.find?_some hfound⟩), Option.some_or]

/-! ### Paths that lead down -/

theorem directoriesAlong_eq (hstart : fs.directoryOf? start = some d) :
    directoriesAlong fs start = d :: match start.parent? with
      | none => []
      | some q => directoriesAlong fs q := by
  rw [directoriesAlong, Path.ancestors_eq, List.filterMap_cons_some hstart]
  cases start.parent? <;> rfl

/-- Looking into one directory twice finds nothing else. -/
private theorem nearest?_cons_self (d : Directory) (dirs : List Directory) :
    nearest? fs (d :: d :: dirs) = nearest? fs (d :: dirs) := by
  rw [nearest?_cons, nearest?_cons]
  split
  · rfl
  · split <;> rfl

/-- **Along a path of names the search goes up from the directory to the one where the path
starts.** -/
theorem nearest?_directoriesAlong (hbase : fs.start start = .standing base)
    (hmoves : start.moves = names.map .into)
    (hstart : fs.directoryOf? start = some (.standing (base ++ names))) :
    nearest? fs (directoriesAlong fs start) = nearest? fs (upTo base names) := by
  induction start using Path.ancestors.induct generalizing names with
  | case1 start ih =>
      obtain ⟨k, hk, hleads⟩ := leadsTo_of_directoryOf? hbase hstart
      obtain rfl : base ++ names = k := congrArg Directory.location hk
      rw [directoriesAlong_eq hstart]
      cases hparent : start.parent? with
      | none =>
          have hnil : names.map Step.into = [] :=
            hmoves.symm.trans (Path.moves_of_parent?_eq_none hparent)
          rw [List.map_eq_nil_iff.mp hnil, upTo_nil, List.append_nil]
      | some q =>
          have hbase' : fs.start q = .standing base := (start_of_parent? hparent).trans hbase
          obtain ⟨d, hq⟩ := exists_directoryOf?_parent hparent hstart
          obtain ⟨m, rfl, hleads'⟩ := leadsTo_of_directoryOf? hbase' hq
          rcases (Path.moves_of_parent? hparent).2 with hsame | ⟨step, hlast⟩
          · rw [← hsame] at hleads'
            obtain rfl := hleads.unique hleads'
            dsimp only
            rw [directoriesAlong_eq hq, nearest?_cons_self, ← directoriesAlong_eq hq]
            exact ih q hparent hbase' (hsame.symm.trans hmoves) hq
          · obtain ⟨front, name, rfl⟩ : ∃ front name, names = front ++ [name] := by
              rcases List.eq_nil_or_concat names with rfl | ⟨front, name, rfl⟩
              · exact absurd (hlast.symm.trans hmoves) (by simp)
              · exact ⟨front, name, List.concat_eq_append⟩
            have hfront : q.moves = front.map .into := by
              rw [hmoves, List.map_append] at hlast
              exact (List.append_inj_left' hlast rfl).symm
            -- the directories that the names pass are not reached along links
            have hnode : fs.node? (base ++ front) = some .directory := by
              have hstartNode := fs.node?_start start
              rw [hbase] at hstartNode
              have hthere := hleads.node? hstartNode
              rw [← List.append_assoc] at hthere
              exact directory_of_append hthere
            rw [hfront] at hleads'
            obtain rfl := hleads'.eq_of_names hnode nofun
            rw [upTo_concat, nearest?_cons, nearest?_cons]
            dsimp only
            rw [ih q hparent hbase' hfront hq]

/-! ### The nearest configuration above -/

/-- **When the configuration of a directory is found.**  What is loaded is the configuration of the
nearest of the directories along the path.  It is the one that is nearest above the directory itself
exactly if both chains have the same nearest one.  For a path that leads down by names alone, that
is the case exactly if the search ends at a directory on the way down, or no configuration counts
above the directory where the path starts, as for an absolute path. -/
theorem loads_nearest_iff
    (hstart : fs.resolve .lookup start = .ok (.directory (.standing l)))
    (hreach : InReach fs start) :
    LoadsFrom fs start (nearest? fs (directoriesAlong fs start)) ∧
      (LoadsFrom fs start (nearest? fs (upwards l)) ↔
        nearest? fs (directoriesAlong fs start) = nearest? fs (upwards l)) ∧
      ∀ base names, fs.start start = .standing base → start.moves = names.map .into →
        l = base ++ names →
          (LoadsFrom fs start (nearest? fs (upwards l)) ↔
            (upTo base names).any (endsSearch fs) = true ∨
              nearest? fs (upwards base).tail = none) := by
  have hdirectory : fs.directoryOf? start = some (.standing l) := by
    rw [directoryOf?, if_neg (pathFault?_eq_none_iff.mp (pathFault?_of_resolve hstart)).2.1,
      directory?_eq_some_iff, hstart]
  have hloads := loadsFrom_nearest? hdirectory hreach
  have hiff : LoadsFrom fs start (nearest? fs (upwards l)) ↔
      nearest? fs (directoriesAlong fs start) = nearest? fs (upwards l) :=
    ⟨hloads.unique, fun heq => heq ▸ hloads⟩
  refine ⟨hloads, hiff, ?_⟩
  -- from the directory up to where the path starts both chains are the same
  rintro base names hbase hmoves rfl
  rw [hiff, nearest?_directoriesAlong hbase hmoves hdirectory, upwards_append, nearest?_append]
  cases hany : (upTo base names).any (endsSearch fs) with
  | true => simp
  | false =>
      have hnone : nearest? fs (upTo base names) = none := by
        rw [nearest?, List.find?_eq_none.mpr (by simpa using hany)]
        rfl
      simp [hnone, eq_comm]

/-! ### Three paths of one directory -/

/-- The directory of a project. -/
def projectLocation : Location :=
  [⟨"project", by decide⟩]

/-- The directory of the sources of the project. -/
def sourceLocation : Location :=
  projectLocation ++ [⟨"src", by decide⟩]

/-- The directory of retired sources. -/
def retiredLocation : Location :=
  sourceLocation ++ [⟨"retired", by decide⟩]

/-- A project with a configuration, and with another one for its retired sources.  The working
directory is that of the sources. -/
def project : FileSystem :=
  let built : Except AccessFault FileSystem := do
    let fs ← FileSystem.empty.store projectLocation .directory
    let fs ← fs.store sourceLocation .directory
    let fs ← fs.store retiredLocation .directory
    let fs ← fs.store (projectLocation ++ [configName])
      (.file 0 "\x7b\"catalogDir\": \"locale\"\x7d".toUTF8)
    let fs ← fs.store (retiredLocation ++ [configName])
      (.file 1 "\x7b\"catalogDir\": \"retired\"\x7d".toUTF8)
    fs.changeDirectory sourceLocation.toPath
  built.toOption.getD .empty

/-- The absolute path of the sources has the configuration of the project. -/
theorem loads_nearest_above_source :
    project.resolve .lookup ⟨"/project/src"⟩ = .ok (.directory (.standing sourceLocation)) ∧
      InReach project ⟨"/project/src"⟩ ∧
      LoadsFrom project ⟨"/project/src"⟩ (some (.standing projectLocation)) := by
  have hstart : project.resolve .lookup ⟨"/project/src"⟩ =
      .ok (.directory (.standing sourceLocation)) :=
    directory?_eq_some_iff.mp (by decide +kernel)
  have hreach : InReach project ⟨"/project/src"⟩ := by
    have hok : ∀ p ∈ (⟨"/project/src"⟩ : Path).ancestors, ∀ name ∈ [configName, projectName],
        (project.resolve .lookup (p.join ⟨name.text⟩)).isOk = true := by decide +kernel
    exact fun p hp name hname => .of_isOk (hok p hp name hname)
  have hnearest : nearest? project (upwards sourceLocation) = some (.standing projectLocation) := by
    decide +kernel
  refine ⟨hstart, hreach, ?_⟩
  have hloads := (loads_nearest_iff hstart hreach).2.2 [] sourceLocation (by decide +kernel)
    (by decide +kernel) rfl
  rw [hnearest] at hloads
  exact hloads.mpr (.inr rfl)

/-- **Three paths of one directory load three configurations**: that of the project above it, the
default one and that of a directory below it. -/
theorem load_depends_on_spelling :
    nearest? project (upwards sourceLocation) = some (.standing projectLocation) ∧
      (project.resolve .lookup ⟨"/project/src"⟩ = .ok (.directory (.standing sourceLocation)) ∧
        (project.outcome (load ⟨"/project/src"⟩)).1 =
          .ok ⟨{ catalogDir := "locale" }, some ⟨"/project/.xtextrc.json"⟩⟩) ∧
      (project.resolve .lookup ⟨"."⟩ = .ok (.directory (.standing sourceLocation)) ∧
        (project.outcome (load ⟨"."⟩)).1 = .ok ⟨{}, none⟩ ∧
        ¬ LoadsFrom project ⟨"."⟩ (nearest? project (upwards sourceLocation))) ∧
      project.resolve .lookup ⟨"retired/.."⟩ = .ok (.directory (.standing sourceLocation)) ∧
        (project.outcome (load ⟨"retired/.."⟩)).1 =
          .ok ⟨{ catalogDir := "retired" }, some ⟨"retired/.xtextrc.json"⟩⟩ ∧
        ¬ LoadsFrom project ⟨"retired/.."⟩ (nearest? project (upwards sourceLocation)) := by
  have hnearest : nearest? project (upwards sourceLocation) = some (.standing projectLocation) := by
    decide +kernel
  have hdot : found project ⟨"."⟩ = none := by decide +kernel
  have hretired : found project ⟨"retired/.."⟩ = some ⟨"retired/.xtextrc.json"⟩ := by
    decide +kernel
  have hentry : project.resolveEntry ⟨"retired/.xtextrc.json"⟩ =
      .ok (some (retiredLocation ++ [configName])) := by decide +kernel
  rw [hnearest]
  refine ⟨rfl, ⟨directory?_eq_some_iff.mp (by decide +kernel), by decide +kernel⟩,
    ⟨directory?_eq_some_iff.mp (by decide +kernel), by decide +kernel, ?_⟩,
    directory?_eq_some_iff.mp (by decide +kernel), by decide +kernel, ?_⟩
  · rintro ⟨path, hfound, -⟩
    cases hdot.symm.trans hfound
  · rintro ⟨path, hfound, hentry', -⟩
    cases hretired.symm.trans hfound
    exact absurd (hentry.symm.trans hentry') (by decide)

end MessageCatalog.Config
