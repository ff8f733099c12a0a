import MessageCatalog.Proofs.FileSystem.Parent

/-!
# Looking up names in directories

A name that is joined to a path is looked up in the directory to which the path leads.  What it
leads to depends on that directory alone (`resolve_join_name`), unless the path is too long, or the
links on the way to the directory leave too few for the name.

What is left of the allowed links makes no other difference: a walk that does not run out of them
ends alike with more (`followSteps_of_le`).
-/

namespace MessageCatalog

namespace FileSystem

variable {fs : FileSystem} {p : Path} {d : Directory} {name : Name} {links links' : Nat}
  {steps : List Step}

/-! ### More links to follow -/

private theorem takeSteps_of_not_tooManyLinks
    {onLink onLink' : Location → Path → List Step → Except AccessFault Place}
    (honLink : ∀ l target steps, onLink l target steps ≠ .error .tooManyLinks →
      onLink' l target steps = onLink l target steps)
    (h : fs.takeSteps .lookup onLink d steps ≠ .error .tooManyLinks) :
    fs.takeSteps .lookup onLink' d steps = fs.takeSteps .lookup onLink d steps := by
  -- both walks take the same steps, until a link hands them over to the walks along links
  induction steps generalizing d with
  | nil => rfl
  | cons step steps ih =>
      cases step with
      | here => exact ih h
      | asDirectory => exact ih h
      | up => exact ih h
      | into name =>
          simp only [takeSteps] at h ⊢
          cases hname : Purpose.lookup.nameFault? d name steps with
          | some fault => rfl
          | none =>
              rw [hname] at h
              cases hnode : fs.node? (d.location ++ [name]) with
              | none => rfl
              | some node =>
                  simp only [hnode] at h
                  cases node with
                  | directory => exact ih h
                  | file stamp bytes => rfl
                  | link target => exact honLink _ _ _ h

private theorem followSteps_succ_of_not_tooManyLinks
    (h : fs.followSteps .lookup links d steps ≠ .error .tooManyLinks) :
    fs.followSteps .lookup (links + 1) d steps = fs.followSteps .lookup links d steps := by
  induction links generalizing d steps with
  | zero => exact takeSteps_of_not_tooManyLinks (fun _ _ _ hlink => absurd rfl hlink) h
  | succ links ih => exact takeSteps_of_not_tooManyLinks (fun _ _ _ hlink => ih hlink) h

/-- **A walk that does not run out of links ends alike if it may follow more.** -/
theorem followSteps_of_le (hle : links ≤ links')
    (h : fs.followSteps .lookup links d steps ≠ .error .tooManyLinks) :
    fs.followSteps .lookup links' d steps = fs.followSteps .lookup links d steps := by
  induction links', hle using Nat.le_induction with
  | base => rfl
  | succ links' _ ih =>
      rw [followSteps_succ_of_not_tooManyLinks (by rwa [ih]), ih]

/-! ### The path of a name -/

private theorem namedSteps_name (name : Name) : (⟨name.text⟩ : Path).namedSteps = [.into name] := by
  have hname : Name.ofString? name.text = some name := dif_pos name.valid
  rw [Path.namedSteps_segment name.isSegment, hname]
  rfl

theorem join_name_of_empty (hp : p.text = "") (name : Name) :
    p.join ⟨name.text⟩ = ⟨name.text⟩ := by
  rw [Path.join, if_neg (by rw [name.isSegment.relative]; simp), hp, if_pos (by simp)]
  simp

private theorem exists_toList_join_name (p : Path) (name : Name) :
    ∃ front, (p.join ⟨name.text⟩).text.toList = front ++ name.text.toList := by
  by_cases hp : p.text = ""
  · exact ⟨[], by rw [join_name_of_empty hp]; rfl⟩
  · obtain ⟨front, hjoin, -⟩ := Path.exists_toList_join hp name.isSegment.relative
    exact ⟨front ++ ['/'], by rw [hjoin]; simp⟩

/-- The path of a name does not ask for a directory at its end. -/
private theorem steps_join_name (p : Path) (name : Name) :
    (p.join ⟨name.text⟩).steps = (p.join ⟨name.text⟩).namedSteps := by
  obtain ⟨front, hjoin⟩ := exists_toList_join_name p name
  have hne : name.text.toList ≠ [] := fun hnil =>
    name.isSegment.ne_empty (String.toList_inj.mp (hnil.trans String.toList_empty.symm))
  have hlast : (p.join ⟨name.text⟩).text.toList.getLast? ≠ some '/' := by
    rw [hjoin, List.getLast?_append_of_ne_nil _ hne]
    exact fun hslash => name.isSegment.slash (List.mem_of_getLast? hslash)
  unfold Path.steps Path.namedSteps
  simp [hlast]

/-- The path of a name goes to the directory first and into the name then. -/
theorem exists_front_join_name (hp : fs.directoryOf? p = some d) (name : Name) :
    ∃ front, (p.join ⟨name.text⟩).namedSteps = front ++ [.into name] ∧
      fs.followSteps .lookup maxLinks (fs.start (p.join ⟨name.text⟩)) front =
        .ok (.directory d) := by
  by_cases hempty : p.text = ""
  · rw [directoryOf?, if_pos hempty] at hp
    cases hp
    rw [join_name_of_empty hempty, namedSteps_name]
    refine ⟨[], rfl, ?_⟩
    rw [start, name.isSegment.relative]
    rfl
  · rw [directoryOf?, if_neg hempty, directory?_eq_some_iff] at hp
    refine ⟨p.namedSteps, ?_, ?_⟩
    · rw [Path.namedSteps_join hempty name.isSegment.relative, namedSteps_name]
    · rw [start_join fs hempty name.isSegment.relative]
      exact followSteps_namedSteps_of_resolve hp

private theorem textFault?_join_name (hp : fs.directoryOf? p = some d) (name : Name) :
    textFault? (p.join ⟨name.text⟩) = none := by
  by_cases hempty : p.text = ""
  · rw [join_name_of_empty hempty]
    exact textFault?_eq_none_iff.mpr ⟨name.nul_not_mem, name.isSegment.ne_empty⟩
  · have hnul := (pathFault?_eq_none_iff.mp (pathFault?_of_directoryOf? hempty hp)).1
    exact textFault?_eq_none_iff.mpr
      ⟨(nul_not_mem_join_iff hempty name.isSegment.relative).mpr ⟨hnul, name.nul_not_mem⟩,
        Path.text_join_ne_empty hempty _⟩

/-! ### Names in directories -/

/-- What a name of a directory leads to. -/
def lookupName (fs : FileSystem) (d : Directory) (name : Name) : Except AccessFault Place :=
  fs.followSteps .lookup maxLinks d [.into name]

/-- The kind of what a look-up finds. -/
def kindIn? : Except AccessFault Place → Option FileKind
  | .ok (.directory _) => some .directory
  | .ok (.file ..) => some .regular
  | _ => none

/-- The bytes of the file that a look-up finds. -/
def bytesIn : Except AccessFault Place → Except AccessFault ByteArray
  | .ok (.directory _) => .error .isDirectory
  | .ok (.file _ _ bytes) => .ok bytes
  | .ok (.free _) => .error .notFound
  | .error fault => .error fault

theorem kindAt?_eq_kindIn? (fs : FileSystem) (p : Path) :
    fs.kindAt? p = kindIn? (fs.resolve .lookup p) := rfl

theorem bytesAt_eq_bytesIn (fs : FileSystem) (p : Path) :
    fs.bytesAt p = bytesIn (fs.resolve .lookup p) := rfl

/-- A directory has something of a name, which may be a link that leads somewhere. -/
def holds (fs : FileSystem) (d : Directory) (name : Name) : Bool :=
  (kindIn? (fs.lookupName d name)).isSome

/-- The path of a name is not too long, and there are links enough to follow it. -/
structure NameInReach (fs : FileSystem) (p : Path) (name : Name) : Prop where
  length : fs.resolve .lookup (p.join ⟨name.text⟩) ≠ .error .nameTooLong
  links : fs.resolve .lookup (p.join ⟨name.text⟩) ≠ .error .tooManyLinks

theorem NameInReach.of_isOk (h : (fs.resolve .lookup (p.join ⟨name.text⟩)).isOk = true) :
    fs.NameInReach p name := by
  constructor <;> intro hfault <;> rw [hfault] at h <;> cases h

theorem pathFault?_join_name (hp : fs.directoryOf? p = some d) (h : fs.NameInReach p name) :
    pathFault? (p.join ⟨name.text⟩) = none := by
  rw [pathFault?, textFault?_join_name hp name]
  refine if_neg fun hlong => h.length ?_
  have hfault : pathFault? (p.join ⟨name.text⟩) = some .nameTooLong := by
    rw [pathFault?, textFault?_join_name hp name]
    exact if_pos hlong
  rw [resolve, hfault]

/-- **What a joined name leads to depends on the directory alone to which it is joined.** -/
theorem resolve_join_name (hp : fs.directoryOf? p = some d) (h : fs.NameInReach p name) :
    fs.resolve .lookup (p.join ⟨name.text⟩) = fs.lookupName d name := by
  obtain ⟨front, hsteps, hfront⟩ := exists_front_join_name hp name
  obtain ⟨links, hle, hwalk⟩ := followSteps_append_of_directory hfront
  have hresolve : fs.resolve .lookup (p.join ⟨name.text⟩) =
      fs.followSteps .lookup links d [.into name] := by
    rw [resolve, pathFault?_join_name hp h, steps_join_name, hsteps]
    exact hwalk _
  have hlinks := h.links
  rw [hresolve] at hlinks ⊢
  exact (followSteps_of_le hle hlinks).symm

theorem nameFault?_of_lookupName {place : Place} (h : fs.lookupName d name = .ok place) :
    Purpose.lookup.nameFault? d name [] = none := by
  have hstep : ∃ onLink, fs.takeSteps .lookup onLink d [.into name] = .ok place := ⟨_, h⟩
  obtain ⟨onLink, hstep⟩ := hstep
  exact (takeSteps_into_cases hstep).1

theorem exists_lookupName_of_holds (h : fs.holds d name = true) :
    ∃ place, fs.lookupName d name = .ok place := by
  unfold holds kindIn? at h
  split at h
  · exact ⟨_, ‹_›⟩
  · exact ⟨_, ‹_›⟩
  · cases h

theorem eq_standing_of_holds (h : fs.holds d name = true) : d = .standing d.location := by
  obtain ⟨place, hplace⟩ := exists_lookupName_of_holds h
  have hname := nameFault?_of_lookupName hplace
  refine eq_standing_of_stands (Decidable.byContradiction fun hremoved => ?_)
  rw [Purpose.nameFault?, if_neg (by simp), if_pos hremoved] at hname
  cases hname

/-- **The entry of a joined name is the one of the directory.** -/
theorem resolveEntry_join_name (hp : fs.directoryOf? p = some d) (h : fs.NameInReach p name)
    {place : Place} (hplace : fs.lookupName d name = .ok place) :
    fs.resolveEntry (p.join ⟨name.text⟩) = .ok (some (d.location ++ [name])) := by
  obtain ⟨front, hsteps, hfront⟩ := exists_front_join_name hp name
  obtain ⟨links, -, hwalk⟩ := followSteps_append_of_directory hfront
  have hdirectory : fs.followSteps .lookup maxLinks (fs.start (p.join ⟨name.text⟩))
      (front ++ [.asDirectory]) = .ok (.directory d) :=
    (hwalk _).trans (fs.followSteps_asDirectory ..)
  unfold resolveEntry
  simp only [pathFault?_join_name hp h, Path.filter_steps, hsteps, List.reverse_append,
    List.reverse_singleton, List.singleton_append, List.reverse_reverse, hdirectory,
    nameFault?_of_lookupName hplace]

end FileSystem

end MessageCatalog
