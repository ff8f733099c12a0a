import MessageCatalog.Proofs.FileSystem.Run

/-!
# File systems that grow

A scan creates directories and files and rewrites one file; it removes nothing and
touches no link.  In a file system that has grown (`Grows`) every path that led
somewhere still leads to the same location, whatever stands there now
(`Grows.resolve`).
-/

namespace MessageCatalog

/-- A purpose under which a name is no fault where it is none under another purpose. -/
def Purpose.Admits (purpose purpose' : Purpose) : Prop :=
  ∀ d name steps, purpose.nameFault? d name steps = none → purpose'.nameFault? d name steps = none

theorem Purpose.admits_self (purpose : Purpose) : purpose.Admits purpose :=
  fun _ _ _ h => h

theorem Purpose.admits_lookup (purpose : Purpose) : purpose.Admits .lookup := by
  intro d name steps h
  unfold nameFault? at h ⊢
  split at h
  · cases h
  · split at h
    · cases h
    · split at h
      · cases h
      · rename_i hstands hshort
        rw [if_neg (by simp), if_neg hstands, if_neg hshort, if_neg (by simp)]

namespace FileSystem

variable {fs fs' fs'' : FileSystem}

/-! ### Places -/

/-- What stands at a location, unless it is a link. -/
def placeAt? (fs : FileSystem) (l : Location) : Option Place :=
  match fs.node? l with
  | none => some (.free l)
  | some .directory => some (.directory (.standing l))
  | some (.file stamp bytes) => some (.file l stamp bytes)
  | some (.link _) => none

/-- What stands at a place in another file system. -/
def placeIn? (fs : FileSystem) : Place → Option Place
  | .directory d => some (.directory d)
  | .file l _ _ => fs.placeAt? l
  | .free l => fs.placeAt? l

/-- A walk that gets into a name ends there, goes on below it, or goes on along a link. -/
theorem takeSteps_into_cases {purpose : Purpose}
    {onLink : Location → Path → List Step → Except AccessFault Place} {d : Directory}
    {name : Name} {steps : List Step} {place : Place}
    (h : fs.takeSteps purpose onLink d (.into name :: steps) = .ok place) :
    purpose.nameFault? d name steps = none ∧
      (fs.node? (d.location ++ [name]) = none ∧ steps = [] ∧
          place = .free (d.location ++ [name]) ∨
        (∃ stamp bytes, fs.node? (d.location ++ [name]) = some (.file stamp bytes) ∧ steps = [] ∧
          place = .file (d.location ++ [name]) stamp bytes) ∨
        fs.node? (d.location ++ [name]) = some .directory ∧
          fs.takeSteps purpose onLink (.standing (d.location ++ [name])) steps = .ok place ∨
        ∃ target, fs.node? (d.location ++ [name]) = some (.link target) ∧
          onLink d.location target steps = .ok place) := by
  simp only [takeSteps] at h
  split at h
  · cases h
  · rename_i hname
    refine ⟨hname, ?_⟩
    split at h
    · rename_i hnode
      split at h
      · rename_i hnil
        cases h
        exact .inl ⟨hnode, hnil, rfl⟩
      · cases h
    · rename_i hnode
      exact .inr (.inr (.inl ⟨hnode, h⟩))
    · rename_i hnode
      split at h
      · rename_i hnil
        cases h
        exact .inr (.inl ⟨_, _, hnode, hnil, rfl⟩)
      · cases h
    · rename_i hnode
      exact .inr (.inr (.inr ⟨_, hnode, h⟩))

theorem takeSteps_into_directory {purpose : Purpose} {d : Directory} {name : Name}
    {steps : List Step} (hname : purpose.nameFault? d name steps = none)
    (hnode : fs.node? (d.location ++ [name]) = some .directory)
    (onLink : Location → Path → List Step → Except AccessFault Place) :
    fs.takeSteps purpose onLink d (.into name :: steps) =
      fs.takeSteps purpose onLink (.standing (d.location ++ [name])) steps := by
  simp only [takeSteps, hname, hnode]

theorem takeSteps_into_link {purpose : Purpose} {d : Directory} {name : Name} {target : Path}
    {steps : List Step} (hname : purpose.nameFault? d name steps = none)
    (hnode : fs.node? (d.location ++ [name]) = some (.link target))
    (onLink : Location → Path → List Step → Except AccessFault Place) :
    fs.takeSteps purpose onLink d (.into name :: steps) = onLink d.location target steps := by
  simp only [takeSteps, hname, hnode]

private theorem placeIn?_of_takeSteps {purpose : Purpose}
    {onLink : Location → Path → List Step → Except AccessFault Place} {place : Place}
    (honLink : ∀ l target steps, onLink l target steps = .ok place →
      fs.placeIn? place = some place)
    {d : Directory} {steps : List Step} (h : fs.takeSteps purpose onLink d steps = .ok place) :
    fs.placeIn? place = some place := by
  induction steps generalizing d with
  | nil =>
      cases h
      rfl
  | cons step steps ih =>
      cases step with
      | here => exact ih h
      | asDirectory => exact ih h
      | up => exact ih h
      | into name =>
          obtain ⟨-, ⟨hnode, -, rfl⟩ | ⟨stamp, bytes, hnode, -, rfl⟩ | ⟨-, h⟩ | ⟨target, -, h⟩⟩ :=
            takeSteps_into_cases h
          · simp [placeIn?, placeAt?, hnode]
          · simp [placeIn?, placeAt?, hnode]
          · exact ih h
          · exact honLink _ _ _ h

theorem placeIn?_of_followSteps {purpose : Purpose} {place : Place} {links : Nat} {d : Directory}
    {steps : List Step} (h : fs.followSteps purpose links d steps = .ok place) :
    fs.placeIn? place = some place := by
  induction links generalizing d steps with
  | zero => exact placeIn?_of_takeSteps (fun _ _ _ hlink => by cases hlink) h
  | succ links ih => exact placeIn?_of_takeSteps (fun _ _ _ hlink => ih hlink) h

theorem placeIn?_of_resolve {purpose : Purpose} {p : Path} {place : Place}
    (h : fs.resolve purpose p = .ok place) : fs.placeIn? place = some place := by
  unfold resolve at h
  split at h
  · cases h
  · exact placeIn?_of_followSteps h

theorem node?_of_resolve_file {purpose : Purpose} {p : Path} {l : Location} {stamp : Nat}
    {bytes : ByteArray} (h : fs.resolve purpose p = .ok (.file l stamp bytes)) :
    fs.node? l = some (.file stamp bytes) := by
  have hplace := placeIn?_of_resolve h
  simp only [placeIn?, placeAt?] at hplace
  split at hplace <;> simp_all

theorem node?_of_resolve_free {purpose : Purpose} {p : Path} {l : Location}
    (h : fs.resolve purpose p = .ok (.free l)) : fs.node? l = none := by
  have hplace := placeIn?_of_resolve h
  simp only [placeIn?, placeAt?] at hplace
  split at hplace <;> simp_all

/-! ### Growth -/

/-- Directories and links are still there, files are still files, and the working directory is
the same. -/
structure Grows (fs fs' : FileSystem) : Prop where
  directory : ∀ {l}, fs.node? l = some .directory → fs'.node? l = some .directory
  link : ∀ {l target}, fs.node? l = some (.link target) → fs'.node? l = some (.link target)
  file : ∀ {l stamp bytes}, fs.node? l = some (.file stamp bytes) →
    ∃ stamp' bytes', fs'.node? l = some (.file stamp' bytes')
  workingDirectory : fs'.workingDirectory = fs.workingDirectory

namespace Grows

theorem refl (fs : FileSystem) : Grows fs fs :=
  ⟨id, id, fun h => ⟨_, _, h⟩, rfl⟩

theorem trans (h : Grows fs fs') (h' : Grows fs' fs'') : Grows fs fs'' where
  directory hl := h'.directory (h.directory hl)
  link hl := h'.link (h.link hl)
  file hl := by
    obtain ⟨stamp, bytes, hl⟩ := h.file hl
    exact h'.file hl
  workingDirectory := h'.workingDirectory.trans h.workingDirectory

private theorem takeSteps (hgrows : Grows fs fs') {purpose purpose' : Purpose}
    (hadmits : purpose.Admits purpose')
    {onLink onLink' : Location → Path → List Step → Except AccessFault Place}
    {place place' : Place} (hplace : fs'.placeIn? place = some place')
    (honLink : ∀ l target steps, onLink l target steps = .ok place →
      onLink' l target steps = .ok place')
    {d : Directory} {steps : List Step} (h : fs.takeSteps purpose onLink d steps = .ok place) :
    fs'.takeSteps purpose' onLink' d steps = .ok place' := by
  -- both walks take the same turns, and only at the last step another node may stand
  induction steps generalizing d with
  | nil =>
      cases h
      cases hplace
      rfl
  | cons step steps ih =>
      cases step with
      | here => exact ih h
      | asDirectory => exact ih h
      | up => exact ih h
      | into name =>
          obtain ⟨hname, hcases⟩ := takeSteps_into_cases h
          simp only [FileSystem.takeSteps, hadmits _ _ _ hname]
          rcases hcases with ⟨-, rfl, rfl⟩ | ⟨stamp, bytes, hnode, rfl, rfl⟩ | ⟨hnode, h⟩ |
            ⟨target, hnode, h⟩
          · simp only [placeIn?, placeAt?] at hplace
            split at hplace <;> simp_all [FileSystem.takeSteps]
          · obtain ⟨stamp', bytes', hnode'⟩ := hgrows.file hnode
            simp_all [placeIn?, placeAt?]
          · simp only [hgrows.directory hnode]
            exact ih h
          · simp only [hgrows.link hnode]
            exact honLink _ _ _ h

theorem followSteps (hgrows : Grows fs fs') {purpose purpose' : Purpose}
    (hadmits : purpose.Admits purpose') {place place' : Place}
    (hplace : fs'.placeIn? place = some place') {links : Nat} {d : Directory}
    {steps : List Step} (h : fs.followSteps purpose links d steps = .ok place) :
    fs'.followSteps purpose' links d steps = .ok place' := by
  induction links generalizing d steps with
  | zero => exact hgrows.takeSteps hadmits hplace (fun _ _ _ hlink => by cases hlink) h
  | succ links ih => exact hgrows.takeSteps hadmits hplace (fun _ _ _ hlink => ih hlink) h

/-- **A path that leads somewhere leads to the same location for ever after.** -/
theorem resolve (hgrows : Grows fs fs') {purpose purpose' : Purpose}
    (hadmits : purpose.Admits purpose') {place place' : Place}
    (hplace : fs'.placeIn? place = some place') {p : Path}
    (h : fs.resolve purpose p = .ok place) : fs'.resolve purpose' p = .ok place' := by
  unfold FileSystem.resolve start at h ⊢
  rw [hgrows.workingDirectory]
  split at h
  · cases h
  · exact hgrows.followSteps hadmits hplace h

end Grows

/-! ### Storing one node -/

/-- One location holds a node, and nothing else is different. -/
structure Puts (fs fs' : FileSystem) (l : Location) (node : Node) : Prop where
  node? : ∀ k, fs'.node? k = if k = l then some node else fs.node? k
  workingDirectory : fs'.workingDirectory = fs.workingDirectory

theorem Puts.node?_self {l : Location} {node : Node} (h : Puts fs fs' l node) :
    fs'.node? l = some node := by
  rw [h.node?, if_pos rfl]

theorem Puts.node?_of_ne {l k : Location} {node : Node} (h : Puts fs fs' l node) (hk : k ≠ l) :
    fs'.node? k = fs.node? k := by
  rw [h.node?, if_neg hk]

theorem puts_of_store {l : Location} {node : Node} (h : fs.store l node = .ok fs') :
    Puts fs fs' l node := by
  unfold store at h
  split at h
  · cases h
    exact ⟨fun k => fs.node?_put l k node _, rfl⟩
  · cases h

theorem exists_store_eq_ok_iff {l : Location} {node : Node} :
    (∃ fs', fs.store l node = .ok fs') ↔ fs.CanHold l := by
  unfold store
  split
  · rename_i hholds
    exact ⟨fun _ => hholds, fun _ => ⟨_, rfl⟩⟩
  · rename_i hholds
    refine ⟨?_, fun h => absurd h hholds⟩
    rintro ⟨_, h⟩
    cases h

theorem exists_store_of_file {l : Location} {stamp : Nat} {bytes : ByteArray}
    (h : fs.node? l = some (.file stamp bytes)) (node : Node) :
    ∃ fs', fs.store l node = .ok fs' := by
  have hl : l ≠ [] := by
    rintro rfl
    simp [node?] at h
  have hnodes : fs.nodes[l]? = some (.file stamp bytes) := by
    rwa [node?, if_neg hl] at h
  refine exists_store_eq_ok_iff.mpr ⟨hl, (fs.rooted hnodes).2, fun hdir => ?_⟩
  rw [hasDirectory_iff, h] at hdir
  cases hdir

theorem Puts.grows_of_none {l : Location} {node : Node} (h : Puts fs fs' l node)
    (hnone : fs.node? l = none) : Grows fs fs' where
  directory {k} hk := by
    rwa [h.node?_of_ne (by rintro rfl; simp [hnone] at hk)]
  link {k target} hk := by
    rwa [h.node?_of_ne (by rintro rfl; simp [hnone] at hk)]
  file {k stamp bytes} hk := by
    rw [h.node?_of_ne (by rintro rfl; simp [hnone] at hk)]
    exact ⟨stamp, bytes, hk⟩
  workingDirectory := h.workingDirectory

theorem Puts.grows_of_file {l : Location} {stamp stamp' : Nat} {bytes bytes' : ByteArray}
    (h : Puts fs fs' l (.file stamp' bytes')) (hfile : fs.node? l = some (.file stamp bytes)) :
    Grows fs fs' where
  directory {k} hk := by
    rwa [h.node?_of_ne (by rintro rfl; simp [hfile] at hk)]
  link {k target} hk := by
    rwa [h.node?_of_ne (by rintro rfl; simp [hfile] at hk)]
  file {k stamp bytes} hk := by
    by_cases heq : k = l
    · subst heq
      exact ⟨stamp', bytes', h.node?_self⟩
    · rw [h.node?_of_ne heq]
      exact ⟨stamp, bytes, hk⟩
  workingDirectory := h.workingDirectory

/-! ### Files of a growing file system -/

/-- The location of the regular file that a path leads to. -/
def fileLocation? (fs : FileSystem) (p : Path) : Option Location :=
  match fs.resolve .lookup p with
  | .ok (.file l _ _) => some l
  | _ => none

theorem fileLocation?_eq_some_iff {p : Path} {l : Location} :
    fs.fileLocation? p = some l ↔
      ∃ stamp bytes, fs.resolve .lookup p = .ok (.file l stamp bytes) := by
  unfold fileLocation?
  rcases fs.resolve .lookup p with _ | _ | _ | _ <;> simp

theorem bytesAt_eq_ok_iff {p : Path} {bytes : ByteArray} :
    fs.bytesAt p = .ok bytes ↔
      ∃ l stamp, fs.resolve .lookup p = .ok (.file l stamp bytes) := by
  unfold bytesAt
  rcases fs.resolve .lookup p with _ | _ | _ | _ <;> simp

theorem exists_bytesAt_of_fileLocation? {p : Path} {l : Location}
    (h : fs.fileLocation? p = some l) : ∃ bytes, fs.bytesAt p = .ok bytes := by
  obtain ⟨stamp, bytes, hresolve⟩ := fileLocation?_eq_some_iff.mp h
  exact ⟨bytes, bytesAt_eq_ok_iff.mpr ⟨l, stamp, hresolve⟩⟩

theorem exists_fileLocation?_of_textAt {p : Path} {text : String} (h : fs.textAt p = .ok text) :
    ∃ l, fs.fileLocation? p = some l := by
  obtain ⟨l, stamp, hresolve⟩ := bytesAt_eq_ok_iff.mp (textAt_eq_ok_iff.mp h)
  exact ⟨l, fileLocation?_eq_some_iff.mpr ⟨stamp, _, hresolve⟩⟩

namespace Grows

theorem resolve_file (hgrows : Grows fs fs') {purpose : Purpose} {p : Path} {l : Location}
    {stamp stamp' : Nat} {bytes bytes' : ByteArray}
    (h : fs.resolve purpose p = .ok (.file l stamp bytes))
    (hnode : fs'.node? l = some (.file stamp' bytes')) :
    fs'.resolve .lookup p = .ok (.file l stamp' bytes') :=
  hgrows.resolve purpose.admits_lookup (by simp [placeIn?, placeAt?, hnode]) h

theorem fileLocation? (hgrows : Grows fs fs') {p : Path} {l : Location}
    (h : fs.fileLocation? p = some l) : fs'.fileLocation? p = some l := by
  obtain ⟨stamp, bytes, hresolve⟩ := fileLocation?_eq_some_iff.mp h
  obtain ⟨stamp', bytes', hnode⟩ := hgrows.file (node?_of_resolve_file hresolve)
  exact fileLocation?_eq_some_iff.mpr ⟨stamp', bytes', hgrows.resolve_file hresolve hnode⟩

/-- A file is read as before if nothing was written to its location. -/
theorem bytesAt (hgrows : Grows fs fs') {p : Path} {l : Location}
    (h : fs.fileLocation? p = some l) (hnode : fs'.node? l = fs.node? l) :
    fs'.bytesAt p = fs.bytesAt p := by
  obtain ⟨stamp, bytes, hresolve⟩ := fileLocation?_eq_some_iff.mp h
  have hfile := node?_of_resolve_file hresolve
  rw [bytesAt_eq_ok_iff.mpr ⟨l, stamp, hresolve⟩, bytesAt_eq_ok_iff]
  exact ⟨l, stamp, hgrows.resolve_file hresolve (hnode.trans hfile)⟩

theorem kindAt?_directory (hgrows : Grows fs fs') {p : Path}
    (h : fs.kindAt? p = some .directory) : fs'.kindAt? p = some .directory := by
  unfold kindAt? at h ⊢
  split at h
  · rename_i d hresolve
    rw [hgrows.resolve (Purpose.admits_self _) rfl hresolve]
  · cases h
  · cases h

end Grows

end FileSystem

end MessageCatalog
