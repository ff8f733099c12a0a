import MessageCatalog.Proofs.FileSystem.Directories

/-!
# File systems alike but for one file

When one file is replaced by another one (`AlikeBut`), every path leads where it led before and
fails as it failed before (`AlikeBut.resolve`).  So directories are created in both file
systems alike (`AlikeBut.createChain`), and a file can be created in one of them if it can be
created in the other (`AlikeBut.exists_openNew`).
-/

namespace MessageCatalog.FileSystem

variable {fs fs' fs'' : FileSystem} {l : Location}

/-- Both file systems hold a file at a location and are alike everywhere else. -/
structure AlikeBut (l : Location) (fs fs' : FileSystem) : Prop where
  node? : ∀ {k}, k ≠ l → fs'.node? k = fs.node? k
  file : ∃ stamp bytes, fs.node? l = some (.file stamp bytes)
  file' : ∃ stamp bytes, fs'.node? l = some (.file stamp bytes)
  workingDirectory : fs'.workingDirectory = fs.workingDirectory

theorem alikeBut_of_puts {stamp stamp' : Nat} {bytes bytes' : ByteArray}
    (hfile : fs.node? l = some (.file stamp bytes))
    (hputs : Puts fs fs' l (.file stamp' bytes')) : AlikeBut l fs fs' where
  node? hk := hputs.node?_of_ne hk
  file := ⟨stamp, bytes, hfile⟩
  file' := ⟨stamp', bytes', hputs.node?_self⟩
  workingDirectory := hputs.workingDirectory

/-- A place with what another file system holds there, if it is the place of a file. -/
def placeThere (fs : FileSystem) : Place → Place
  | .directory d => .directory d
  | .file l stamp bytes =>
    match fs.node? l with
    | some (.file stamp' bytes') => .file l stamp' bytes'
    | _ => .file l stamp bytes
  | .free l => .free l

theorem exists_placeThere_file (fs : FileSystem) (k : Location) (stamp : Nat)
    (bytes : ByteArray) :
    ∃ stamp' bytes', fs.placeThere (.file k stamp bytes) = .file k stamp' bytes' := by
  simp only [placeThere]
  split
  · exact ⟨_, _, rfl⟩
  · exact ⟨_, _, rfl⟩

namespace AlikeBut

theorem symm (h : AlikeBut l fs fs') : AlikeBut l fs' fs where
  node? hk := (h.node? hk).symm
  file := h.file'
  file' := h.file
  workingDirectory := h.workingDirectory.symm

theorem node?_eq_directory_iff (h : AlikeBut l fs fs') {k : Location} :
    fs'.node? k = some .directory ↔ fs.node? k = some .directory := by
  by_cases hk : k = l
  · subst hk
    obtain ⟨_, _, hfile⟩ := h.file
    obtain ⟨_, _, hfile'⟩ := h.file'
    simp [hfile, hfile']
  · rw [h.node? hk]

theorem node?_eq_none_iff (h : AlikeBut l fs fs') {k : Location} :
    fs'.node? k = none ↔ fs.node? k = none := by
  by_cases hk : k = l
  · subst hk
    obtain ⟨_, _, hfile⟩ := h.file
    obtain ⟨_, _, hfile'⟩ := h.file'
    simp [hfile, hfile']
  · rw [h.node? hk]

theorem grows (h : AlikeBut l fs fs') : Grows fs fs' where
  directory hk := h.node?_eq_directory_iff.mpr hk
  link {k _} hk := by
    rwa [h.node?]
    rintro rfl
    obtain ⟨_, _, hfile⟩ := h.file
    simp [hfile] at hk
  file {k _ _} hk := by
    by_cases heq : k = l
    · subst heq
      exact h.file'
    · exact ⟨_, _, by rw [h.node? heq, hk]⟩
  workingDirectory := h.workingDirectory

/-! ### Walking -/

private theorem takeSteps (h : AlikeBut l fs fs') (purpose : Purpose)
    {onLink onLink' : Location → Path → List Step → Except AccessFault Place}
    (honLink : ∀ k target steps, onLink' k target steps =
      (onLink k target steps).map fs'.placeThere)
    (d : Directory) (steps : List Step) :
    fs'.takeSteps purpose onLink' d steps =
      (fs.takeSteps purpose onLink d steps).map fs'.placeThere := by
  induction steps generalizing d with
  | nil => rfl
  | cons step steps ih =>
      cases step with
      | here => exact ih d
      | asDirectory => exact ih d
      | up => exact ih d.parent
      | into name =>
          simp only [FileSystem.takeSteps]
          cases purpose.nameFault? d name steps with
          | some fault => rfl
          | none =>
              -- at the location itself both hold a file, and elsewhere the same node
              by_cases hk : d.location ++ [name] = l
              · obtain ⟨_, _, hfile⟩ := h.file
                obtain ⟨_, _, hfile'⟩ := h.file'
                simp only [hk, hfile, hfile']
                split <;> simp [Except.map, placeThere, hfile']
              · rw [h.node? hk]
                dsimp only
                cases hnode : fs.node? (d.location ++ [name]) with
                | none => dsimp only; split <;> rfl
                | some node =>
                    cases node with
                    | directory => exact ih _
                    | file stamp bytes =>
                        dsimp only
                        split <;> simp [Except.map, placeThere, h.node? hk, hnode]
                    | link target => exact honLink _ _ _

theorem followSteps (h : AlikeBut l fs fs') (purpose : Purpose) (links : Nat) (d : Directory)
    (steps : List Step) :
    fs'.followSteps purpose links d steps =
      (fs.followSteps purpose links d steps).map fs'.placeThere := by
  induction links generalizing d steps with
  | zero =>
      rw [followSteps_zero, followSteps_zero]
      refine h.takeSteps purpose ?_ d steps
      exact fun _ _ _ => rfl
  | succ links ih => exact h.takeSteps purpose (fun _ _ _ => ih _ _) d steps

/-- Every path leads to the same place, and fails for the same cause. -/
theorem resolve (h : AlikeBut l fs fs') (purpose : Purpose) (p : Path) :
    fs'.resolve purpose p = (fs.resolve purpose p).map fs'.placeThere := by
  unfold FileSystem.resolve start
  rw [h.workingDirectory]
  split
  · rfl
  · exact h.followSteps purpose maxLinks _ _

theorem resolveEntry (h : AlikeBut l fs fs') (p : Path) :
    fs'.resolveEntry p = fs.resolveEntry p := by
  unfold FileSystem.resolveEntry start
  rw [h.workingDirectory]
  split
  · rfl
  · split
    · rfl
    · rw [h.followSteps]
      generalize fs.followSteps _ _ _ _ = place
      rcases place with fault | d | ⟨k, stamp, bytes⟩ | k
      · rfl
      · rfl
      · obtain ⟨_, _, hfile⟩ := fs'.exists_placeThere_file k stamp bytes
        simp only [Except.map, hfile]
      · rfl

theorem kindAt? (h : AlikeBut l fs fs') (p : Path) : fs'.kindAt? p = fs.kindAt? p := by
  unfold FileSystem.kindAt?
  rw [h.resolve]
  rcases fs.resolve .lookup p with fault | d | ⟨k, stamp, bytes⟩ | k
  · rfl
  · rfl
  · obtain ⟨_, _, hfile⟩ := fs'.exists_placeThere_file k stamp bytes
    simp only [Except.map, hfile]
  · rfl

theorem fileLocation? (h : AlikeBut l fs fs') (p : Path) :
    fs'.fileLocation? p = fs.fileLocation? p := by
  unfold FileSystem.fileLocation?
  rw [h.resolve]
  rcases fs.resolve .lookup p with fault | d | ⟨k, stamp, bytes⟩ | k
  · rfl
  · rfl
  · obtain ⟨_, _, hfile⟩ := fs'.exists_placeThere_file k stamp bytes
    simp only [Except.map, hfile]
  · rfl

/-- Every other file is read alike, and what is no file is none in either file system. -/
theorem fileBytes? (h : AlikeBut l fs fs') {p : Path} (hne : fs.fileLocation? p ≠ some l) :
    fs'.fileBytes? p = fs.fileBytes? p := by
  unfold FileSystem.fileBytes? bytesAt
  unfold FileSystem.fileLocation? at hne
  rw [h.resolve]
  cases hresolve : fs.resolve .lookup p with
  | error fault => rfl
  | ok place =>
      cases place with
      | directory d => rfl
      | free k => rfl
      | file k stamp bytes =>
          have hk : k ≠ l := by
            rintro rfl
            simp [hresolve] at hne
          simp [Except.map, placeThere, h.node? hk, node?_of_resolve_file hresolve]

end AlikeBut

/-! ### Changing -/

/-- Two outcomes that agree: both fail for the same cause, or both succeed with related results. -/
def Agree {α : Type} (related : α → α → Prop) :
    Except AccessFault α → Except AccessFault α → Prop
  | .ok a, .ok b => related a b
  | .error fault, .error fault' => fault = fault'
  | _, _ => False

theorem Agree.cases {α : Type} {related : α → α → Prop} {x y : Except AccessFault α}
    (h : Agree related x y) :
    (∃ fault, x = .error fault ∧ y = .error fault) ∨
      ∃ a b, x = .ok a ∧ y = .ok b ∧ related a b := by
  rcases x with fault | a <;> rcases y with fault' | b
  · cases h
    exact .inl ⟨fault, rfl, rfl⟩
  · cases h
  · cases h
  · exact .inr ⟨a, b, rfl, rfl, h⟩

namespace AlikeBut

theorem canHold_iff (h : AlikeBut l fs fs') {k : Location} : fs'.CanHold k ↔ fs.CanHold k := by
  simp only [CanHold, hasDirectory_iff, h.node?_eq_directory_iff]

theorem store (h : AlikeBut l fs fs') {k : Location} (hk : k ≠ l) (node : Node) :
    Agree (AlikeBut l) (fs.store k node) (fs'.store k node) := by
  unfold FileSystem.store
  by_cases hholds : fs.CanHold k
  · rw [dif_pos hholds, dif_pos (h.canHold_iff.mpr hholds)]
    refine ⟨fun {m} hm => ?_, ?_, ?_, h.workingDirectory⟩
    · rw [node?_put, node?_put, h.node? hm]
    · rw [node?_put, if_neg hk.symm]
      exact h.file
    · rw [node?_put, if_neg hk.symm]
      exact h.file'
  · rw [dif_neg hholds, dif_neg (mt h.canHold_iff.mp hholds)]
    rfl

theorem makeDirectory (h : AlikeBut l fs fs') (p : Path) :
    Agree (AlikeBut l) (fs.makeDirectory p) (fs'.makeDirectory p) := by
  unfold FileSystem.makeDirectory makeNode
  rw [h.resolveEntry]
  cases fs.resolveEntry p with
  | error fault => rfl
  | ok entry =>
      cases entry with
      | none => rfl
      | some k =>
          dsimp only
          -- a place is free in both file systems or in none, and the file holds its own
          by_cases hfree : fs.node? k = none
          · have hk : k ≠ l := by
              rintro rfl
              obtain ⟨_, _, hfile⟩ := h.file
              simp [hfile] at hfree
            rw [hfree, h.node?_eq_none_iff.mpr hfree]
            exact h.store hk .directory
          · have hfree' := mt h.node?_eq_none_iff.mp hfree
            rw [if_pos (Option.isSome_iff_ne_none.mpr hfree),
              if_pos (Option.isSome_iff_ne_none.mpr hfree')]
            rfl

theorem acceptDirectory (h : AlikeBut l fs fs') (p : Path) (cause : AccessFault) :
    (fs'.acceptDirectory p cause).1 = (fs.acceptDirectory p cause).1 ∧
      AlikeBut l (fs.acceptDirectory p cause).2 (fs'.acceptDirectory p cause).2 := by
  unfold FileSystem.acceptDirectory
  rw [h.kindAt?]
  exact ⟨rfl, h⟩

theorem createChain (h : AlikeBut l fs fs') (chain : List Path) :
    (fs'.createChain chain).1 = (fs.createChain chain).1 ∧
      AlikeBut l (fs.createChain chain).2 (fs'.createChain chain).2 := by
  induction chain with
  | nil => exact ⟨rfl, h⟩
  | cons p parents ih =>
      rw [createChain_cons, createChain_cons]
      split
      · exact ⟨rfl, h⟩
      · rcases (h.makeDirectory p).cases with ⟨cause, hfs, hfs'⟩ | ⟨next, next', hfs, hfs', halike⟩
        · rw [hfs, hfs']
          cases cause with
          | notFound =>
              dsimp only
              split
              · exact ⟨rfl, h⟩
              · obtain ⟨houtcome, halike⟩ := ih
                -- the parents come first, alike in both, and the directory is tried once more
                rcases hchain : fs.createChain parents with ⟨outcome, next⟩
                rcases hchain' : fs'.createChain parents with ⟨outcome', next'⟩
                rw [hchain, hchain'] at houtcome halike
                dsimp only at houtcome halike
                subst houtcome
                rcases outcome' with cause | ⟨⟩
                · exact ⟨rfl, halike⟩
                · rcases (halike.makeDirectory p).cases with ⟨cause, hmake, hmake'⟩ |
                    ⟨last, last', hmake, hmake', hlast⟩
                  · simp only [hmake, hmake']
                    exact halike.acceptDirectory p cause
                  · simp only [hmake, hmake', true_and]
                    exact hlast
          | _ => exact h.acceptDirectory p _
        · rw [hfs, hfs']
          exact ⟨rfl, halike⟩

/-- A file can be created where one can be created in a file system alike. -/
theorem exists_openNew (h : AlikeBut l fs fs') {p : Path} {opened : OpenFile × FileSystem}
    (hopen : fs.openNew p = .ok opened) : ∃ opened', fs'.openNew p = .ok opened' := by
  unfold openNew at hopen ⊢
  rw [h.resolve]
  cases hresolve : fs.resolve .creation p with
  | error fault =>
      rw [hresolve] at hopen
      cases hopen
  | ok place =>
      rw [hresolve] at hopen
      cases place with
      | directory d => cases hopen
      | file k stamp bytes =>
          obtain ⟨stamp', bytes', hplace⟩ := fs'.exists_placeThere_file k stamp bytes
          obtain ⟨_, _, hnode⟩ := h.grows.file (node?_of_resolve_file hresolve)
          obtain ⟨next, hstore⟩ := exists_store_of_file hnode (.file stamp' ByteArray.empty)
          simp only [Except.map, hplace, hstore]
          exact ⟨_, rfl⟩
      | free k =>
          -- taking a stamp has no effect on what a location can hold
          have hholds : fs.CanHold k := by
            cases hstore : fs.takeStamp.2.store k (.file fs.takeStamp.1 ByteArray.empty) with
            | error fault =>
                dsimp only at hopen
                rw [hstore] at hopen
                cases hopen
            | ok next =>
                have hthere : fs.takeStamp.2.CanHold k :=
                  exists_store_eq_ok_iff.mp ⟨next, hstore⟩
                exact hthere
          have hholds' : fs'.takeStamp.2.CanHold k := h.canHold_iff.mpr hholds
          obtain ⟨next, hstore⟩ := exists_store_eq_ok_iff.mpr hholds'
          simp only [Except.map, placeThere]
          rw [hstore]
          exact ⟨_, rfl⟩

end AlikeBut

end MessageCatalog.FileSystem
