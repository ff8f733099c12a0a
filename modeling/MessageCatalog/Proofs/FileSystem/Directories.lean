import MessageCatalog.Proofs.FileSystem.Growth

/-!
# Creating directories

Creating a directory with all that lie above it adds directories to which its path or one above
it leads (`AddsAlong`) and changes nothing else, whether it succeeds or not, and once it has
succeeded the directory is there (`createChain_spec`).  Where the directory is there nothing is
created (`createChain_of_kindAt?`), so that doing it again changes nothing.

What a path names at its end and what it leads to are found on the same way, which is walked
up to the last step (`followSteps_append`).
-/

namespace MessageCatalog

theorem Path.ancestors_eq (p : Path) :
    p.ancestors = p :: match p.parent? with
      | none => []
      | some q => q.ancestors := by
  rw [ancestors]
  refine congrArg (p :: ·) ?_
  split <;> simp_all

/-- The steps that the segments of a path spell. -/
def Path.namedSteps (p : Path) : List Step :=
  (segments p.text.toList).filterMap Step.ofSegment?

/-- A path asks for a directory behind its last other step or not at all. -/
theorem Path.exists_steps_eq (p : Path) :
    ∃ tail, (tail = [] ∨ tail = [.asDirectory]) ∧ p.steps = p.namedSteps ++ tail := by
  unfold Path.steps
  dsimp only
  split
  · exact ⟨[.asDirectory], .inr rfl, rfl⟩
  · exact ⟨[], .inl rfl, (List.append_nil _).symm⟩

theorem Path.filter_steps (p : Path) : p.steps.filter (· ≠ .asDirectory) = p.namedSteps := by
  have hnamed : ∀ step ∈ p.namedSteps, decide (step ≠ .asDirectory) = true := by
    intro step hstep
    obtain ⟨segment, -, hsegment⟩ := List.mem_filterMap.mp hstep
    unfold Step.ofSegment? at hsegment
    split at hsegment
    · cases hsegment
      rfl
    · split at hsegment
      · cases hsegment
        rfl
      · obtain ⟨name, -, rfl⟩ := Option.map_eq_some_iff.mp hsegment
        rfl
  obtain ⟨tail, htail, hsteps⟩ := p.exists_steps_eq
  rw [hsteps, List.filter_append, List.filter_eq_self.mpr hnamed]
  rcases htail with rfl | rfl <;> simp

namespace FileSystem

variable {fs fs' fs'' : FileSystem}

/-! ### The way to the last step -/

theorem nameFault?_lookup (d : Directory) (name : Name) (steps steps' : List Step) :
    Purpose.lookup.nameFault? d name steps = Purpose.lookup.nameFault? d name steps' := by
  simp [Purpose.nameFault?]

theorem followSteps_zero (fs : FileSystem) (purpose : Purpose) :
    fs.followSteps purpose 0 = fs.takeSteps purpose fun _ _ _ => .error .tooManyLinks := by
  funext d steps
  rfl

theorem followSteps_succ (fs : FileSystem) (purpose : Purpose) (links : Nat) :
    fs.followSteps purpose (links + 1) = fs.takeSteps purpose fun l target steps =>
      fs.followSteps purpose links (.standing (if target.isAbsolute then [] else l))
        (target.steps ++ steps) := by
  funext d steps
  rfl

/-- Only what is done at a link depends on how many links may be followed. -/
theorem exists_takeSteps (fs : FileSystem) (purpose : Purpose) (links : Nat) :
    ∃ onLink, fs.followSteps purpose links = fs.takeSteps purpose onLink := by
  cases links with
  | zero => exact ⟨_, fs.followSteps_zero purpose⟩
  | succ links => exact ⟨_, fs.followSteps_succ purpose links⟩

theorem followSteps_asDirectory (fs : FileSystem) (purpose : Purpose) (links : Nat)
    (d : Directory) : fs.followSteps purpose links d [.asDirectory] = .ok (.directory d) := by
  obtain ⟨onLink, hwalk⟩ := fs.exists_takeSteps purpose links
  rw [hwalk]
  rfl

/-- A walk whose further steps start in one directory, unless it fails whatever they are. -/
def GoesOn (fs : FileSystem) (walk : List Step → Except AccessFault Place) : Prop :=
  (∃ fault, ∀ steps, steps ≠ [] → walk steps = .error fault) ∨
    ∃ links d, ∀ steps, steps ≠ [] → walk steps = fs.followSteps .lookup links d steps

private theorem takeSteps_append {links : Nat}
    {onLink : Location → Path → List Step → Except AccessFault Place}
    (hwalk : fs.followSteps .lookup links = fs.takeSteps .lookup onLink)
    (honLink : ∀ l target front, fs.GoesOn fun steps => onLink l target (front ++ steps))
    (d : Directory) (front : List Step) :
    fs.GoesOn fun steps => fs.takeSteps .lookup onLink d (front ++ steps) := by
  -- what stands in the way ends the walk alike, whatever steps would have followed
  induction front generalizing d with
  | nil => exact .inr ⟨links, d, fun _ _ => by rw [hwalk]; rfl⟩
  | cons step front ih =>
      cases step with
      | here => exact ih d
      | asDirectory => exact ih d
      | up => exact ih d.parent
      | into name =>
          simp only [List.cons_append, takeSteps, nameFault?_lookup d name _ []]
          cases Purpose.lookup.nameFault? d name [] with
          | some fault => exact .inl ⟨fault, fun _ _ => rfl⟩
          | none =>
              cases fs.node? (d.location ++ [name]) with
              | none => exact .inl ⟨.notFound, fun steps hne => by simp [hne]⟩
              | some node =>
                  cases node with
                  | directory => exact ih (.standing (d.location ++ [name]))
                  | file stamp bytes => exact .inl ⟨.notDirectory, fun steps hne => by simp [hne]⟩
                  | link target => exact honLink _ _ _

theorem followSteps_append (fs : FileSystem) (links : Nat) (d : Directory) (front : List Step) :
    fs.GoesOn fun steps => fs.followSteps .lookup links d (front ++ steps) := by
  induction links generalizing d front with
  | zero =>
      exact takeSteps_append (fs.followSteps_zero .lookup)
        (fun _ _ _ => .inl ⟨.tooManyLinks, fun _ _ => rfl⟩) d front
  | succ links ih =>
      refine takeSteps_append (fs.followSteps_succ .lookup links) (fun l target front => ?_) d front
      simp only [← List.append_assoc]
      exact ih _ _

/-- The location that the last step of a path names in a directory. -/
def entryIn (d : Directory) : Step → Except AccessFault (Option Location)
  | .into name =>
    match Purpose.lookup.nameFault? d name [] with
    | some fault => .error fault
    | none => .ok (some (d.location ++ [name]))
  | _ => .ok none

/-- What a path leads to and what it names at its end are told by its last step, taken from one
directory. -/
theorem resolve_and_resolveEntry (fs : FileSystem) {p : Path} {front : List Step} {last : Step}
    (hfault : pathFault? p = none)
    (hsteps : p.namedSteps = front ++ [last]) :
    (∃ fault, fs.resolve .lookup p = .error fault ∧ fs.resolveEntry p = .error fault) ∨
      ∃ links d tail, (tail = [] ∨ tail = [.asDirectory]) ∧
        fs.resolve .lookup p = fs.followSteps .lookup links d (last :: tail) ∧
        fs.resolveEntry p = entryIn d last := by
  obtain ⟨tail, htail, hall⟩ := p.exists_steps_eq
  rw [hsteps, List.append_assoc, List.singleton_append] at hall
  have hlast : p.namedSteps.reverse = last :: front.reverse := by
    rw [hsteps, List.reverse_append]
    rfl
  have hresolve : fs.resolve .lookup p =
      fs.followSteps .lookup maxLinks (fs.start p) (front ++ last :: tail) := by
    unfold resolve
    rw [hfault, ← hall]
  unfold resolveEntry
  simp only [hfault, p.filter_steps, hlast, List.reverse_reverse]
  -- the steps in front of the last one fail for both, or lead both to one directory
  rcases fs.followSteps_append maxLinks (fs.start p) front with ⟨fault, hfail⟩ | ⟨links, d, hgo⟩
  · left
    refine ⟨fault, hresolve.trans (hfail _ (List.cons_ne_nil _ _)), ?_⟩
    have hend := hfail [.asDirectory] (List.cons_ne_nil _ _)
    dsimp only at hend
    rw [hend]
  · right
    refine ⟨links, d, tail, htail, hresolve.trans (hgo _ (List.cons_ne_nil _ _)), ?_⟩
    have hend := hgo [.asDirectory] (List.cons_ne_nil _ _)
    rw [fs.followSteps_asDirectory] at hend
    dsimp only at hend
    rw [hend]
    cases last <;> rfl

theorem pathFault?_of_resolve {purpose : Purpose} {p : Path} {place : Place}
    (h : fs.resolve purpose p = .ok place) : pathFault? p = none := by
  unfold resolve at h
  split at h
  · cases h
  · assumption

theorem pathFault?_of_resolveEntry {p : Path} {entry : Option Location}
    (h : fs.resolveEntry p = .ok entry) : pathFault? p = none := by
  unfold resolveEntry at h
  split at h
  · cases h
  · assumption

/-- A step into a name that goes on to a directory has met no fault there, and a node. -/
private theorem exists_node_of_followSteps_into {links : Nat} {d d' : Directory} {name : Name}
    {tail : List Step}
    (h : fs.followSteps .lookup links d (.into name :: tail) = .ok (.directory d')) :
    Purpose.lookup.nameFault? d name [] = none ∧
      ∃ node, fs.node? (d.location ++ [name]) = some node := by
  obtain ⟨onLink, hwalk⟩ := fs.exists_takeSteps .lookup links
  rw [hwalk] at h
  obtain ⟨hname, hcases⟩ := takeSteps_into_cases h
  refine ⟨nameFault?_lookup d name tail [] ▸ hname, ?_⟩
  obtain ⟨-, -, hplace⟩ | ⟨_, _, -, -, hplace⟩ | ⟨hnode, -⟩ | ⟨target, hnode, -⟩ := hcases
  · cases hplace
  · cases hplace
  · exact ⟨_, hnode⟩
  · exact ⟨_, hnode⟩

private theorem makeDirectory_of_kindAt? {p : Path} (h : fs.kindAt? p = some .directory) :
    fs.makeDirectory p = .error .alreadyExists := by
  obtain ⟨d, hresolve⟩ : ∃ d, fs.resolve .lookup p = .ok (.directory d) := by
    unfold kindAt? at h
    split at h
    · exact ⟨_, ‹_›⟩
    · cases h
    · cases h
  have hfault : pathFault? p = none := pathFault?_of_resolve hresolve
  unfold makeDirectory makeNode
  -- a path that names nothing has no entry to make, and otherwise its last step decides
  rcases List.eq_nil_or_concat p.namedSteps with hnil | ⟨front, last, hsteps⟩
  · have hentry : fs.resolveEntry p = .ok none := by
      unfold resolveEntry
      simp only [hfault, p.filter_steps, hnil, List.reverse_nil]
    rw [hentry]
  · rw [List.concat_eq_append] at hsteps
    rcases fs.resolve_and_resolveEntry hfault hsteps with ⟨fault, herror, -⟩ |
      ⟨links, d', tail, -, hlast, hentry⟩
    · rw [herror] at hresolve
      cases hresolve
    · rw [hentry]
      rw [hlast] at hresolve
      cases last with
      | here => rfl
      | up => rfl
      | asDirectory => rfl
      | into name =>
          obtain ⟨hname, node, hnode⟩ := exists_node_of_followSteps_into hresolve
          simp only [entryIn, hname, hnode]
          rfl

private theorem resolve_of_resolveEntry {p : Path} {l : Location}
    (hentry : fs.resolveEntry p = .ok (some l)) (hnode : fs.node? l = some .directory) :
    fs.resolve .lookup p = .ok (.directory (.standing l)) := by
  have hfault : pathFault? p = none := pathFault?_of_resolveEntry hentry
  rcases List.eq_nil_or_concat p.namedSteps with hnil | ⟨front, last, hsteps⟩
  · unfold resolveEntry at hentry
    simp only [hfault, p.filter_steps, hnil, List.reverse_nil] at hentry
    cases hentry
  · rw [List.concat_eq_append] at hsteps
    rcases fs.resolve_and_resolveEntry hfault hsteps with ⟨fault, -, herror⟩ |
      ⟨links, d, tail, htail, hresolve, hlast⟩
    · rw [herror] at hentry
      cases hentry
    · rw [hlast] at hentry
      cases last with
      | here => cases hentry
      | up => cases hentry
      | asDirectory => cases hentry
      | into name =>
          simp only [entryIn] at hentry
          split at hentry
          · cases hentry
          · rename_i hname
            cases hentry
            -- the entry is a directory, so that a slash behind the name asks for nothing more
            have hplace : fs.followSteps .lookup links d (.into name :: tail) =
                .ok (.directory (.standing (d.location ++ [name]))) := by
              obtain ⟨onLink, hwalk⟩ := fs.exists_takeSteps .lookup links
              rw [hwalk, takeSteps_into_directory (nameFault?_lookup d name tail [] ▸ hname) hnode]
              rcases htail with rfl | rfl <;> rfl
            rw [hresolve, hplace]

private theorem kindAt?_of_resolve {p : Path} {d : Directory}
    (h : fs.resolve .lookup p = .ok (.directory d)) : fs.kindAt? p = some .directory := by
  unfold kindAt?
  rw [h]

theorem Grows.resolveEntry (hgrows : Grows fs fs') {p : Path} {entry : Option Location}
    (h : fs.resolveEntry p = .ok entry) : fs'.resolveEntry p = .ok entry := by
  unfold FileSystem.resolveEntry start at h ⊢
  rw [hgrows.workingDirectory]
  split at h
  · cases h
  · split at h
    · exact h
    · split at h
      · cases h
      · rename_i d hplace
        rw [hgrows.followSteps (Purpose.admits_self _) rfl hplace]
        exact h
      · cases h

/-! ### Adding directories -/

/-- What is new are directories. -/
structure AddsDirectories (fs fs' : FileSystem) : Prop where
  keeps : ∀ {l}, fs.node? l ≠ none → fs'.node? l = fs.node? l
  adds : ∀ {l}, fs.node? l = none → fs'.node? l = none ∨ fs'.node? l = some .directory
  workingDirectory : fs'.workingDirectory = fs.workingDirectory

namespace AddsDirectories

theorem refl (fs : FileSystem) : AddsDirectories fs fs :=
  ⟨fun _ => rfl, .inl, rfl⟩

theorem trans (h : AddsDirectories fs fs') (h' : AddsDirectories fs' fs'') :
    AddsDirectories fs fs'' where
  keeps hl := by
    have hkept := h.keeps hl
    rw [h'.keeps (by rwa [hkept]), hkept]
  adds hl := by
    rcases h.adds hl with hnone | hdir
    · exact h'.adds hnone
    · exact .inr (by rw [h'.keeps (by simp [hdir]), hdir])
  workingDirectory := h'.workingDirectory.trans h.workingDirectory

theorem grows (h : AddsDirectories fs fs') : Grows fs fs' where
  directory hl := by rw [h.keeps (by simp [hl]), hl]
  link hl := by rw [h.keeps (by simp [hl]), hl]
  file hl := ⟨_, _, by rw [h.keeps (by simp [hl]), hl]⟩
  workingDirectory := h.workingDirectory

theorem bytesAt (h : AddsDirectories fs fs') {p : Path} {bytes : ByteArray}
    (hbytes : fs.bytesAt p = .ok bytes) : fs'.bytesAt p = .ok bytes := by
  obtain ⟨l, stamp, hresolve⟩ := bytesAt_eq_ok_iff.mp hbytes
  have hnode := node?_of_resolve_file hresolve
  rw [h.grows.bytesAt (fileLocation?_eq_some_iff.mpr ⟨stamp, bytes, hresolve⟩)
    (h.keeps (by simp [hnode])), hbytes]

end AddsDirectories

/-- Directories are added to each of which one of some paths leads then. -/
structure AddsAlong (chain : List Path) (fs fs' : FileSystem) : Prop
    extends AddsDirectories fs fs' where
  along : ∀ {l}, fs.node? l = none → fs'.node? l = some .directory →
    ∃ p ∈ chain, fs'.resolve .lookup p = .ok (.directory (.standing l))

namespace AddsAlong

variable {chain chain' : List Path}

theorem refl (chain : List Path) (fs : FileSystem) : AddsAlong chain fs fs where
  toAddsDirectories := .refl fs
  along hnone hdir := by
    rw [hnone] at hdir
    cases hdir

theorem mono (h : AddsAlong chain fs fs') (hsub : ∀ p ∈ chain, p ∈ chain') :
    AddsAlong chain' fs fs' where
  toAddsDirectories := h.toAddsDirectories
  along hnone hdir := by
    obtain ⟨p, hp, hresolve⟩ := h.along hnone hdir
    exact ⟨p, hsub p hp, hresolve⟩

theorem trans (h : AddsAlong chain fs fs') (h' : AddsAlong chain fs' fs'') :
    AddsAlong chain fs fs'' where
  toAddsDirectories := h.toAddsDirectories.trans h'.toAddsDirectories
  along {l} hnone hdir := by
    rcases h.adds hnone with hstill | hnew
    · exact h'.along hstill hdir
    · obtain ⟨p, hp, hresolve⟩ := h.along hnone hnew
      exact ⟨p, hp, h'.grows.resolve (Purpose.admits_self _) rfl hresolve⟩

end AddsAlong

/-- A directory that is made lies in a free place, and the path leads to it then. -/
private theorem exists_puts_of_makeDirectory {p : Path} (h : fs.makeDirectory p = .ok fs') :
    ∃ l, fs.node? l = none ∧ Puts fs fs' l .directory ∧
      fs'.resolve .lookup p = .ok (.directory (.standing l)) := by
  unfold makeDirectory makeNode at h
  split at h
  · cases h
  · cases h
  · rename_i l hentry
    split at h
    · cases h
    · rename_i hfree
      have hnone : fs.node? l = none := by simpa using hfree
      have hputs := puts_of_store h
      exact ⟨l, hnone, hputs, resolve_of_resolveEntry
        ((hputs.grows_of_none hnone).resolveEntry hentry) hputs.node?_self⟩

private theorem adds_of_makeDirectory {p : Path} (h : fs.makeDirectory p = .ok fs') :
    AddsAlong [p] fs fs' ∧ fs'.kindAt? p = some .directory := by
  obtain ⟨l, hnone, hputs, hresolve⟩ := exists_puts_of_makeDirectory h
  refine ⟨⟨⟨fun {k} hk => ?_, fun {k} hk => ?_, hputs.workingDirectory⟩, fun {k} hk hdir => ?_⟩,
    kindAt?_of_resolve hresolve⟩
  · exact hputs.node?_of_ne (by rintro rfl; exact hk hnone)
  · by_cases heq : k = l
    · subst heq
      exact .inr hputs.node?_self
    · exact .inl (by rw [hputs.node?_of_ne heq, hk])
  · by_cases heq : k = l
    · subst heq
      exact ⟨p, List.mem_singleton.mpr rfl, hresolve⟩
    · rw [hputs.node?_of_ne heq, hk] at hdir
      cases hdir

/-! ### Creating a directory with those above it -/

/-- Running a chain of directories. -/
def createChain (fs : FileSystem) (chain : List Path) : Except AccessFault Unit × FileSystem :=
  (FileAccess.createDirectoryChain chain : StateM FileSystem (Except AccessFault Unit)) fs

/-- The outcome where no directory can be made, as one may stand there already. -/
def acceptDirectory (fs : FileSystem) (p : Path) (cause : AccessFault) :
    Except AccessFault Unit × FileSystem :=
  (if fs.kindAt? p = some .directory then .ok () else .error cause, fs)

theorem createDirectory_eq (fs : FileSystem) (p : Path) :
    (FileAccess.createDirectory p : StateM FileSystem (Except AccessFault Unit)) fs =
      match fs.makeDirectory p with
      | .ok next => (.ok (), next)
      | .error cause => (.error cause, fs) := rfl

private theorem accept_error_eq (fs : FileSystem) (p : Path) (cause : AccessFault) :
    (FileAccess.createDirectoryChain.accept p (.error cause) :
      StateM FileSystem (Except AccessFault Unit)) fs = fs.acceptDirectory p cause := by
  change (if (fs.kindAt? p == some .directory) = true then
    (pure (.ok ()) : StateM FileSystem (Except AccessFault Unit)) else pure (.error cause)) fs = _
  unfold acceptDirectory
  by_cases h : fs.kindAt? p = some .directory
  · rw [if_pos h, if_pos (beq_iff_eq.mpr h)]
    rfl
  · rw [if_neg h, if_neg (mt beq_iff_eq.mp h)]
    rfl

theorem createChain_cons (fs : FileSystem) (p : Path) (parents : List Path) :
    fs.createChain (p :: parents) =
      if p.text.isEmpty then (.ok (), fs)
      else
        match fs.makeDirectory p with
        | .ok next => (.ok (), next)
        | .error .notFound =>
          if parents.isEmpty then (.error (.other "failed to create whole tree"), fs)
          else
            match fs.createChain parents with
            | (.error cause, next) => (.error cause, next)
            | (.ok (), next) =>
              match next.makeDirectory p with
              | .ok last => (.ok (), last)
              | .error cause => next.acceptDirectory p cause
        | .error cause => fs.acceptDirectory p cause := by
  unfold createChain
  rw [FileAccess.createDirectoryChain]
  split
  · rfl
  · simp only [bind_apply, createDirectory_eq]
    cases fs.makeDirectory p with
    | ok next => rfl
    | error cause =>
        cases cause with
        | notFound =>
            dsimp only
            split
            · rfl
            · simp only [bind_apply]
              rcases (FileAccess.createDirectoryChain parents :
                StateM FileSystem (Except AccessFault Unit)) fs with ⟨cause | ⟨⟩, next⟩
              · rfl
              · simp only [bind_apply, createDirectory_eq]
                cases next.makeDirectory p with
                | ok last => rfl
                | error cause => exact accept_error_eq next p cause
        | _ => exact accept_error_eq fs p _

/-- A chain adds directories along its paths only, and once it has succeeded its first one is
there. -/
theorem createChain_spec (fs : FileSystem) (chain : List Path) :
    AddsAlong chain fs (fs.createChain chain).2 ∧
      ((fs.createChain chain).1 = .ok () → ∀ p, chain.head? = some p → p.text.isEmpty = false →
        (fs.createChain chain).2.kindAt? p = some .directory) := by
  -- a chain calls itself on the directories above, between two tries to make the first one
  induction chain with
  | nil => exact ⟨.refl _ fs, fun _ p hp => by cases hp⟩
  | cons p parents ih =>
      have haccept : ∀ (next : FileSystem) (cause : AccessFault),
          (next.acceptDirectory p cause).1 = .ok () → next.kindAt? p = some .directory := by
        intro next cause hok
        unfold acceptDirectory at hok
        dsimp only at hok
        split at hok
        · assumption
        · cases hok
      have hfirst : ∀ q ∈ [p], q ∈ p :: parents := fun q hq =>
        List.mem_cons.mpr (.inl (List.mem_singleton.mp hq))
      have hparents : ∀ q ∈ parents, q ∈ p :: parents := fun q hq => List.mem_cons_of_mem _ hq
      rw [createChain_cons]
      split
      · rename_i hempty
        exact ⟨.refl _ fs, fun _ q hq hne => by cases hq; simp [hempty] at hne⟩
      · split
        · rename_i next hmake
          obtain ⟨hadds, hkind⟩ := adds_of_makeDirectory hmake
          exact ⟨hadds.mono hfirst, fun _ q hq _ => by cases hq; exact hkind⟩
        · split
          · exact ⟨.refl _ fs, fun hok => by cases hok⟩
          · rcases hchain : fs.createChain parents with ⟨cause | ⟨⟩, next⟩
            · rw [hchain] at ih
              exact ⟨ih.1.mono hparents, fun hok => by cases hok⟩
            · rw [hchain] at ih
              dsimp only
              split
              · rename_i last hmake
                obtain ⟨hadds, hkind⟩ := adds_of_makeDirectory hmake
                exact ⟨(ih.1.mono hparents).trans (hadds.mono hfirst),
                  fun _ q hq _ => by cases hq; exact hkind⟩
              · exact ⟨ih.1.mono hparents, fun hok q hq _ => by cases hq; exact haccept next _ hok⟩
        · exact ⟨.refl _ fs, fun hok q hq _ => by cases hq; exact haccept fs _ hok⟩

theorem createChain_of_kindAt? {p : Path} {parents : List Path}
    (h : p.text.isEmpty = false → fs.kindAt? p = some .directory) :
    fs.createChain (p :: parents) = (.ok (), fs) := by
  rw [createChain_cons]
  split
  · rfl
  · rename_i hne
    have hkind := h (by simpa using hne)
    rw [makeDirectory_of_kindAt? hkind]
    simp only [acceptDirectory, hkind, if_true]

end FileSystem

end MessageCatalog
