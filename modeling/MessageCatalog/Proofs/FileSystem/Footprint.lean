import MessageCatalog.Proofs.FileSystem.Directories

/-!
# What a look-up depends on

A look-up reads the nodes on its way and no others: those of the names that it comes by, on the way
that links point to as well (`footprint`).  In two file systems with the same nodes there and the
same working directory it ends alike (`resolve_congr`), whatever else they hold.
-/

namespace MessageCatalog.FileSystem

variable {fs fs' : FileSystem} {purpose : Purpose} {d : Directory} {steps : List Step}

/-- The locations whose nodes are read when steps are taken.  At a link it goes on with `onLink`. -/
def stepsFootprint (fs : FileSystem) (purpose : Purpose)
    (onLink : Location → Path → List Step → List Location) : Directory → List Step → List Location
  | _, [] => []
  | d, .here :: steps => stepsFootprint fs purpose onLink d steps
  | d, .asDirectory :: steps => stepsFootprint fs purpose onLink d steps
  | d, .up :: steps => stepsFootprint fs purpose onLink d.parent steps
  | d, .into name :: steps =>
    match purpose.nameFault? d name steps with
    | some _ => []
    | none =>
      let l := d.location ++ [name]
      l :: match fs.node? l with
        | some .directory => stepsFootprint fs purpose onLink (.standing l) steps
        | some (.link target) => onLink d.location target steps
        | _ => []

/-- The locations whose nodes are read when steps are taken and links followed. -/
def walkFootprint (fs : FileSystem) (purpose : Purpose) :
    Nat → Directory → List Step → List Location
  | 0 => fs.stepsFootprint purpose fun _ _ _ => []
  | links + 1 => fs.stepsFootprint purpose fun l target steps =>
    walkFootprint fs purpose links (.standing (if target.isAbsolute then [] else l))
      (target.steps ++ steps)

/-- The locations whose nodes are read when a path is looked up. -/
def footprint (fs : FileSystem) (purpose : Purpose) (p : Path) : List Location :=
  match pathFault? p with
  | some _ => []
  | none => fs.walkFootprint purpose maxLinks (fs.start p) p.steps

/-- Both file systems have the same nodes at some locations. -/
def AgreeOn (locations : List Location) (fs fs' : FileSystem) : Prop :=
  ∀ l ∈ locations, fs'.node? l = fs.node? l

instance (locations : List Location) (fs fs' : FileSystem) :
    Decidable (AgreeOn locations fs fs') :=
  inferInstanceAs (Decidable (∀ l ∈ locations, fs'.node? l = fs.node? l))

private theorem takeSteps_congr
    {onLink onLink' : Location → Path → List Step → Except AccessFault Place}
    {linkFootprint : Location → Path → List Step → List Location}
    (honLink : ∀ l target steps, AgreeOn (linkFootprint l target steps) fs fs' →
      onLink' l target steps = onLink l target steps)
    (hagree : AgreeOn (fs.stepsFootprint purpose linkFootprint d steps) fs fs') :
    fs'.takeSteps purpose onLink' d steps = fs.takeSteps purpose onLink d steps := by
  induction steps generalizing d with
  | nil => rfl
  | cons step steps ih =>
      cases step with
      | here => exact ih hagree
      | asDirectory => exact ih hagree
      | up => exact ih hagree
      | into name =>
          simp only [stepsFootprint] at hagree
          simp only [takeSteps]
          cases hname : purpose.nameFault? d name steps with
          | some fault => rfl
          | none =>
              simp only [hname] at hagree
              -- the node that is met here is in the footprint and tells where the rest of it lies
              obtain ⟨hnode, hothers⟩ := List.forall_mem_cons.mp hagree
              rw [hnode]
              cases hfound : fs.node? (d.location ++ [name]) with
              | none => rfl
              | some node =>
                  rw [hfound] at hothers
                  cases node with
                  | directory => exact ih hothers
                  | file stamp bytes => rfl
                  | link target => exact honLink _ _ _ hothers

private theorem followSteps_congr {links : Nat}
    (hagree : AgreeOn (fs.walkFootprint purpose links d steps) fs fs') :
    fs'.followSteps purpose links d steps = fs.followSteps purpose links d steps := by
  induction links generalizing d steps with
  | zero => exact takeSteps_congr (fun _ _ _ _ => rfl) hagree
  | succ links ih => exact takeSteps_congr (fun _ _ _ hlink => ih hlink) hagree

/-- **A look-up depends on the nodes of its footprint alone.** -/
theorem resolve_congr {p : Path} (hworking : fs'.workingDirectory = fs.workingDirectory)
    (hagree : AgreeOn (fs.footprint purpose p) fs fs') :
    fs'.resolve purpose p = fs.resolve purpose p := by
  have hstart : fs'.start p = fs.start p := by
    rw [start, start, hworking]
  unfold resolve footprint at *
  cases hfault : pathFault? p with
  | some fault => rfl
  | none =>
      rw [hfault] at hagree
      rw [hstart]
      exact followSteps_congr hagree

theorem kindAt?_congr {p : Path} (hworking : fs'.workingDirectory = fs.workingDirectory)
    (hagree : AgreeOn (fs.footprint .lookup p) fs fs') : fs'.kindAt? p = fs.kindAt? p := by
  rw [kindAt?, resolve_congr hworking hagree]
  rfl

end MessageCatalog.FileSystem
