import MessageCatalog.Proofs.FileSystem.Spelling

/-!
# Where moves lead

A path makes the moves that its segments spell, so that paths that are spelled alike make the same
ones from the same place (`Path.moves_eq_of_parts`).  Moves lead from one directory to another if
every link on the way is followed (`LeadsTo`).  This knows no limits: any number of links may be
followed, and names and paths may have any length.  Still moves lead to one directory only
(`LeadsTo.unique`).

A walk has limits, so that some moves that lead to a directory end in a fault.  A walk that ends in
no fault ends where its moves lead (`leadsTo_of_followSteps`, `place_eq_of_followSteps`).
-/

namespace MessageCatalog

/-! ### Moves -/

/-- A step that leaves the directory in which it is taken. -/
def Step.isMove : Step → Bool
  | .up => true
  | .into _ => true
  | _ => false

/-- The steps of a path that lead somewhere. -/
def Path.moves (p : Path) : List Step :=
  p.steps.filter Step.isMove

theorem Name.nul_not_mem (name : Name) : '\x00' ∉ name.text.toList := by
  have hvalid := name.valid
  simp only [isName, Bool.and_eq_true, List.all_eq_true, decide_eq_true_eq] at hvalid
  exact fun hmem => (hvalid.2 _ hmem).2 rfl

namespace Path

variable {base p q : Path}

theorem moves_eq_filter_namedSteps (p : Path) : p.moves = p.namedSteps.filter Step.isMove := by
  obtain ⟨tail, htail, hsteps⟩ := p.exists_steps_eq
  rw [moves, hsteps, List.filter_append]
  rcases htail with rfl | rfl <;> exact List.append_nil _

theorem moves_join (hbase : base.text ≠ "") (hp : p.isAbsolute = false) :
    (base.join p).moves = base.moves ++ p.moves := by
  simp only [moves_eq_filter_namedSteps, namedSteps_join hbase hp, List.filter_append]

theorem filter_isMove_names (names : List Name) :
    (names.map Step.into).filter Step.isMove = names.map .into := by
  refine List.filter_eq_self.mpr fun step hstep => ?_
  obtain ⟨name, -, rfl⟩ := List.mem_map.mp hstep
  rfl

theorem moves_joinNames (hbase : base.text ≠ "") (names : List Name) :
    (base.joinNames names).moves = base.moves ++ names.map .into := by
  rw [moves_eq_filter_namedSteps, FileSystem.namedSteps_joinNames hbase, List.filter_append,
    ← moves_eq_filter_namedSteps, filter_isMove_names]

/-! ### Moves of paths that are spelled alike -/

theorem filter_isIdle_segments (s : List Char) :
    (segments (s.drop (leadOf s).length)).filter (fun segment => !isIdle segment) =
      (segments s).filter fun segment => !isIdle segment := by
  unfold leadOf
  split
  · rfl
  · rfl
  · rename_i rest
    rfl
  · rfl

private theorem isMove_of_ofSegment? {segment : List Char} {step : Step}
    (h : Step.ofSegment? segment = some step) : step.isMove = !isIdle segment := by
  unfold Step.ofSegment? at h
  split at h
  · rename_i hdot
    cases h
    rw [hdot]
    rfl
  · rename_i hdot
    split at h
    · rename_i hdots
      cases h
      rw [hdots]
      rfl
    · obtain ⟨name, hname, rfl⟩ := Option.map_eq_some_iff.mp h
      have hne : segment ≠ [] := by
        rintro rfl
        cases hname
      simp [Step.isMove, isIdle, hne, hdot]

private theorem filter_isMove_filterMap (segs : List (List Char)) :
    (segs.filterMap Step.ofSegment?).filter Step.isMove =
      (segs.filter fun segment => !isIdle segment).filterMap Step.ofSegment? := by
  induction segs with
  | nil => rfl
  | cons segment segs ih =>
      cases hstep : Step.ofSegment? segment with
      | none =>
          rw [List.filterMap_cons_none hstep, ih, List.filter_cons]
          split
          · rw [List.filterMap_cons_none hstep]
          · rfl
      | some step =>
          rw [List.filterMap_cons_some hstep, List.filter_cons, List.filter_cons,
            isMove_of_ofSegment? hstep, ih]
          split
          · rw [List.filterMap_cons_some hstep]
          · rfl

/-- The moves of a path are spelled by its segments that lead somewhere. -/
theorem moves_eq_filterMap_parts (p : Path) : p.moves = p.parts.2.filterMap Step.ofSegment? := by
  rw [moves_eq_filter_namedSteps, namedSteps, filter_isMove_filterMap, parts,
    filter_isIdle_segments]

private theorem mem_iff_exists_segment {c : Char} (hc : c ≠ '/') (s : List Char) :
    c ∈ s ↔ ∃ segment ∈ segments s, c ∈ segment := by
  induction s with
  | nil => simp [segments]
  | cons d s ih =>
      rw [List.mem_cons, ih, segments]
      split
      · rename_i hd
        simp [hd, hc]
      · split
        · rename_i hnone
          exact absurd hnone (segments_ne_nil s)
        · rename_i first others hsegments
          simp [hsegments, or_assoc]

/-- A NUL character stands in a segment that leads somewhere. -/
theorem nul_mem_iff (p : Path) :
    '\x00' ∈ p.text.toList ↔ ∃ segment ∈ p.parts.2, '\x00' ∈ segment := by
  rw [mem_iff_exists_segment (by decide), parts, filter_isIdle_segments]
  simp only [List.mem_filter, Bool.not_eq_true', and_assoc]
  refine exists_congr fun segment => and_congr_right fun _ => (and_iff_right_of_imp ?_).symm
  intro hnul
  rw [isIdle, Bool.or_eq_false_iff, beq_eq_false_iff_ne, beq_eq_false_iff_ne]
  exact ⟨List.ne_nil_of_mem hnul, fun hdot => absurd (hdot ▸ hnul) (by decide)⟩

theorem isAbsolute_eq (p : Path) : p.isAbsolute = (p.parts.1 == ['/']) := by
  change (p.text.toList.head? == some '/') = (leadOf p.text.toList == ['/'])
  cases p.text.toList with
  | nil => rfl
  | cons c s =>
      by_cases hslash : c = '/'
      · subst hslash
        rfl
      · have hlead : leadOf (c :: s) ≠ ['/'] := by
          unfold leadOf
          split <;> simp_all
        rw [List.head?_cons, beq_eq_false_iff_ne.mpr hlead,
          beq_eq_false_iff_ne.mpr (by simpa using hslash)]

/-- Paths that are spelled alike start in the same place and make the same moves. -/
theorem moves_eq_of_parts (h : p.parts = q.parts) :
    p.isAbsolute = q.isAbsolute ∧ p.moves = q.moves := by
  rw [isAbsolute_eq, isAbsolute_eq, moves_eq_filterMap_parts, moves_eq_filterMap_parts, h]
  exact ⟨rfl, rfl⟩

end Path

namespace FileSystem

variable {fs : FileSystem} {l k m : Location} {front back moves : List Step}

/-! ### Walks without limits -/

/-- Moves lead from one directory to another: up, down, and at a link to where its target leads
from the directory that holds the link. -/
inductive LeadsTo (fs : FileSystem) : Location → List Step → Location → Prop
  | arrived {l : Location} : LeadsTo fs l [] l
  | up {l k : Location} {moves : List Step} (h : LeadsTo fs l.parent moves k) :
      LeadsTo fs l (.up :: moves) k
  | into {l k : Location} {name : Name} {moves : List Step}
      (hnode : fs.node? (l ++ [name]) = some .directory)
      (h : LeadsTo fs (l ++ [name]) moves k) : LeadsTo fs l (.into name :: moves) k
  | follow {l k : Location} {name : Name} {target : Path} {moves : List Step}
      (hnode : fs.node? (l ++ [name]) = some (.link target))
      (h : LeadsTo fs (if target.isAbsolute then [] else l) (target.moves ++ moves) k) :
      LeadsTo fs l (.into name :: moves) k

namespace LeadsTo

theorem unique (h : fs.LeadsTo l moves k) (h' : fs.LeadsTo l moves m) : k = m := by
  induction h with
  | arrived =>
      cases h'
      rfl
  | up _ ih =>
      cases h' with
      | up h' => exact ih h'
  | into hnode _ ih =>
      cases h' with
      | into _ h' => exact ih h'
      | follow hnode' _ => cases hnode.symm.trans hnode'
  | follow hnode _ ih =>
      cases h' with
      | into hnode' _ => cases hnode.symm.trans hnode'
      | follow hnode' h' =>
          cases hnode.symm.trans hnode'
          exact ih h'

theorem append (h : fs.LeadsTo l front m) (h' : fs.LeadsTo m back k) :
    fs.LeadsTo l (front ++ back) k := by
  induction h with
  | arrived => exact h'
  | up _ ih => exact .up (ih h')
  | into hnode _ ih => exact .into hnode (ih h')
  | follow hnode _ ih =>
      refine .follow hnode ?_
      have hrest := ih h'
      rwa [List.append_assoc] at hrest

private theorem exists_middle (h : fs.LeadsTo l (front ++ back) k) :
    ∃ m, fs.LeadsTo l front m ∧ fs.LeadsTo m back k := by
  -- the induction is on where the moves lead; a link puts its own moves into the front part
  generalize hmoves : front ++ back = moves at h
  induction h generalizing front with
  | @arrived l =>
      obtain ⟨rfl, rfl⟩ := List.append_eq_nil_iff.mp hmoves
      exact ⟨l, .arrived, .arrived⟩
  | @up l k moves h ih =>
      rcases List.append_eq_cons_iff.mp hmoves with ⟨rfl, rfl⟩ | ⟨front, rfl, rfl⟩
      · exact ⟨l, .arrived, .up h⟩
      · obtain ⟨m, hfront, hback⟩ := ih rfl
        exact ⟨m, .up hfront, hback⟩
  | @into l k name moves hnode h ih =>
      rcases List.append_eq_cons_iff.mp hmoves with ⟨rfl, rfl⟩ | ⟨front, rfl, rfl⟩
      · exact ⟨l, .arrived, .into hnode h⟩
      · obtain ⟨m, hfront, hback⟩ := ih rfl
        exact ⟨m, .into hnode hfront, hback⟩
  | @follow l k name target moves hnode h ih =>
      rcases List.append_eq_cons_iff.mp hmoves with ⟨rfl, rfl⟩ | ⟨front, rfl, rfl⟩
      · exact ⟨l, .arrived, .follow hnode h⟩
      · obtain ⟨m, hfront, hback⟩ := ih (List.append_assoc ..)
        exact ⟨m, .follow hnode hfront, hback⟩

/-- Moves behind others lead where they lead from where the others lead. -/
theorem append_iff (h : fs.LeadsTo l front m) :
    fs.LeadsTo l (front ++ back) k ↔ fs.LeadsTo m back k := by
  refine ⟨fun hall => ?_, h.append⟩
  obtain ⟨m', hfront, hback⟩ := hall.exists_middle
  rwa [h.unique hfront]

theorem of_names {names : List Name} (h : fs.node? (l ++ names) = some .directory) :
    fs.LeadsTo l (names.map .into) (l ++ names) := by
  induction names generalizing l with
  | nil =>
      rw [List.append_nil]
      exact .arrived
  | cons name names ih =>
      rw [List.append_cons] at h ⊢
      exact .into (directory_of_append h) (ih h)

/-- Names that lead past no link lead to the directory that they name. -/
theorem eq_of_names {names : List Name} {node : Node} (h : fs.LeadsTo l (names.map .into) k)
    (hnode : fs.node? (l ++ names) = some node) (hlink : ∀ target, node ≠ .link target) :
    k = l ++ names := by
  induction names generalizing l with
  | nil =>
      cases h
      exact (List.append_nil _).symm
  | cons name names ih =>
      rw [List.append_cons] at hnode ⊢
      cases h with
      | into _ h => exact ih h hnode
      | follow hfirst _ =>
          by_cases hnil : names = []
          · rw [hnil, List.append_nil] at hnode
            cases hfirst.symm.trans hnode
            exact absurd rfl (hlink _)
          · cases hfirst.symm.trans (node?_eq_directory_of_append hnil hnode)

end LeadsTo

private theorem node?_parent (h : fs.node? l = some .directory) :
    fs.node? l.parent = some .directory := by
  rcases List.eq_nil_or_concat l with rfl | ⟨front, last, rfl⟩
  · exact h
  · rw [List.concat_eq_append] at h ⊢
    rw [Location.parent, List.dropLast_concat]
    exact node?_eq_directory_of_append (List.cons_ne_nil _ _) h

theorem LeadsTo.node? (h : fs.LeadsTo l moves k) (hl : fs.node? l = some .directory) :
    fs.node? k = some .directory := by
  induction h with
  | arrived => exact hl
  | up _ ih => exact ih (node?_parent hl)
  | into hnode _ ih => exact ih hnode
  | @follow l k name target moves _ _ ih =>
      refine ih ?_
      split
      · rfl
      · exact hl

/-! ### Walks with limits -/

private theorem leadsTo_of_takeSteps {purpose : Purpose}
    {onLink : Location → Path → List Step → Except AccessFault Place} {d : Directory}
    (honLink : ∀ l target steps, onLink l target steps = .ok (.directory d) →
      ∃ k, d = .standing k ∧ fs.LeadsTo (if target.isAbsolute then [] else l)
        (target.moves ++ steps.filter Step.isMove) k)
    {steps : List Step} (h : fs.takeSteps purpose onLink (.standing l) steps = .ok (.directory d)) :
    ∃ k, d = .standing k ∧ fs.LeadsTo l (steps.filter Step.isMove) k := by
  induction steps generalizing l with
  | nil =>
      cases h
      exact ⟨l, rfl, .arrived⟩
  | cons step steps ih =>
      cases step with
      | here => exact ih h
      | asDirectory => exact ih h
      | up =>
          obtain ⟨k, hd, hleads⟩ := ih h
          exact ⟨k, hd, .up hleads⟩
      | into name =>
          -- at a name a walk reaches a directory only through a directory or along a link
          obtain ⟨-, ⟨-, -, hplace⟩ | ⟨_, _, -, -, hplace⟩ | ⟨hnode, h⟩ | ⟨target, hnode, h⟩⟩ :=
            takeSteps_into_cases h
          · cases hplace
          · cases hplace
          · obtain ⟨k, hd, hleads⟩ := ih h
            exact ⟨k, hd, .into hnode hleads⟩
          · obtain ⟨k, hd, hleads⟩ := honLink _ _ _ h
            exact ⟨k, hd, .follow hnode hleads⟩

theorem leadsTo_of_followSteps {purpose : Purpose} {links : Nat} {d : Directory}
    {steps : List Step}
    (h : fs.followSteps purpose links (.standing l) steps = .ok (.directory d)) :
    ∃ k, d = .standing k ∧ fs.LeadsTo l (steps.filter Step.isMove) k := by
  induction links generalizing l steps with
  | zero => exact leadsTo_of_takeSteps (fun _ _ _ hlink => by cases hlink) h
  | succ links ih =>
      refine leadsTo_of_takeSteps (fun l target steps hlink => ?_) h
      rw [Path.moves, ← List.filter_append]
      exact ih hlink

/-- Where the moves of a walk lead to a directory, the walk arrives nowhere else. -/
private theorem place_eq_of_takeSteps {purpose : Purpose}
    {onLink : Location → Path → List Step → Except AccessFault Place} {place : Place}
    (honLink : ∀ l target steps, onLink l target steps = .ok place →
      fs.LeadsTo (if target.isAbsolute then [] else l)
        (target.moves ++ steps.filter Step.isMove) k → place = .directory (.standing k))
    {steps : List Step} (h : fs.takeSteps purpose onLink (.standing l) steps = .ok place)
    (hleads : fs.LeadsTo l (steps.filter Step.isMove) k) : place = .directory (.standing k) := by
  induction steps generalizing l with
  | nil =>
      cases h
      cases hleads
      rfl
  | cons step steps ih =>
      cases step with
      | here => exact ih h hleads
      | asDirectory => exact ih h hleads
      | up =>
          cases hleads with
          | up hleads => exact ih h hleads
      | into name =>
          -- the node at the name is the same for the walk and for where the moves lead
          obtain ⟨-, hcases⟩ := takeSteps_into_cases h
          cases hleads with
          | into hnode hleads =>
              have hrest : fs.takeSteps purpose onLink (.standing (l ++ [name])) steps =
                  .ok place := by
                simpa [hnode] using hcases
              exact ih hrest hleads
          | @follow _ _ _ target _ hnode hleads =>
              have hrest : onLink l target steps = .ok place := by
                simpa [hnode] using hcases
              exact honLink _ _ _ hrest hleads

theorem place_eq_of_followSteps {purpose : Purpose} {links : Nat} {place : Place}
    {steps : List Step} (h : fs.followSteps purpose links (.standing l) steps = .ok place)
    (hleads : fs.LeadsTo l (steps.filter Step.isMove) k) : place = .directory (.standing k) := by
  induction links generalizing l steps with
  | zero => exact place_eq_of_takeSteps (fun _ _ _ hlink => by cases hlink) h hleads
  | succ links ih =>
      refine place_eq_of_takeSteps (fun l target steps hlink hleads => ?_) h hleads
      rw [Path.moves, ← List.filter_append] at hleads
      exact ih hlink hleads

end FileSystem

end MessageCatalog
