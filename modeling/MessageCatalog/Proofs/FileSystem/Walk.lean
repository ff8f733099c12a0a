import MessageCatalog.Proofs.FileSystem.Child

/-!
# What a walk finds

The paths that a walk finds are those of the root with names joined to them.  Such a path leads down
from the directory of the root to a file, unless it cannot be used at all, because it or one of
its names is too long.  Neither depends on what is added to the file system later on, so that the
path leads to the same file for ever after or to none (`fileLocation?_of_mem_filesFrom`).
-/

namespace MessageCatalog

theorem Name.isSegment (name : Name) : Path.IsSegment name.text := by
  have hvalid := name.valid
  simp only [isName, Bool.and_eq_true, bne_iff_ne, ne_eq, List.all_eq_true,
    decide_eq_true_eq] at hvalid
  obtain ⟨⟨⟨hempty, hdot⟩, hdots⟩, hchars⟩ := hvalid
  exact ⟨fun hslash => (hchars _ hslash).1 rfl, hempty, hdot, hdots⟩

/-- The path with names joined to it one after the other. -/
def Path.joinNames (base : Path) (names : List Name) : Path :=
  names.foldl (fun p name => p.join ⟨name.text⟩) base

namespace FileSystem

variable {fs fs' : FileSystem} {root p : Path} {names : List Name} {walked : List Path}

/-! ### Steps behind a directory -/

/-- A walk that leads to a directory goes on from there, with no more links to follow. -/
private theorem takeSteps_append_of_directory {links : Nat}
    {onLink : Location → Path → List Step → Except AccessFault Place} {d₁ : Directory}
    (hwalk : fs.followSteps .lookup links = fs.takeSteps .lookup onLink)
    (honLink : ∀ l target front, onLink l target front = .ok (.directory d₁) →
      ∃ links' ≤ links, ∀ steps,
        onLink l target (front ++ steps) = fs.followSteps .lookup links' d₁ steps)
    {d : Directory} {front : List Step}
    (h : fs.takeSteps .lookup onLink d front = .ok (.directory d₁)) :
    ∃ links' ≤ links, ∀ steps, fs.takeSteps .lookup onLink d (front ++ steps) =
      fs.followSteps .lookup links' d₁ steps := by
  -- the walk stays the same along its front, and a link hands it over with fewer links to follow
  induction front generalizing d with
  | nil =>
      cases h
      exact ⟨links, Nat.le_refl _, fun steps => by rw [hwalk]; rfl⟩
  | cons step front ih =>
      cases step with
      | here => exact ih h
      | asDirectory => exact ih h
      | up => exact ih h
      | into name =>
          obtain ⟨hname, ⟨-, -, hplace⟩ | ⟨_, _, -, -, hplace⟩ | ⟨hnode, h⟩ | ⟨target, hnode, h⟩⟩ :=
            takeSteps_into_cases h
          · cases hplace
          · cases hplace
          · obtain ⟨links', hle, hrest⟩ := ih h
            refine ⟨links', hle, fun steps => ?_⟩
            rw [nameFault?_lookup d name front (front ++ steps)] at hname
            rw [List.cons_append, takeSteps_into_directory hname hnode, hrest]
          · obtain ⟨links', hle, hrest⟩ := honLink _ _ _ h
            refine ⟨links', hle, fun steps => ?_⟩
            rw [nameFault?_lookup d name front (front ++ steps)] at hname
            rw [List.cons_append, takeSteps_into_link hname hnode, hrest]

theorem followSteps_append_of_directory {links : Nat} {d d₁ : Directory} {front : List Step}
    (h : fs.followSteps .lookup links d front = .ok (.directory d₁)) :
    ∃ links' ≤ links, ∀ steps, fs.followSteps .lookup links d (front ++ steps) =
      fs.followSteps .lookup links' d₁ steps := by
  induction links generalizing d front with
  | zero =>
      exact takeSteps_append_of_directory (fs.followSteps_zero .lookup)
        (fun _ _ _ hlink => by cases hlink) h
  | succ links ih =>
      refine takeSteps_append_of_directory (fs.followSteps_succ .lookup links)
        (fun l target front hlink => ?_) h
      obtain ⟨links', hle, hwalk⟩ := ih hlink
      refine ⟨links', Nat.le_succ_of_le hle, fun steps => ?_⟩
      rw [← List.append_assoc]
      exact hwalk steps

/-! ### Steps that meet no fault -/

theorem nameFault?_eq_none {l : Location} {name : Name}
    (hname : name.text.utf8ByteSize ≤ maxNameBytes) (steps : List Step) :
    Purpose.lookup.nameFault? (.standing l) name steps = none := by
  have hstands : (Directory.standing l).Stands := rfl
  rw [Purpose.nameFault?, if_neg (by simp), if_neg (not_not.mpr hstands), if_neg (by omega),
    if_neg (by simp)]

/-- What lies below a location lies below a directory. -/
theorem node?_eq_directory_of_append {l m : Location} {node : Node} (hm : m ≠ [])
    (h : fs.node? (l ++ m) = some node) : fs.node? l = some .directory := by
  have hne : l ++ m ≠ [] := List.append_ne_nil_of_right_ne_nil l hm
  rw [node?, if_neg hne] at h
  have hparent := (fs.rooted h).2
  rw [Location.parent, List.dropLast_append_of_ne_nil hm] at hparent
  exact hasDirectory_iff.mp (hparent.of_append fs.rooted)

theorem directory_of_append {l m : Location} (h : fs.node? (l ++ m) = some .directory) :
    fs.node? l = some .directory :=
  hasDirectory_iff.mp ((hasDirectory_iff.mpr h).of_append fs.rooted)

theorem takeSteps_into_names {l : Location}
    (hnames : ∀ name ∈ names, name.text.utf8ByteSize ≤ maxNameBytes)
    (hnode : fs.node? (l ++ names) = some .directory) (tail : List Step)
    (onLink : Location → Path → List Step → Except AccessFault Place) :
    fs.takeSteps .lookup onLink (.standing l) (names.map .into ++ tail) =
      fs.takeSteps .lookup onLink (.standing (l ++ names)) tail := by
  induction names generalizing l with
  | nil => rw [List.append_nil]; rfl
  | cons name names ih =>
      obtain ⟨hname, hnames⟩ := List.forall_mem_cons.mp hnames
      rw [List.append_cons] at hnode ⊢
      exact (takeSteps_into_directory (nameFault?_eq_none hname _) (directory_of_append hnode)
        onLink).trans (ih hnames hnode)

/-! ### Steps down to a file -/

theorem namedSteps_joinNames (hroot : root.text ≠ "") (names : List Name) :
    (root.joinNames names).namedSteps = root.namedSteps ++ names.map .into := by
  induction names generalizing root with
  | nil => exact (List.append_nil _).symm
  | cons name names ih =>
      have hname : Name.ofString? name.text = some name := dif_pos name.valid
      have hjoined : (root.joinNames (name :: names)).namedSteps =
          (root.join ⟨name.text⟩).namedSteps ++ names.map .into :=
        ih (Path.text_join_ne_empty hroot _)
      rw [hjoined, Path.namedSteps_join hroot name.isSegment.relative,
        Path.namedSteps_segment name.isSegment, hname, List.append_assoc]
      rfl

theorem start_joinNames (fs : FileSystem) (hroot : root.text ≠ "") (names : List Name) :
    fs.start (root.joinNames names) = fs.start root := by
  induction names generalizing root with
  | nil => rfl
  | cons name names ih =>
      exact (ih (Path.text_join_ne_empty hroot _)).trans
        (fs.start_join hroot name.isSegment.relative)

/-- The steps that a path names lead where the path leads, if that is a directory. -/
theorem followSteps_namedSteps_of_resolve {d : Directory}
    (h : fs.resolve .lookup root = .ok (.directory d)) :
    fs.followSteps .lookup maxLinks (fs.start root) root.namedSteps = .ok (.directory d) := by
  obtain ⟨tail, htail, hsteps⟩ := root.exists_steps_eq
  rw [resolve, pathFault?_of_resolve h, hsteps] at h
  rcases htail with rfl | rfl
  · rwa [List.append_nil] at h
  · exact followSteps_of_asDirectory h

theorem mem_filesAmong_iff {nodes : List (Path × Node)} (h : filesAmong nodes = .ok walked) :
    p ∈ walked ↔ ∃ stamp bytes, (p, .file stamp bytes) ∈ nodes := by
  induction nodes generalizing walked with
  | nil =>
      cases h
      simp
  | cons entry nodes ih =>
      obtain ⟨q, node⟩ := entry
      cases node with
      | directory =>
          simp only [filesAmong] at h
          split at h
          · cases h
          · simp [ih h]
      | link target => simp [ih h]
      | file stamp bytes =>
          cases hothers : filesAmong nodes with
          | error fault => simp [filesAmong, hothers, Except.map] at h
          | ok others =>
              rw [filesAmong, hothers] at h
              cases h
              simp [ih hothers, exists_or]

/-- The nodes below a location. -/
def nodesUnder (fs : FileSystem) (l : Location) : List (Location × Node) :=
  (fs.nodesFrom l).filter fun entry => entry.1 ≠ l

theorem nodesBelow_eq_map (fs : FileSystem) (l : Location) (root : Path) :
    fs.nodesBelow l root =
      (fs.nodesUnder l).map fun entry => (root.joinNames (entry.1.drop l.length), entry.2) := rfl

theorem mem_nodesUnder_iff {l k : Location} {node : Node} :
    (k, node) ∈ fs.nodesUnder l ↔
      ∃ names, names ≠ [] ∧ k = l ++ names ∧ fs.node? (l ++ names) = some node := by
  unfold nodesUnder nodesFrom
  simp only [List.mem_filter, decide_eq_true_eq]
  constructor
  · rintro ⟨⟨hmem, hbelow⟩, hk⟩
    obtain ⟨names, rfl⟩ := List.isPrefixOf_iff_prefix.mp hbelow
    have hne : names ≠ [] := by
      rintro rfl
      exact hk (List.append_nil l)
    refine ⟨names, hne, rfl, ?_⟩
    rw [node?, if_neg (List.append_ne_nil_of_right_ne_nil l hne)]
    exact Std.TreeMap.mem_toList_iff_getElem?_eq_some.mp hmem
  · rintro ⟨names, hne, rfl, hnode⟩
    rw [node?, if_neg (List.append_ne_nil_of_right_ne_nil l hne)] at hnode
    exact ⟨⟨Std.TreeMap.mem_toList_iff_getElem?_eq_some.mpr hnode,
      List.isPrefixOf_iff_prefix.mpr (List.prefix_append ..)⟩, by simpa using hne⟩

/-- What lies below a location has a path of names joined to the root. -/
theorem mem_nodesBelow_iff {l : Location} {node : Node} :
    (p, node) ∈ fs.nodesBelow l root ↔
      ∃ names, names ≠ [] ∧ p = root.joinNames names ∧ fs.node? (l ++ names) = some node := by
  rw [nodesBelow_eq_map, List.mem_map]
  constructor
  · rintro ⟨⟨k, node'⟩, hmem, heq⟩
    obtain ⟨rfl, rfl⟩ := Prod.mk.inj heq
    obtain ⟨names, hne, rfl, hnode⟩ := mem_nodesUnder_iff.mp hmem
    exact ⟨names, hne, by rw [List.drop_left], hnode⟩
  · rintro ⟨names, hne, rfl, hnode⟩
    exact ⟨(l ++ names, node), mem_nodesUnder_iff.mpr ⟨names, hne, rfl, hnode⟩,
      by rw [List.drop_left]⟩

/-- A walk that succeeds starts at a file, which it lists on its own, at a directory, below which
it lists the files, or at a directory that is gone, in which there is nothing. -/
theorem filesFrom_cases (h : fs.filesFrom root = .ok walked) :
    (∃ l stamp bytes, fs.resolve .lookup root = .ok (.file l stamp bytes) ∧
        walked = if fs.endsInLink root then [] else [root]) ∨
      (∃ l, fs.resolve .lookup root = .ok (.directory (.standing l)) ∧
        filesAmong (fs.nodesBelow l root) = .ok walked) ∨
      ∃ d, fs.resolve .lookup root = .ok (.directory d) ∧ ¬ d.Stands ∧ walked = [] := by
  unfold filesFrom at h
  split at h
  · cases h
  · cases h
  · rename_i hresolve
    cases h
    exact .inl ⟨_, _, _, hresolve, rfl⟩
  · rename_i d hresolve
    split at h
    · rename_i hstands
      obtain ⟨l, removed⟩ := d
      obtain rfl : removed = 0 := hstands
      exact .inr (.inl ⟨l, hresolve, h⟩)
    · rename_i hgone
      cases h
      exact .inr (.inr ⟨d, hresolve, hgone, rfl⟩)

end FileSystem

end MessageCatalog
