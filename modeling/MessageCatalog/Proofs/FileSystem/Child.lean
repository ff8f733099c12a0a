import MessageCatalog.Proofs.FileSystem.Directories

/-!
# Joining a name to a path

A name that is joined to the path of a directory names an entry of that directory: the joined
path has the name as its last segment (`Path.fileName?_join`), and wherever it leads to a file,
the first path leads to a directory in which the entry of that name is the file or a link to it
(`FileSystem.exists_entry_of_fileLocation?`).  Both together are `FileSystem.NamesChild`.
-/

namespace MessageCatalog

/-! ### Segments of a joined path -/

theorem segments_append_slash (a b : List Char) :
    segments (a ++ '/' :: b) = segments a ++ segments b := by
  induction a with
  | nil => simp [segments]
  | cons c a ih =>
      simp only [List.cons_append, segments, ih]
      split
      · rfl
      · cases hsegments : segments a with
        | nil => exact absurd hsegments (segments_ne_nil a)
        | cons first others => rfl

theorem segments_of_slash_not_mem {s : List Char} (h : '/' ∉ s) : segments s = [s] := by
  induction s with
  | nil => rfl
  | cons c s ih =>
      obtain ⟨hc, hs⟩ := List.ne_and_not_mem_of_not_mem_cons h
      rw [segments, if_neg hc.symm, ih hs]

namespace Path

/-- A text that is a segment of its own and leads somewhere. -/
structure IsSegment (s : String) : Prop where
  slash : '/' ∉ s.toList
  ne_empty : s ≠ ""
  ne_dot : s ≠ "."
  ne_dots : s ≠ ".."

variable {base p : Path} {s : String}

theorem IsSegment.relative (hs : IsSegment s) : (⟨s⟩ : Path).isAbsolute = false := by
  rw [isAbsolute, beq_eq_false_iff_ne]
  exact fun hhead => hs.slash (List.mem_of_mem_head? hhead)

/-- A relative path stands behind a slash, which the other path may end in already. -/
theorem exists_toList_join (hbase : base.text ≠ "") (hp : p.isAbsolute = false) :
    ∃ front, (base.join p).text.toList = front ++ '/' :: p.text.toList ∧
      (base.text.toList = front ∨ base.text.toList = front ++ ['/']) := by
  have hempty : base.text.isEmpty = false := by
    rw [Bool.eq_false_iff, ne_eq, String.isEmpty_iff]
    exact hbase
  unfold join
  rw [hp, hempty, if_neg Bool.false_ne_true, Bool.false_or]
  by_cases hlast : base.text.toList.getLast? = some '/'
  · obtain ⟨front, hfront⟩ := List.getLast?_eq_some_iff.mp hlast
    refine ⟨front, ?_, .inr hfront⟩
    rw [if_pos (beq_iff_eq.mpr hlast), String.toList_append, hfront, List.append_assoc]
    rfl
  · refine ⟨base.text.toList, ?_, .inl rfl⟩
    rw [if_neg (mt beq_iff_eq.mp hlast), String.toList_append, String.toList_append,
      List.append_assoc]
    rfl

theorem text_join_ne_empty (hbase : base.text ≠ "") (p : Path) : (base.join p).text ≠ "" := by
  have hlength : base.text.length ≠ 0 := fun hzero => hbase (String.length_eq_zero_iff.mp hzero)
  intro hjoin
  have hzero := congrArg String.length hjoin
  rw [String.length_empty] at hzero
  unfold join at hjoin hzero
  split at hzero
  · rename_i habsolute
    rw [if_pos habsolute] at hjoin
    rw [isAbsolute, hjoin] at habsolute
    cases habsolute
  · split at hzero
    · rw [String.length_append] at hzero
      omega
    · rw [String.length_append, String.length_append] at hzero
      omega

/-- What the joined path has in front of the relative one starts as the other path does. -/
theorem exists_text_join (hbase : base.text ≠ "") (hp : p.isAbsolute = false) :
    ∃ rest, (base.join p).text = base.text ++ rest := by
  obtain ⟨front, hjoin, hfront⟩ := exists_toList_join hbase hp
  rcases hfront with rfl | hfront
  · exact ⟨String.ofList ('/' :: p.text.toList), by
      rw [← String.toList_inj, String.toList_append, hjoin, String.toList_ofList]⟩
  · exact ⟨p.text, by
      rw [← String.toList_inj, String.toList_append, hjoin, hfront, List.append_assoc]
      rfl⟩

theorem isAbsolute_join (hbase : base.text ≠ "") (hp : p.isAbsolute = false) :
    (base.join p).isAbsolute = base.isAbsolute := by
  obtain ⟨rest, hrest⟩ := exists_text_join hbase hp
  have hne : base.text.toList ≠ [] := fun hnil => hbase (by rw [← String.toList_inj, hnil]; rfl)
  rw [isAbsolute, isAbsolute, hrest, String.toList_append, List.head?_append_of_ne_nil _ hne]

theorem not_isIdle (hs : IsSegment s) : isIdle s.toList = false := by
  have hne : s.toList ≠ [] := fun hnil => hs.ne_empty (by rw [← String.toList_inj, hnil]; rfl)
  have hdot : s.toList ≠ ['.'] := fun heq => hs.ne_dot (by rw [← String.toList_inj, heq]; rfl)
  simp [isIdle, hne, hdot]

theorem length_leadOf_le (t : List Char) : (leadOf t).length ≤ 1 := by
  unfold leadOf
  split <;> simp

/-- The lead of a path does not reach beyond a slash that stands behind it. -/
private theorem exists_segments_drop_leadOf (front : List Char) {t : List Char} (ht : '/' ∉ t) :
    ∃ back, segments ((front ++ '/' :: t).drop (leadOf (front ++ '/' :: t)).length) =
      back ++ [t] := by
  by_cases hfront : front = []
  · subst hfront
    exact ⟨[], segments_of_slash_not_mem ht⟩
  · have hlength : (leadOf (front ++ '/' :: t)).length ≤ front.length :=
      Nat.le_trans (length_leadOf_le _) (List.length_pos_iff.mpr hfront)
    refine ⟨segments (front.drop (leadOf (front ++ '/' :: t)).length), ?_⟩
    rw [List.drop_append_of_le_length hlength, segments_append_slash,
      segments_of_slash_not_mem ht]

theorem fileName?_join (hbase : base.text ≠ "") (hs : IsSegment s) :
    (base.join ⟨s⟩).fileName? = some s := by
  obtain ⟨front, hjoin, -⟩ := exists_toList_join hbase hs.relative
  obtain ⟨back, hback⟩ := exists_segments_drop_leadOf front hs.slash
  have htrimmed : trimmedRev (base.join ⟨s⟩).text.toList = s.toList :: back.reverse := by
    rw [trimmedRev, hjoin, hback, List.reverse_append, List.reverse_singleton,
      List.singleton_append, List.dropWhile_cons_of_neg (by rw [not_isIdle hs]; simp)]
  have hdots : s.toList ≠ ['.', '.'] :=
    fun heq => hs.ne_dots (by rw [← String.toList_inj, heq]; rfl)
  unfold fileName?
  rw [htrimmed]
  dsimp only
  rw [if_neg hdots, String.ofList_toList]

/-! ### Steps of a joined path -/

theorem namedSteps_join (hbase : base.text ≠ "") (hp : p.isAbsolute = false) :
    (base.join p).namedSteps = base.namedSteps ++ p.namedSteps := by
  obtain ⟨front, hjoin, hfront⟩ := exists_toList_join hbase hp
  have hbaseSteps : base.namedSteps = (segments front).filterMap Step.ofSegment? := by
    unfold namedSteps
    rcases hfront with hfront | hfront
    · rw [hfront]
    · -- the empty segment behind a slash at the end is no step
      rw [hfront, segments_append_slash, List.filterMap_append]
      exact List.append_nil _
  rw [namedSteps, hjoin, segments_append_slash, List.filterMap_append, hbaseSteps, namedSteps]

theorem namedSteps_segment (hs : IsSegment s) :
    (⟨s⟩ : Path).namedSteps = ((Name.ofString? s).map Step.into).toList := by
  have hdot : s.toList ≠ ['.'] := fun heq => hs.ne_dot (by rw [← String.toList_inj, heq]; rfl)
  have hdots : s.toList ≠ ['.', '.'] :=
    fun heq => hs.ne_dots (by rw [← String.toList_inj, heq]; rfl)
  have hstep : Step.ofSegment? s.toList = (Name.ofString? s).map .into := by
    rw [Step.ofSegment?, if_neg hdot, if_neg hdots, String.ofList_toList]
  rw [namedSteps, segments_of_slash_not_mem hs.slash, List.filterMap_cons, List.filterMap_nil,
      hstep]
  cases (Name.ofString? s).map Step.into <;> rfl

end Path

namespace FileSystem

variable {fs : FileSystem} {base : Path} {s : String} {l : Location}

theorem pathFault?_eq_none_iff {p : Path} :
    pathFault? p = none ↔ '\x00' ∉ p.text.toList ∧ p.text ≠ "" ∧ p.isTooLong = false := by
  unfold pathFault? textFault?
  by_cases hnul : '\x00' ∈ p.text.toList
  · simp [hnul]
  · by_cases hempty : p.text = ""
    · simp [hempty]
    · cases p.isTooLong <;> simp [hnul, hempty]

theorem text_ne_empty_of_kindAt? {p : Path} {kind : FileKind} (h : fs.kindAt? p = some kind) :
    p.text ≠ "" := by
  unfold kindAt? at h
  cases hresolve : fs.resolve .lookup p with
  | ok place => exact (pathFault?_eq_none_iff.mp (pathFault?_of_resolve hresolve)).2.1
  | error fault =>
      rw [hresolve] at h
      cases h

private theorem pathFault?_of_join (hbase : base.text ≠ "") (hs : Path.IsSegment s)
    (h : pathFault? (base.join ⟨s⟩) = none) : pathFault? base = none := by
  obtain ⟨rest, hrest⟩ := Path.exists_text_join hbase hs.relative
  obtain ⟨hnul, -, hlong⟩ := pathFault?_eq_none_iff.mp h
  refine pathFault?_eq_none_iff.mpr ⟨fun hmem => hnul ?_, hbase, ?_⟩
  · rw [hrest, String.toList_append]
    exact List.mem_append_left _ hmem
  · unfold Path.isTooLong at hlong ⊢
    rw [decide_eq_false_iff_not] at hlong ⊢
    rw [hrest, String.utf8ByteSize_append] at hlong
    omega

/-- A path that leads to a directory with a slash at its end leads there without it. -/
private theorem takeSteps_of_asDirectory
    {onLink : Location → Path → List Step → Except AccessFault Place} {d' : Directory}
    (honLink : ∀ l target steps, onLink l target (steps ++ [.asDirectory]) = .ok (.directory d') →
      onLink l target steps = .ok (.directory d'))
    {d : Directory} {steps : List Step}
    (h : fs.takeSteps .lookup onLink d (steps ++ [.asDirectory]) = .ok (.directory d')) :
    fs.takeSteps .lookup onLink d steps = .ok (.directory d') := by
  induction steps generalizing d with
  | nil => exact h
  | cons step steps ih =>
      cases step with
      | here => exact ih h
      | asDirectory => exact ih h
      | up => exact ih h
      | into name =>
          -- a walk that ends in a directory has met a directory or a link here
          obtain ⟨hname, ⟨-, -, hplace⟩ | ⟨_, _, -, -, hplace⟩ | ⟨hnode, h⟩ | ⟨target, hnode, h⟩⟩ :=
            takeSteps_into_cases h
          · cases hplace
          · cases hplace
          · rw [nameFault?_lookup d name _ steps] at hname
            rw [takeSteps_into_directory hname hnode]
            exact ih h
          · rw [nameFault?_lookup d name _ steps] at hname
            rw [takeSteps_into_link hname hnode]
            exact honLink _ _ _ h

theorem followSteps_of_asDirectory {links : Nat} {d d' : Directory} {steps : List Step}
    (h : fs.followSteps .lookup links d (steps ++ [.asDirectory]) = .ok (.directory d')) :
    fs.followSteps .lookup links d steps = .ok (.directory d') := by
  induction links generalizing d steps with
  | zero => exact takeSteps_of_asDirectory (fun _ _ _ hlink => by cases hlink) h
  | succ links ih =>
      refine takeSteps_of_asDirectory (fun k target steps hlink => ?_) h
      rw [← List.append_assoc] at hlink
      exact ih hlink

private theorem exists_name (hs : Path.IsSegment s) (hnul : '\x00' ∉ s.toList) :
    ∃ name, Name.ofString? s = some name ∧ name.text = s := by
  have hchars : ∀ c ∈ s.toList, c ≠ '/' ∧ c ≠ '\x00' := by
    intro c hc
    exact ⟨fun heq => hs.slash (heq ▸ hc), fun heq => hnul (heq ▸ hc)⟩
  have hvalid : isName s = true := by
    simpa [isName, hs.ne_empty, hs.ne_dot, hs.ne_dots] using hchars
  exact ⟨⟨s, hvalid⟩, by rw [Name.ofString?, dif_pos hvalid], rfl⟩

theorem start_join (fs : FileSystem) {p : Path} (hbase : base.text ≠ "")
    (hp : p.isAbsolute = false) : fs.start (base.join p) = fs.start base := by
  rw [start, start, Path.isAbsolute_join hbase hp]

theorem exists_namedSteps_join (hbase : base.text ≠ "") (hs : Path.IsSegment s)
    (hfault : pathFault? (base.join ⟨s⟩) = none) :
    ∃ name, name.text = s ∧ (base.join ⟨s⟩).namedSteps = base.namedSteps ++ [.into name] := by
  obtain ⟨front, hjoin, -⟩ := Path.exists_toList_join hbase hs.relative
  have hnul : '\x00' ∉ s.toList := by
    intro hmem
    refine (pathFault?_eq_none_iff.mp hfault).1 ?_
    rw [hjoin]
    exact List.mem_append_right _ (List.mem_cons_of_mem _ hmem)
  obtain ⟨name, hname, htext⟩ := exists_name hs hnul
  refine ⟨name, htext, ?_⟩
  rw [Path.namedSteps_join hbase hs.relative, Path.namedSteps_segment hs, hname]
  rfl

/-- The entry that a joined path names lies in the directory to which the first path leads. -/
private theorem exists_directory_of_resolveEntry (hbase : base.text ≠ "") (hs : Path.IsSegment s)
    {entry : Option Location} (h : fs.resolveEntry (base.join ⟨s⟩) = .ok entry) :
    ∃ d name, name.text = s ∧ fs.resolve .lookup base = .ok (.directory d) ∧
      entry = some (d.location ++ [name]) := by
  have hfault : pathFault? (base.join ⟨s⟩) = none := pathFault?_of_resolveEntry h
  obtain ⟨name, htext, hsteps⟩ := exists_namedSteps_join hbase hs hfault
  unfold resolveEntry at h
  simp only [hfault, Path.filter_steps, hsteps, List.reverse_append, List.reverse_singleton,
    List.singleton_append, List.reverse_reverse, fs.start_join hbase hs.relative] at h
  split at h
  · cases h
  · rename_i d hwalk
    -- the directory is looked up as if a slash stood behind the first path
    have hresolve : fs.resolve .lookup base = .ok (.directory d) := by
      obtain ⟨tail, htail, hbaseSteps⟩ := base.exists_steps_eq
      rw [resolve, pathFault?_of_join hbase hs hfault, hbaseSteps]
      rcases htail with rfl | rfl
      · rw [List.append_nil]
        exact followSteps_of_asDirectory hwalk
      · exact hwalk
    split at h
    · cases h
    · cases h
      exact ⟨d, name, htext, hresolve, rfl⟩
  · cases h

/-- A step into a name that ends at a file has met no fault there, and the file or a link. -/
private theorem eq_of_followSteps_into {links : Nat} {d : Directory} {name : Name}
    {tail : List Step} {stamp : Nat} {bytes : ByteArray} (htail : tail = [] ∨ tail = [.asDirectory])
    (h : fs.followSteps .lookup links d (.into name :: tail) = .ok (.file l stamp bytes)) :
    Purpose.lookup.nameFault? d name [] = none ∧
      ((∀ target, fs.node? (d.location ++ [name]) ≠ some (.link target)) →
        l = d.location ++ [name]) := by
  obtain ⟨onLink, hwalk⟩ := fs.exists_takeSteps .lookup links
  rw [hwalk] at h
  obtain ⟨hname, hcases⟩ := takeSteps_into_cases h
  refine ⟨nameFault?_lookup d name tail [] ▸ hname, fun hlink => ?_⟩
  obtain ⟨-, -, hplace⟩ | ⟨_, _, -, -, hplace⟩ | ⟨-, h⟩ | ⟨target, hnode, -⟩ := hcases
  · cases hplace
  · cases hplace
    rfl
  · -- nothing but a slash follows the name, and so a directory is where the walk ends
    rcases htail with rfl | rfl <;> cases h
  · exact absurd hnode (hlink target)

/-- **Wherever a joined path leads to a file, the first path leads to a directory with an entry of
that name**, which is the file unless it is a link. -/
theorem exists_entry_of_fileLocation? (hbase : base.text ≠ "") (hs : Path.IsSegment s)
    (h : fs.fileLocation? (base.join ⟨s⟩) = some l) :
    ∃ d name, name.text = s ∧ fs.resolve .lookup base = .ok (.directory d) ∧
      fs.resolveEntry (base.join ⟨s⟩) = .ok (some (d.location ++ [name])) ∧
      ((∀ target, fs.node? (d.location ++ [name]) ≠ some (.link target)) →
        l = d.location ++ [name]) := by
  obtain ⟨stamp, bytes, hresolve⟩ := fileLocation?_eq_some_iff.mp h
  have hfault := pathFault?_of_resolve hresolve
  obtain ⟨name, htext, hsteps⟩ := exists_namedSteps_join hbase hs hfault
  rcases fs.resolve_and_resolveEntry hfault hsteps with ⟨fault, herror, -⟩ |
    ⟨links, d, tail, htail, hlast, hentry⟩
  · rw [herror] at hresolve
    cases hresolve
  · rw [hlast] at hresolve
    -- the file and the entry are told by a step into the name, taken from one directory
    obtain ⟨hname, hplace⟩ := eq_of_followSteps_into htail hresolve
    rw [entryIn, hname] at hentry
    obtain ⟨d', name', htext', hdirectory, hsame⟩ :=
      exists_directory_of_resolveEntry hbase hs hentry
    rw [Option.some_inj] at hsame
    rw [hsame] at hentry hplace
    exact ⟨d', name', htext', hdirectory, hentry, hplace⟩

/-- A path with a name for its last segment that leads to files only through the entry of that
name in the directory of another path. -/
structure NamesChild (p base : Path) (s : String) : Prop where
  fileName? : p.fileName? = some s
  entry : ∀ {fs : FileSystem} {l : Location}, fs.fileLocation? p = some l →
    ∃ d name, name.text = s ∧ fs.resolve .lookup base = .ok (.directory d) ∧
      fs.resolveEntry p = .ok (some (d.location ++ [name])) ∧
      ((∀ target, fs.node? (d.location ++ [name]) ≠ some (.link target)) →
        l = d.location ++ [name])

theorem namesChild_join (hbase : base.text ≠ "") (hs : Path.IsSegment s) :
    NamesChild (base.join ⟨s⟩) base s where
  fileName? := Path.fileName?_join hbase hs
  entry := exists_entry_of_fileLocation? hbase hs

end FileSystem

end MessageCatalog
