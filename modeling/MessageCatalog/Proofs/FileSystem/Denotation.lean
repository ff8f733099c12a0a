import MessageCatalog.Proofs.FileSystem.Moves

/-!
# What paths denote

A path denotes the directory to which its moves lead from where it starts (`Denotes`), however many
links there are on the way and however long it is.  So a path that denotes a directory denotes only
that one (`Denotes.unique`).

Telling the absolute path of a directory has limits, so that some paths that denote a directory
cannot be told.  What is told is what is denoted (`location_eq_of_denotes`, `denotes_of_told`), and
no directory with an absolute path that is too long is told (`Denotes.not_told`).
-/

namespace MessageCatalog

namespace FileSystem

variable {fs : FileSystem} {base p q : Path} {l k m : Location}

/-! ### Denotation -/

/-- A path denotes a directory: it is a text that can be a path, and its moves lead from the
directory in which it starts to that one. -/
structure Denotes (fs : FileSystem) (p : Path) (k : Location) : Prop where
  text : textFault? p = none
  stands : (fs.start p).Stands
  leads : fs.LeadsTo (fs.start p).location p.moves k

theorem textFault?_eq_none_iff : textFault? p = none ↔ '\x00' ∉ p.text.toList ∧ p.text ≠ "" := by
  unfold textFault?
  by_cases hnul : '\x00' ∈ p.text.toList
  · simp [hnul]
  · by_cases hempty : p.text = "" <;> simp [hnul, hempty]

theorem eq_standing_of_stands {d : Directory} (h : d.Stands) : d = .standing d.location := by
  obtain ⟨l, removed⟩ := d
  obtain rfl : removed = 0 := h
  rfl

theorem node?_start (fs : FileSystem) (p : Path) :
    fs.node? (fs.start p).location = some .directory := by
  unfold start
  split
  · rfl
  · exact hasDirectory_iff.mp fs.working

namespace Denotes

theorem unique (h : fs.Denotes p k) (h' : fs.Denotes p m) : k = m :=
  h.leads.unique h'.leads

theorem node? (h : fs.Denotes p k) : fs.node? k = some .directory :=
  h.leads.node? (fs.node?_start p)

/-- A path that denotes a directory leads there or nowhere. -/
theorem place_eq (h : fs.Denotes p k) {purpose : Purpose} {place : Place}
    (hresolve : fs.resolve purpose p = .ok place) : place = .directory (.standing k) := by
  rw [resolve, pathFault?_of_resolve hresolve, eq_standing_of_stands h.stands] at hresolve
  exact place_eq_of_followSteps hresolve h.leads

end Denotes

/-! ### Telling what is denoted -/

/-- The absolute path of what a path leads to can be told. -/
def Told (fs : FileSystem) (p : Path) : Prop :=
  ∃ l, fs.canonicalLocation p = .ok l

/-- What is told is where a walk ends, at a directory or at a file. -/
theorem exists_walk_of_told (h : fs.canonicalLocation p = .ok k) :
    textFault? p = none ∧ (fs.start p).Stands ∧ ∃ place,
      fs.followSteps .canonical maxLinks (.standing (fs.start p).location) p.steps = .ok place ∧
      (place = .directory (.standing k) ∨ ∃ stamp bytes, place = .file k stamp bytes) := by
  unfold canonicalLocation at h
  split at h
  · cases h
  · rename_i htext
    split at h
    · cases h
    · rename_i hstands
      have hstands := not_not.mp hstands
      refine ⟨htext, hstands, ?_⟩
      rw [eq_standing_of_stands hstands] at h
      split at h
      · rename_i d hwalk
        cases h
        obtain ⟨k, rfl, -⟩ := leadsTo_of_followSteps hwalk
        exact ⟨_, hwalk, .inl rfl⟩
      · rename_i l stamp bytes hwalk
        cases h
        exact ⟨_, hwalk, .inr ⟨stamp, bytes, rfl⟩⟩
      · cases h
      · cases h

theorem location_eq_of_denotes (h : fs.Denotes p k) (htold : fs.canonicalLocation p = .ok m) :
    m = k := by
  obtain ⟨-, -, place, hwalk, hplace⟩ := exists_walk_of_told htold
  have hdirectory := place_eq_of_followSteps hwalk h.leads
  rcases hplace with rfl | ⟨stamp, bytes, rfl⟩
  · cases hdirectory
    rfl
  · cases hdirectory

/-- What is told of a path is the location of a file, or that of the directory it denotes. -/
theorem denotes_or_file_of_told (htold : fs.canonicalLocation p = .ok k) :
    fs.Denotes p k ∨ ∃ stamp bytes, fs.node? k = some (.file stamp bytes) := by
  obtain ⟨htext, hstands, place, hwalk, rfl | ⟨stamp, bytes, rfl⟩⟩ := exists_walk_of_told htold
  · obtain ⟨k', hk, hleads⟩ := leadsTo_of_followSteps hwalk
    cases hk
    exact .inl ⟨htext, hstands, hleads⟩
  · have hplace := placeIn?_of_followSteps hwalk
    refine .inr ⟨stamp, bytes, ?_⟩
    simp only [placeIn?, placeAt?] at hplace
    split at hplace <;> simp_all

theorem denotes_of_told (htold : fs.canonicalLocation p = .ok k)
    (hnode : fs.node? k = some .directory) : fs.Denotes p k := by
  rcases denotes_or_file_of_told htold with hdenotes | ⟨stamp, bytes, hfile⟩
  · exact hdenotes
  · cases hfile.symm.trans hnode

/-! ### Absolute paths of locations -/

theorem isAbsolute_toPath (l : Location) : l.toPath.isAbsolute = true := by
  rw [Path.isAbsolute_eq, Location.parts_toPath]
  rfl

theorem namedSteps_toPath (l : Location) : l.toPath.namedSteps = l.map .into := by
  have hroot : (Location.toPath []).namedSteps = [] := by decide
  rw [← List.nil_append l, ← Location.joinNames_toPath,
    namedSteps_joinNames (Location.text_toPath_ne_empty _), hroot, List.nil_append,
    List.nil_append]

theorem moves_toPath (l : Location) : l.toPath.moves = l.map .into := by
  rw [Path.moves_eq_filter_namedSteps, namedSteps_toPath]
  exact Path.filter_isMove_names l

theorem start_of_isAbsolute (h : p.isAbsolute = true) : fs.start p = .standing [] :=
  if_pos h

theorem denotes_toPath (h : fs.node? l = some .directory) : fs.Denotes l.toPath l := by
  refine ⟨textFault?_eq_none_iff.mpr ⟨?_, Location.text_toPath_ne_empty l⟩, ?_, ?_⟩
  · rw [Path.nul_mem_iff, Location.parts_toPath]
    rintro ⟨segment, hsegment, hnul⟩
    obtain ⟨name, -, rfl⟩ := List.mem_map.mp hsegment
    exact name.nul_not_mem hnul
  · rw [start_of_isAbsolute (isAbsolute_toPath l)]
    rfl
  · rw [start_of_isAbsolute (isAbsolute_toPath l), moves_toPath]
    exact LeadsTo.of_names h

/-- An absolute path with the moves of a location denotes it and no other location. -/
theorem eq_of_spellsLike_toPath {node : Node} (h : fs.Denotes p k)
    (hp : p.spellsLike m.toPath = true) (hnode : fs.node? m = some node)
    (hlink : ∀ target, node ≠ .link target) : k = m := by
  obtain ⟨habsolute, hmoves⟩ := Path.moves_eq_of_parts (Path.spellsLike_iff.mp hp)
  have hleads := h.leads
  rw [start_of_isAbsolute (habsolute.trans (isAbsolute_toPath m)), hmoves, moves_toPath] at hleads
  exact hleads.eq_of_names hnode hlink

/-! ### Absolute paths that are too long -/

theorem isTooLong_toPath_of_parent {l : Location} (h : l.parent.toPath.isTooLong = true) :
    l.toPath.isTooLong = true := by
  rcases List.eq_nil_or_concat l with rfl | ⟨front, name, rfl⟩
  · exact h
  · rw [List.concat_eq_append] at h ⊢
    rw [Location.parent, List.dropLast_concat] at h
    obtain ⟨rest, hrest⟩ := Path.exists_text_join (Location.text_toPath_ne_empty front)
      name.isSegment.relative
    rw [Path.isTooLong, decide_eq_true_eq] at h ⊢
    rw [Location.toPath_concat, hrest, String.utf8ByteSize_append]
    omega

private theorem not_isTooLong_of_nameFault? {d : Directory} {name : Name} {steps : List Step}
    (h : Purpose.canonical.nameFault? d name steps = none) :
    (Location.toPath (d.location ++ [name])).isTooLong = false := by
  unfold Purpose.nameFault? at h
  split at h
  · cases h
  · split at h
    · cases h
    · split at h
      · cases h
      · split at h
        · cases h
        · rename_i hshort
          exact Bool.eq_false_iff.mpr fun hlong => hshort ⟨rfl, hlong⟩

/-- What a walk for a canonical form arrives at has an absolute path that is not too long. -/
private theorem not_isTooLong_of_takeSteps
    {onLink : Location → Path → List Step → Except AccessFault Place}
    (honLink : ∀ l target steps, l.toPath.isTooLong = false →
      onLink l target steps = .ok (.directory (.standing k)) → k.toPath.isTooLong = false)
    (hl : l.toPath.isTooLong = false) {steps : List Step}
    (h : fs.takeSteps .canonical onLink (.standing l) steps = .ok (.directory (.standing k))) :
    k.toPath.isTooLong = false := by
  induction steps generalizing l with
  | nil =>
      cases h
      exact hl
  | cons step steps ih =>
      cases step with
      | here => exact ih hl h
      | asDirectory => exact ih hl h
      | up =>
          -- the absolute path of a parent is a front of that of the directory
          refine ih (Bool.eq_false_iff.mpr fun hlong => ?_) h
          exact Bool.eq_false_iff.mp hl (isTooLong_toPath_of_parent hlong)
      | into name =>
          obtain ⟨hname, ⟨-, -, hplace⟩ | ⟨_, _, -, -, hplace⟩ | ⟨-, h⟩ | ⟨target, -, h⟩⟩ :=
            takeSteps_into_cases h
          · cases hplace
          · cases hplace
          · exact ih (not_isTooLong_of_nameFault? hname) h
          · exact honLink _ _ _ hl h

private theorem not_isTooLong_of_followSteps {links : Nat} (hl : l.toPath.isTooLong = false)
    {steps : List Step}
    (h : fs.followSteps .canonical links (.standing l) steps = .ok (.directory (.standing k))) :
    k.toPath.isTooLong = false := by
  induction links generalizing l steps with
  | zero => exact not_isTooLong_of_takeSteps (fun _ _ _ _ hlink => by cases hlink) hl h
  | succ links ih =>
      refine not_isTooLong_of_takeSteps (fun l target steps hl hlink => ih ?_ hlink) hl h
      split
      · decide
      · exact hl

/-- A directory with an absolute path that is too long cannot be told from a shorter one. -/
theorem Denotes.not_told (h : fs.Denotes p k)
    (hstart : (fs.start p).location.toPath.isTooLong = false) (hlong : k.toPath.isTooLong = true) :
    ¬ fs.Told p := by
  rintro ⟨m, hm⟩
  obtain rfl := location_eq_of_denotes h hm
  obtain ⟨-, -, place, hwalk, rfl | ⟨stamp, bytes, rfl⟩⟩ := exists_walk_of_told hm
  · rw [not_isTooLong_of_followSteps hstart hwalk] at hlong
    cases hlong
  · cases place_eq_of_followSteps hwalk h.leads

/-! ### Paths that are joined -/

theorem nul_not_mem_join_iff (hbase : base.text ≠ "") (hp : p.isAbsolute = false) :
    '\x00' ∉ (base.join p).text.toList ↔
      '\x00' ∉ base.text.toList ∧ '\x00' ∉ p.text.toList := by
  obtain ⟨front, hjoin, hfront⟩ := Path.exists_toList_join hbase hp
  have hbaseFront : '\x00' ∈ base.text.toList ↔ '\x00' ∈ front := by
    rcases hfront with hfront | hfront <;> simp [hfront]
  simp [hjoin, hbaseFront]

theorem Denotes.join_iff (hbase : fs.Denotes base l) (hp : p.isAbsolute = false) :
    fs.Denotes (base.join p) k ↔ '\x00' ∉ p.text.toList ∧ fs.LeadsTo l p.moves k := by
  obtain ⟨hnul, hne⟩ := textFault?_eq_none_iff.mp hbase.text
  constructor
  · intro h
    have hleads := h.leads
    rw [fs.start_join hne hp, Path.moves_join hne hp, hbase.leads.append_iff] at hleads
    exact ⟨((nul_not_mem_join_iff hne hp).mp (textFault?_eq_none_iff.mp h.text).1).2, hleads⟩
  · rintro ⟨hnul', hleads⟩
    refine ⟨textFault?_eq_none_iff.mpr ⟨(nul_not_mem_join_iff hne hp).mpr ⟨hnul, hnul'⟩,
      Path.text_join_ne_empty hne p⟩, ?_, ?_⟩
    · rw [fs.start_join hne hp]
      exact hbase.stands
    · rw [fs.start_join hne hp, Path.moves_join hne hp, hbase.leads.append_iff]
      exact hleads

theorem join_of_isAbsolute (base : Path) (hp : p.isAbsolute = true) : base.join p = p :=
  if_pos hp

theorem Denotes.join_congr (hp : fs.Denotes p l) (hq : fs.Denotes q l) (e : Path) :
    fs.Denotes (p.join e) k ↔ fs.Denotes (q.join e) k := by
  cases he : e.isAbsolute with
  | true => rw [join_of_isAbsolute p he, join_of_isAbsolute q he]
  | false => rw [hp.join_iff he, hq.join_iff he]

theorem Denotes.joinNames {names : List Name} (h : fs.Denotes p l)
    (hnode : fs.node? (l ++ names) = some .directory) :
    fs.Denotes (p.joinNames names) (l ++ names) := by
  obtain ⟨hnul, hne⟩ := textFault?_eq_none_iff.mp h.text
  refine ⟨textFault?_eq_none_iff.mpr ⟨?_, Path.text_joinNames_ne_empty hne names⟩, ?_, ?_⟩
  · rw [Path.nul_mem_iff] at hnul ⊢
    rw [Path.parts_joinNames hne]
    rintro ⟨segment, hsegment, hmem⟩
    rcases List.mem_append.mp hsegment with hsegment | hsegment
    · exact hnul ⟨segment, hsegment, hmem⟩
    · obtain ⟨name, -, rfl⟩ := List.mem_map.mp hsegment
      exact name.nul_not_mem hmem
  · rw [start_joinNames fs hne]
    exact h.stands
  · rw [start_joinNames fs hne, Path.moves_joinNames hne]
    exact h.leads.append (LeadsTo.of_names hnode)

/-- A path that is spelled like one that denotes a directory denotes it too. -/
theorem Denotes.of_spellsLike (h : fs.Denotes p k) (hq : q.spellsLike p = true)
    (hne : q.text ≠ "") : fs.Denotes q k := by
  have hparts := Path.spellsLike_iff.mp hq
  obtain ⟨habsolute, hmoves⟩ := Path.moves_eq_of_parts hparts
  have hstart : fs.start q = fs.start p := by rw [start, start, habsolute]
  refine ⟨textFault?_eq_none_iff.mpr ⟨?_, hne⟩, ?_, ?_⟩
  · rw [Path.nul_mem_iff, hparts, ← Path.nul_mem_iff]
    exact (textFault?_eq_none_iff.mp h.text).1
  · rw [hstart]
    exact h.stands
  · rw [hstart, hmoves]
    exact h.leads

end FileSystem

end MessageCatalog
