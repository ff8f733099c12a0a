import MessageCatalog.Proofs.FileSystem.Denotation
import Mathlib.Data.List.TakeWhile

/-!
# Parents of paths

The parent of a path is spelled without its last segment that leads somewhere, and the parent of a
path that starts with a dot alone is the empty path (`Path.parts_of_parent?`).  So the moves of the
parent are a front of those of the path.

A walk to a directory comes by a directory behind every front of its moves
(`exists_followSteps_of_append`), and only its moves count (`directory?_followSteps_filter`).  Hence
the parent of a path that leads to a directory leads to one too, which need not be the one that
holds the other: behind `..` or a link it is another one (`exists_directoryOf?_parent`).
-/

namespace MessageCatalog

namespace Path

variable {p q : Path}

/-! ### Segments of a parent -/

theorem parts_of_trimmedRev_eq_nil (h : trimmedRev p.text.toList = []) : p.parts.2 = [] := by
  have hall : ∀ segment ∈ (segments (p.text.toList.drop (leadOf p.text.toList).length)).reverse,
      isIdle segment = true := List.dropWhile_eq_nil_iff.mp h
  exact List.filter_eq_nil_iff.mpr fun segment hsegment => by
    simp [hall segment (List.mem_reverse.mpr hsegment)]

/-- The segments of a text up to the last one that leads somewhere, and those behind it. -/
theorem exists_segments_of_trimmedRev {s last : List Char} {others : List (List Char)}
    (h : trimmedRev s = last :: others) :
    isIdle last = false ∧ ∃ tail, (∀ segment ∈ tail, isIdle segment = true) ∧
      segments (s.drop (leadOf s).length) = others.reverse ++ last :: tail := by
  obtain ⟨kept, tail, hkept, htail, hsplit, hlast⟩ :=
    exists_trimmed (segments (s.drop (leadOf s).length))
  have hkept' : kept = others.reverse ++ [last] := by
    rw [← hkept, ← List.reverse_cons]
    exact congrArg List.reverse h
  refine ⟨hlast last (by rw [hkept', List.getLast?_concat]), tail, htail, ?_⟩
  rw [hsplit, hkept', List.append_assoc, List.singleton_append]

/-- The lead of a text with some of its segments says no more and no less. -/
private theorem parts_of_front {s : List Char} {front back : List (List Char)}
    (hsegments : segments (s.drop (leadOf s).length) = front ++ back) (hback : back ≠ [])
    (hq : q.text.toList = leadOf s ++ joinSegments (front.reverse.dropWhile isIdle).reverse) :
    q.parts = (leadOf s, front.filter fun segment => !isIdle segment) := by
  by_cases hnil : front = []
  · subst hnil
    unfold parts
    simp only [hq, List.reverse_nil, List.dropWhile_nil, joinSegments, List.append_nil,
      leadOf_leadOf, List.drop_length]
    rfl
  · have htext : s = (leadOf s ++ joinSegments front) ++ '/' :: joinSegments back := by
      rw [List.append_assoc, ← joinSegments_append hnil hback, ← hsegments, joinSegments_segments,
        leadOf_append_drop]
    -- a text that starts with the slash would have a lead
    have hne : leadOf s ++ joinSegments front ≠ [] := by
      intro hempty
      have hlead : leadOf s = ['/'] := by
        rw [htext, hempty]
        rfl
      rw [hlead] at hempty
      cases hempty
    have hlead : leadOf (leadOf s ++ joinSegments front) = leadOf s := by
      conv => rhs; rw [htext]
      exact (leadOf_append_slash hne _).symm
    have hslashes : ∀ segment ∈ front, '/' ∉ segment := fun segment hsegment =>
      slash_not_mem_of_mem_segments (s := s.drop (leadOf s).length)
        (by rw [hsegments]; exact List.mem_append_left _ hsegment)
    have hfront : segments ((leadOf s ++ joinSegments front).drop
        (leadOf (leadOf s ++ joinSegments front)).length) = front := by
      rw [hlead, List.drop_left, segments_joinSegments hnil hslashes]
    rw [parts_of_trimmed (p := ⟨String.ofList (leadOf s ++ joinSegments front)⟩)
      String.toList_ofList (by rw [hfront, hlead, hq])]
    unfold parts
    simp only [String.toList_ofList]
    rw [hfront, hlead]

/-- **The parent of a path lacks its last segment.**  Where no segment leads anywhere there is no
parent, unless the path starts with a dot. -/
theorem parts_of_parent? (h : p.parent? = some q) :
    (q.text = "" ∧ p.parts = (['.'], [])) ∨ ∃ last, p.parts = (q.parts.1, q.parts.2 ++ [last]) := by
  unfold parent? at h
  dsimp only at h
  split at h
  · rename_i hnone
    split at h
    · rename_i hdot
      cases h
      exact .inl ⟨rfl, Prod.ext hdot (parts_of_trimmedRev_eq_nil hnone)⟩
    · cases h
  · rename_i last others htrim
    cases h
    obtain ⟨hlast, tail, htail, hsegments⟩ := exists_segments_of_trimmedRev htrim
    -- what stands behind the last segment that leads somewhere says nothing
    have hidle : tail.filter (fun segment => !isIdle segment) = [] :=
      List.filter_eq_nil_iff.mpr fun segment hsegment => by simp [htail segment hsegment]
    have hq : (⟨String.ofList (leadOf p.text.toList ++
        joinSegments (others.dropWhile isIdle).reverse)⟩ : Path).parts =
          (leadOf p.text.toList, others.reverse.filter fun segment => !isIdle segment) :=
      parts_of_front hsegments (List.cons_ne_nil _ _)
        (by rw [String.toList_ofList, List.reverse_reverse])
    refine .inr ⟨last, ?_⟩
    rw [hq]
    unfold parts
    simp only [hsegments, List.filter_append, List.filter_cons, hlast, hidle, Bool.not_false,
      if_true]

private theorem parts_of_parent?_eq_none (h : p.parent? = none) : p.parts.2 = [] := by
  unfold parent? at h
  dsimp only at h
  split at h
  · rename_i hnone
    exact parts_of_trimmedRev_eq_nil hnone
  · cases h

private theorem exists_joinSegments_append (first second : List (List Char)) :
    ∃ rest, joinSegments (first ++ second) = joinSegments first ++ rest := by
  by_cases hfirst : first = []
  · exact ⟨joinSegments second, by rw [hfirst]; rfl⟩
  · by_cases hsecond : second = []
    · exact ⟨[], by rw [hsecond, List.append_nil, List.append_nil]⟩
    · exact ⟨_, joinSegments_append hfirst hsecond⟩

theorem exists_text_of_parent? (h : p.parent? = some q) :
    ∃ rest, p.text.toList = q.text.toList ++ rest := by
  unfold parent? at h
  dsimp only at h
  split at h
  · split at h
    · cases h
      exact ⟨p.text.toList, rfl⟩
    · cases h
  · rename_i last others htrim
    cases h
    obtain ⟨-, tail, -, hsegments⟩ := exists_segments_of_trimmedRev htrim
    -- the rest starts with the idle segments that the parent leaves out
    have hothers : others.reverse =
        (others.dropWhile isIdle).reverse ++ (others.takeWhile isIdle).reverse := by
      rw [← List.reverse_append, List.takeWhile_append_dropWhile]
    rw [hothers, List.append_assoc] at hsegments
    obtain ⟨rest, hrest⟩ := exists_joinSegments_append (others.dropWhile isIdle).reverse
      ((others.takeWhile isIdle).reverse ++ last :: tail)
    refine ⟨rest, ?_⟩
    rw [String.toList_ofList, List.append_assoc, ← hrest, ← hsegments, joinSegments_segments,
      leadOf_append_drop]

private theorem isTooLong_of_parent? (h : p.parent? = some q) (hp : p.isTooLong = false) :
    q.isTooLong = false := by
  obtain ⟨rest, hrest⟩ := exists_text_of_parent? h
  have htext : p.text = q.text ++ String.ofList rest := by
    rw [← String.toList_inj, String.toList_append, hrest, String.toList_ofList]
  unfold isTooLong at hp ⊢
  rw [decide_eq_false_iff_not] at hp ⊢
  rw [htext, String.utf8ByteSize_append] at hp
  omega

theorem moves_of_parent? (h : p.parent? = some q) :
    p.isAbsolute = q.isAbsolute ∧ (p.moves = q.moves ∨ ∃ step, p.moves = q.moves ++ [step]) := by
  rw [isAbsolute_eq, isAbsolute_eq, moves_eq_filterMap_parts, moves_eq_filterMap_parts]
  rcases parts_of_parent? h with ⟨hempty, hparts⟩ | ⟨last, hparts⟩
  · obtain rfl : q = ⟨""⟩ := congrArg Path.mk hempty
    rw [hparts]
    exact ⟨rfl, .inl rfl⟩
  · rw [hparts, List.filterMap_append]
    refine ⟨rfl, ?_⟩
    cases hstep : Step.ofSegment? last with
    | none => exact .inl (by simp [hstep])
    | some step => exact .inr ⟨step, by simp [hstep]⟩

theorem moves_of_parent?_eq_none (h : p.parent? = none) : p.moves = [] := by
  rw [moves_eq_filterMap_parts, parts_of_parent?_eq_none h]
  rfl

end Path

namespace FileSystem

variable {fs : FileSystem} {p q : Path} {d d' : Directory} {links : Nat} {front back : List Step}

/-! ### Walks to directories -/

/-- The directory at which a walk ends. -/
def directory? : Except AccessFault Place → Option Directory
  | .ok (.directory d) => some d
  | _ => none

theorem directory?_eq_some_iff {outcome : Except AccessFault Place} :
    directory? outcome = some d ↔ outcome = .ok (.directory d) := by
  rcases outcome with _ | _ | _ | _ <;> simp [directory?]

private theorem directory?_takeSteps_filter
    (onLink onLink' : Location → Path → List Step → Except AccessFault Place)
    (honLink : ∀ l target steps, directory? (onLink l target steps) =
      directory? (onLink' l target (steps.filter Step.isMove))) (d : Directory)
    (steps : List Step) :
    directory? (fs.takeSteps .lookup onLink d steps) =
      directory? (fs.takeSteps .lookup onLink' d (steps.filter Step.isMove)) := by
  induction steps generalizing d with
  | nil => rfl
  | cons step steps ih =>
      cases step with
      | here => exact ih d
      | asDirectory => exact ih d
      | up => exact ih d.parent
      | into name =>
          rw [List.filter_cons_of_pos rfl]
          simp only [takeSteps, nameFault?_lookup d name _ []]
          cases Purpose.lookup.nameFault? d name [] with
          | some fault => rfl
          | none =>
              -- a file or a free place is no directory, whether or not the walk ends there
              cases fs.node? (d.location ++ [name]) with
              | none => dsimp only; split <;> split <;> rfl
              | some node =>
                  cases node with
                  | directory => exact ih _
                  | file stamp bytes => dsimp only; split <;> split <;> rfl
                  | link target => exact honLink _ _ _

/-- **Only moves count for a walk to a directory.** -/
theorem directory?_followSteps_filter (fs : FileSystem) (links : Nat) (d : Directory)
    (steps : List Step) : directory? (fs.followSteps .lookup links d steps) =
      directory? (fs.followSteps .lookup links d (steps.filter Step.isMove)) := by
  induction links generalizing d steps with
  | zero =>
      rw [followSteps_zero]
      exact directory?_takeSteps_filter _ (fun _ _ _ => .error .tooManyLinks)
        (fun _ _ _ => rfl) d steps
  | succ links ih =>
      rw [followSteps_succ]
      refine directory?_takeSteps_filter _ _ (fun l target steps => ?_) d steps
      rw [ih, List.filter_append, ih _ (target.steps ++ steps.filter Step.isMove),
        List.filter_append, List.filter_filter]
      simp only [Bool.and_self]

/-- **A walk to a directory comes by a directory behind every front of its steps.** -/
theorem exists_followSteps_of_append
    (h : fs.followSteps .lookup links d (front ++ back) = .ok (.directory d')) :
    ∃ d₁, fs.followSteps .lookup links d front = .ok (.directory d₁) := by
  by_cases hback : back = []
  · rw [hback, List.append_nil] at h
    exact ⟨_, h⟩
  · rcases fs.followSteps_append links d front with ⟨fault, hfail⟩ | ⟨links', d₁, hgo⟩
    · cases (hfail back hback).symm.trans h
    · have hend : fs.followSteps .lookup links d (front ++ [.asDirectory]) = .ok (.directory d₁) :=
        (hgo _ (List.cons_ne_nil _ _)).trans (fs.followSteps_asDirectory ..)
      refine ⟨d₁, directory?_eq_some_iff.mp ?_⟩
      rw [directory?_followSteps_filter, ← directory?_eq_some_iff.mpr hend,
        directory?_followSteps_filter _ _ _ (front ++ _), List.filter_append]
      exact congrArg _ (congrArg _ (List.append_nil _).symm)

/-! ### Directories along a path -/

/-- The directory to which a path leads; the empty path stands for the working directory. -/
def directoryOf? (fs : FileSystem) (p : Path) : Option Directory :=
  if p.text = "" then some fs.workingDirectory else directory? (fs.resolve .lookup p)

theorem directoryOf?_eq_of_pathFault? (hfault : pathFault? p = none) :
    fs.directoryOf? p = directory? (fs.followSteps .lookup maxLinks (fs.start p) p.moves) := by
  rw [directoryOf?, if_neg (pathFault?_eq_none_iff.mp hfault).2.1, resolve, hfault]
  exact fs.directory?_followSteps_filter maxLinks (fs.start p) p.steps

private theorem pathFault?_of_parent? (h : p.parent? = some q) (hq : q.text ≠ "")
    (hp : pathFault? p = none) : pathFault? q = none := by
  obtain ⟨hnul, -, hlong⟩ := pathFault?_eq_none_iff.mp hp
  obtain ⟨rest, hrest⟩ := Path.exists_text_of_parent? h
  refine pathFault?_eq_none_iff.mpr ⟨fun hmem => hnul ?_, hq, Path.isTooLong_of_parent? h hlong⟩
  rw [hrest]
  exact List.mem_append_left _ hmem

theorem parent?_empty : (⟨""⟩ : Path).parent? = none := by decide

theorem pathFault?_of_directoryOf? (hp : p.text ≠ "") (h : fs.directoryOf? p = some d) :
    pathFault? p = none := by
  rw [directoryOf?, if_neg hp] at h
  exact pathFault?_of_resolve (directory?_eq_some_iff.mp h)

/-- **The parent of a path that leads to a directory leads to one.** -/
theorem exists_directoryOf?_parent (h : p.parent? = some q) (hp : fs.directoryOf? p = some d) :
    ∃ d', fs.directoryOf? q = some d' := by
  by_cases hq : q.text = ""
  · exact ⟨_, if_pos hq⟩
  · have hne : p.text ≠ "" := by
      intro hempty
      obtain rfl : p = ⟨""⟩ := congrArg Path.mk hempty
      rw [parent?_empty] at h
      cases h
    have hfault := pathFault?_of_directoryOf? hne hp
    obtain ⟨habsolute, hmoves⟩ := Path.moves_of_parent? h
    -- the moves of the parent are the first ones of the path, and a walk arrives after any of them
    obtain ⟨back, hmoves⟩ : ∃ back, p.moves = q.moves ++ back := by
      rcases hmoves with hmoves | ⟨step, hmoves⟩
      · exact ⟨[], by rw [hmoves, List.append_nil]⟩
      · exact ⟨[step], hmoves⟩
    rw [directoryOf?_eq_of_pathFault? hfault, directory?_eq_some_iff, hmoves] at hp
    obtain ⟨d', hwalk⟩ := exists_followSteps_of_append hp
    refine ⟨d', ?_⟩
    rw [directoryOf?_eq_of_pathFault? (pathFault?_of_parent? h hq hfault), directory?_eq_some_iff,
      start, ← habsolute]
    exact hwalk

theorem start_of_parent? (h : p.parent? = some q) : fs.start q = fs.start p := by
  rw [start, start, (Path.moves_of_parent? h).1]

/-- The directory of a path is the one to which its moves lead. -/
theorem leadsTo_of_directoryOf? {base : Location} (hbase : fs.start p = .standing base)
    (h : fs.directoryOf? p = some d) : ∃ k, d = .standing k ∧ fs.LeadsTo base p.moves k := by
  by_cases hp : p.text = ""
  · obtain rfl : p = ⟨""⟩ := congrArg Path.mk hp
    rw [directoryOf?, if_pos rfl] at h
    cases h
    exact ⟨base, hbase, .arrived⟩
  · rw [directoryOf?_eq_of_pathFault? (pathFault?_of_directoryOf? hp h), directory?_eq_some_iff,
      hbase] at h
    obtain ⟨k, hd, hleads⟩ := leadsTo_of_followSteps h
    rw [Path.moves, List.filter_filter] at hleads
    simp only [Bool.and_self] at hleads
    exact ⟨k, hd, hleads⟩

end FileSystem

end MessageCatalog
