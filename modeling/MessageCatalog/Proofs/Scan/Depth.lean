import MessageCatalog.Proofs.FileSystem.Denotation
import MessageCatalog.Proofs.FileSystem.Preorder
import MessageCatalog.Proofs.Scan.Merge
import MessageCatalog.Proofs.Text.LineNumber

/-!
# Directories with an absolute path that is too long

Directories can be nested so deep that the absolute path of the last one is longer than a path may
be (`isTooLong_deepLocation`).  Two links, each to half of the way, lead there all the same: short
paths denote the directory (`denotes_farSite`), and a walk from such a path finds its files
(`exists_walked_farSite`).  Only its absolute path cannot be told (`not_told_farSite`).
-/

namespace MessageCatalog.Scan

open FileSystem

variable {fs : FileSystem} {l : Location}

theorem node?_withNode {node : Node} (h : fs.CanHold l) (k : Location) :
    (withNode fs l node).node? k = if k = l then some node else fs.node? k := by
  rw [withNode, store, dif_pos h]
  exact node?_put fs l k node h

private theorem workingDirectory_withNode (fs : FileSystem) (l : Location) (node : Node) :
    (withNode fs l node).workingDirectory = fs.workingDirectory := by
  unfold withNode store
  split <;> rfl

theorem canHold_iff : fs.CanHold l ↔
    l ≠ [] ∧ fs.node? l.parent = some .directory ∧ fs.node? l ≠ some .directory := by
  rw [CanHold, hasDirectory_iff, hasDirectory_iff]

/-- Directories of one name, each in the one before it. -/
def nested (name : Name) : Nat → FileSystem
  | 0 => .empty
  | n + 1 => withNode (nested name n) (List.replicate (n + 1) name) .directory

private theorem node?_nested (name : Name) (n : Nat) (k : Location) :
    (nested name n).node? k = if k <+: List.replicate n name then some .directory else none := by
  induction n generalizing k with
  | zero =>
      simp only [List.replicate_zero, List.prefix_nil, nested, node?]
      split
      · rfl
      · exact Std.TreeMap.getElem?_emptyc
  | succ n ih =>
      have hlast : List.replicate (n + 1) name = List.replicate n name ++ [name] :=
        List.replicate_succ'
      have hfree : ¬ List.replicate (n + 1) name <+: List.replicate n name := fun habove =>
        absurd habove.length_le (by simp)
      -- the next directory lies in the deepest one, where nothing stands yet
      have hcan : (nested name n).CanHold (List.replicate (n + 1) name) := by
        rw [canHold_iff, ih, ih, if_neg hfree, Location.parent, hlast, List.dropLast_concat,
          if_pos (List.prefix_refl _)]
        simp
      rw [nested, node?_withNode hcan, ih, hlast]
      by_cases hk : k = List.replicate n name ++ [name]
      · rw [if_pos hk, if_pos (by rw [hk])]
      · rw [if_neg hk]
        refine if_congr ?_ rfl rfl
        rw [List.prefix_concat_iff, or_iff_right hk]

def near : Name :=
  ⟨"near", by decide⟩

def far : Name :=
  ⟨"far", by decide⟩

def generated : Name :=
  ⟨"Generated", by decide⟩

def skipped : Name :=
  ⟨"Skip.cs", by decide⟩

/-- The location of a directory that is nested twice as deep as a number says. -/
def deepLocation (name : Name) (n : Nat) : Location :=
  List.replicate (n + n) name

/-- Half of the way to the deep directory, as an absolute path. -/
def nearTarget (name : Name) (n : Nat) : Path :=
  Location.toPath (List.replicate n name)

/-- The way to the deep directory by the link to its first half. -/
def farTarget (name : Name) (n : Nat) : Path :=
  Location.toPath (near :: List.replicate n name)

/-- The deep directory with one in it that holds a file, and two links on the way to it. -/
def farSite (name : Name) (n : Nat) : FileSystem :=
  let first := withNode (nested name (n + n)) [near] (.link (nearTarget name n))
  let second := withNode first [far] (.link (farTarget name n))
  let third := withNode second (deepLocation name n ++ [generated]) .directory
  withNode third (deepLocation name n ++ [generated] ++ [skipped]) (.file 0 ByteArray.empty)

theorem concat_ne_singleton {a b : Name} (hne : a ≠ b) (l : Location) : l ++ [a] ≠ [b] := by
  intro heq
  have hlast := congrArg List.getLast? heq
  rw [List.getLast?_concat, List.getLast?_singleton] at hlast
  exact hne (Option.some.inj hlast)

theorem not_isPrefix_concat (l : Location) (names : List Name) (a : Name) :
    ¬ l ++ names ++ [a] <+: l := by
  intro habove
  have hlength := habove.length_le
  simp only [List.length_append, List.length_singleton] at hlength
  omega

theorem node?_farSite {name : Name} {n : Nat} (hnear : name ≠ near) (hfar : name ≠ far)
    (k : Location) : (farSite name n).node? k =
      if k = deepLocation name n ++ [generated] ++ [skipped] then some (.file 0 ByteArray.empty)
      else if k = deepLocation name n ++ [generated] then some .directory
      else if k = [far] then some (.link (farTarget name n))
      else if k = [near] then some (.link (nearTarget name n))
      else if k <+: deepLocation name n then some .directory
      else none := by
  have hapart : ∀ other : Name, name ≠ other → ¬ [other] <+: deepLocation name n := by
    intro other hne habove
    exact hne (List.eq_of_mem_replicate (habove.subset (List.mem_singleton_self other))).symm
  have hdeep : ∀ other : Name, name ≠ other → deepLocation name n ≠ [other] := by
    intro other hne heq
    exact hapart other hne (heq ▸ List.prefix_refl _)
  have hbelow : ¬ deepLocation name n ++ [generated] <+: deepLocation name n := by
    simpa using not_isPrefix_concat (deepLocation name n) [] generated
  unfold farSite
  dsimp only
  -- each node is put into a directory that is there, at a location that is free
  have hstart : ∀ k, (nested name (n + n)).node? k =
      if k <+: deepLocation name n then some .directory else none := node?_nested name (n + n)
  generalize nested name (n + n) = start at hstart ⊢
  have hfirst : ∀ k, (withNode start [near] (.link (nearTarget name n))).node? k =
      if k = [near] then some (.link (nearTarget name n)) else start.node? k := by
    refine node?_withNode (canHold_iff.mpr ⟨List.cons_ne_nil _ _, rfl, ?_⟩)
    rw [hstart, if_neg (hapart near hnear)]
    exact nofun
  generalize withNode start [near] (.link (nearTarget name n)) = first at hfirst ⊢
  have hsecond : ∀ k, (withNode first [far] (.link (farTarget name n))).node? k =
      if k = [far] then some (.link (farTarget name n)) else first.node? k := by
    refine node?_withNode (canHold_iff.mpr ⟨List.cons_ne_nil _ _, rfl, ?_⟩)
    rw [hfirst, if_neg (by decide), hstart, if_neg (hapart far hfar)]
    exact nofun
  generalize withNode first [far] (.link (farTarget name n)) = second at hsecond ⊢
  have hthird : ∀ k, (withNode second (deepLocation name n ++ [generated]) .directory).node? k =
      if k = deepLocation name n ++ [generated] then some .directory else second.node? k := by
    refine node?_withNode (canHold_iff.mpr ⟨by simp, ?_, ?_⟩)
    · rw [Location.parent, List.dropLast_concat, hsecond, if_neg (hdeep far hfar), hfirst,
        if_neg (hdeep near hnear), hstart, if_pos (List.prefix_refl _)]
    · rw [hsecond, if_neg (concat_ne_singleton (by decide) _), hfirst,
        if_neg (concat_ne_singleton (by decide) _), hstart, if_neg hbelow]
      exact nofun
  generalize withNode second (deepLocation name n ++ [generated]) .directory = third at hthird ⊢
  rw [node?_withNode (canHold_iff.mpr ⟨by simp, ?_, ?_⟩), hthird, hsecond, hfirst, hstart]
  · rw [Location.parent, List.dropLast_concat, hthird, if_pos rfl]
  · rw [hthird, if_neg (by simp), hsecond, if_neg (concat_ne_singleton (by decide) _), hfirst,
      if_neg (concat_ne_singleton (by decide) _), hstart, if_neg (not_isPrefix_concat _ _ _)]
    exact nofun

section

variable {name : Name} {n : Nat}

theorem node?_farSite_above (hnear : name ≠ near) (hfar : name ≠ far) {k : Location}
    (hk : k <+: deepLocation name n) : (farSite name n).node? k = some .directory := by
  have hmem : ∀ other ∈ k, other = name := fun other hother =>
    List.eq_of_mem_replicate (hk.subset hother)
  have hshort : ∀ names : List Name, ∀ other, k ≠ deepLocation name n ++ names ++ [other] := by
    rintro names other rfl
    exact not_isPrefix_concat _ _ _ hk
  have hone := hshort [] generated
  rw [List.append_nil] at hone
  have hnotFar : k ≠ [far] := by
    rintro rfl
    exact hfar (hmem far (List.mem_singleton_self _)).symm
  have hnotNear : k ≠ [near] := by
    rintro rfl
    exact hnear (hmem near (List.mem_singleton_self _)).symm
  rw [node?_farSite hnear hfar, if_neg (hshort [generated] skipped), if_neg hone, if_neg hnotFar,
    if_neg hnotNear, if_pos hk]

theorem workingDirectory_farSite (name : Name) (n : Nat) :
    (farSite name n).workingDirectory = .standing [] := by
  have hnested : ∀ m, (nested name m).workingDirectory = .standing [] := by
    intro m
    induction m with
    | zero => rfl
    | succ m ih => rw [nested, workingDirectory_withNode, ih]
  simp only [farSite, workingDirectory_withNode, hnested]

theorem node?_farSite_far (hnear : name ≠ near) (hfar : name ≠ far) :
    (farSite name n).node? [far] = some (.link (farTarget name n)) := by
  rw [node?_farSite hnear hfar, if_neg (concat_ne_singleton (by decide) _).symm,
    if_neg (concat_ne_singleton (by decide) _).symm, if_pos rfl]

theorem node?_farSite_near (hnear : name ≠ near) (hfar : name ≠ far) :
    (farSite name n).node? [near] = some (.link (nearTarget name n)) := by
  rw [node?_farSite hnear hfar, if_neg (concat_ne_singleton (by decide) _).symm,
    if_neg (concat_ne_singleton (by decide) _).symm, if_neg (by decide), if_pos rfl]

private theorem node?_farSite_generated (hnear : name ≠ near) (hfar : name ≠ far) :
    (farSite name n).node? (deepLocation name n ++ [generated]) = some .directory := by
  rw [node?_farSite hnear hfar, if_neg (by simp), if_pos rfl]

private theorem eq_generated_of_node? (hnear : name ≠ near) (hfar : name ≠ far) {names : List Name}
    (hne : names ≠ []) (h : (farSite name n).node? (deepLocation name n ++ names) =
      some .directory) : names = [generated] := by
  have hlonger : ¬ deepLocation name n ++ names <+: deepLocation name n := by
    obtain ⟨front, other, rfl⟩ := (List.eq_nil_or_concat names).resolve_left hne
    rw [List.concat_eq_append, ← List.append_assoc]
    exact not_isPrefix_concat _ _ _
  rw [node?_farSite hnear hfar, if_neg hlonger] at h
  split at h
  · cases h
  · split at h
    · rename_i heq
      exact List.append_cancel_left heq
    · split at h
      · cases h
      · split at h <;> cases h

theorem leadsTo_farSite (hnear : name ≠ near) (hfar : name ≠ far) :
    (farSite name n).LeadsTo [] [.into far] (deepLocation name n) := by
  refine .follow (node?_farSite_far hnear hfar) ?_
  rw [ite_self, farTarget, moves_toPath, List.map_cons, List.append_nil]
  refine .follow (node?_farSite_near hnear hfar) ?_
  rw [ite_self, nearTarget, moves_toPath, ← List.map_append, List.replicate_append_replicate]
  exact LeadsTo.of_names (node?_farSite_above hnear hfar (List.prefix_refl _))

theorem denotes_farSite (hnear : name ≠ near) (hfar : name ≠ far) :
    (farSite name n).Denotes ⟨"far"⟩ (deepLocation name n) := by
  have hstart : (farSite name n).start ⟨"far"⟩ = .standing [] := workingDirectory_farSite name n
  refine ⟨by decide, ?_, ?_⟩
  · rw [hstart]
    rfl
  · rw [hstart, show (⟨"far"⟩ : Path).moves = [.into far] by decide]
    exact leadsTo_farSite hnear hfar

theorem denotes_farSite_generated (hnear : name ≠ near) (hfar : name ≠ far) :
    (farSite name n).Denotes ⟨"/far/Generated"⟩ (deepLocation name n ++ [generated]) := by
  have hstart : (farSite name n).start ⟨"/far/Generated"⟩ = .standing [] := rfl
  refine ⟨by decide, ?_, ?_⟩
  · rw [hstart]
    rfl
  · rw [hstart, show (⟨"/far/Generated"⟩ : Path).moves = [.into far] ++ [.into generated] by decide]
    exact (leadsTo_farSite hnear hfar).append (.into (node?_farSite_generated hnear hfar) .arrived)

private theorem resolve_farSite (hnear : name ≠ near) (hfar : name ≠ far)
    (hname : name.text.utf8ByteSize ≤ maxNameBytes) :
    (farSite name n).resolve .lookup ⟨"far"⟩ =
      .ok (.directory (.standing (deepLocation name n))) := by
  have hnames : ∀ other ∈ List.replicate n name, other.text.utf8ByteSize ≤ maxNameBytes :=
    fun other hother => List.eq_of_mem_replicate hother ▸ hname
  have hhalf : (farSite name n).node? (List.replicate n name) = some .directory := by
    refine node?_farSite_above hnear hfar ?_
    rw [deepLocation, ← List.replicate_append_replicate]
    exact List.prefix_append ..
  have hdeep : (farSite name n).node? (List.replicate n name ++ List.replicate n name) =
      some .directory := by
    rw [List.replicate_append_replicate]
    exact node?_farSite_above hnear hfar (List.prefix_refl _)
  obtain ⟨farTail, hfarTail, hfarSteps⟩ := (farTarget name n).exists_steps_eq
  obtain ⟨nearTail, hnearTail, hnearSteps⟩ := (nearTarget name n).exists_steps_eq
  rw [farTarget, namedSteps_toPath, ← farTarget, List.map_cons] at hfarSteps
  rw [nearTarget, namedSteps_toPath, ← nearTarget] at hnearSteps
  have hstart : (farSite name n).start ⟨"far"⟩ = .standing [] := workingDirectory_farSite name n
  rw [resolve, show pathFault? ⟨"far"⟩ = none by decide, hstart,
    show (⟨"far"⟩ : Path).steps = [.into far] by decide]
  -- two links are followed, and behind each of them the names of half the way are left
  change (farSite name n).followSteps .lookup (37 + 1 + 1 + 1) _ _ = _
  rw [followSteps_succ, takeSteps_into_link (nameFault?_eq_none (by decide) _)
      (node?_farSite_far hnear hfar), Directory.location_standing, ite_self,
    hfarSteps, List.append_nil, List.cons_append, followSteps_succ,
    takeSteps_into_link (nameFault?_eq_none (by decide) _) (node?_farSite_near hnear hfar),
    Directory.location_standing, ite_self, hnearSteps,
    List.append_assoc, followSteps_succ, takeSteps_into_names hnames hhalf, List.nil_append]
  have hrest : ∀ onLink, (farSite name n).takeSteps .lookup onLink
      (.standing (List.replicate n name)) ((List.replicate n name).map .into ++ farTail) =
        .ok (.directory (.standing (deepLocation name n))) := by
    intro onLink
    rw [takeSteps_into_names hnames hdeep, List.replicate_append_replicate, deepLocation]
    rcases hfarTail with rfl | rfl <;> rfl
  rcases hnearTail with rfl | rfl <;> exact hrest _

theorem exists_walked_farSite (hnear : name ≠ near) (hfar : name ≠ far)
    (hname : name.text.utf8ByteSize ≤ maxNameBytes) :
    ∃ walked, (farSite name n).filesFrom ⟨"far"⟩ = .ok walked := by
  have hshort : ∀ p, (p, Node.directory) ∈
      (farSite name n).nodesBelow (deepLocation name n) ⟨"far"⟩ → p.isTooLong = false := by
    intro p hp
    obtain ⟨names, hne, rfl, hnode⟩ := mem_nodesBelow_iff.mp hp
    rw [eq_generated_of_node? hnear hfar hne hnode]
    decide
  obtain ⟨walked, hwalked⟩ := exists_filesAmong hshort
  refine ⟨walked, ?_⟩
  rw [filesFrom, resolve_farSite hnear hfar hname]
  exact (if_pos rfl).trans hwalked

private theorem length_joinSegments_replicate (segment : List Char) (n : Nat) :
    (joinSegments (List.replicate (n + 1) segment)).length + 1 =
      (n + 1) * (segment.length + 1) := by
  induction n with
  | zero => rw [List.replicate_one, joinSegments, Nat.zero_add, Nat.one_mul]
  | succ n ih =>
      rw [List.replicate_succ, joinSegments_cons (by simp), List.length_append, List.length_cons,
        Nat.add_assoc, ih, Nat.succ_mul (n + 1)]
      omega

/-- The absolute path of a directory that is nested deep is too long. -/
theorem isTooLong_deepLocation
    (hlong : maxPathBytes < (n + n) * (name.text.toList.length + 1)) :
    (deepLocation name n).toPath.isTooLong = true := by
  have hpos : n + n ≠ 0 := by
    intro hzero
    rw [hzero, Nat.zero_mul] at hlong
    exact Nat.not_lt_zero _ hlong
  obtain ⟨m, hm⟩ := Nat.exists_eq_add_one_of_ne_zero hpos
  have hchars : (deepLocation name n).toPath.text.toList =
      '/' :: joinSegments (List.replicate (m + 1) name.text.toList) := by
    rw [Location.toList_toPath, deepLocation, hm, List.map_replicate]
  have hlength := length_joinSegments_replicate name.text.toList m
  have hbytes := Text.length_le_byteLength (deepLocation name n).toPath.text.toList
  rw [Text.byteLength_toList, hchars, List.length_cons, hlength, ← hm] at hbytes
  exact decide_eq_true (Nat.lt_of_lt_of_le hlong hbytes)

theorem not_told_farSite (hnear : name ≠ near) (hfar : name ≠ far)
    (hlong : maxPathBytes < (n + n) * (name.text.toList.length + 1)) :
    ¬ (farSite name n).Told ⟨"far"⟩ := by
  refine (denotes_farSite hnear hfar).not_told ?_ (isTooLong_deepLocation hlong)
  rw [show (farSite name n).start ⟨"far"⟩ = .standing [] from workingDirectory_farSite name n]
  decide

theorem not_told_farSite_generated (hnear : name ≠ near) (hfar : name ≠ far)
    (hlong : maxPathBytes < (n + n) * (name.text.toList.length + 1)) :
    ¬ (farSite name n).Told ⟨"/far/Generated"⟩ := by
  refine (denotes_farSite_generated hnear hfar).not_told ?_ (isTooLong_toPath_of_parent ?_)
  · rw [start_of_isAbsolute (by decide)]
    decide
  · rw [Location.parent, List.dropLast_concat]
    exact isTooLong_deepLocation hlong

end

/-- A name of nearly as many bytes as a name may have. -/
def longName : Name where
  text := String.ofList (List.replicate 250 'd')
  valid := by
    have hne : ∀ s : String, s.toList.length ≠ 250 →
        (String.ofList (List.replicate 250 'd') != s) = true := by
      intro s hlength
      refine bne_iff_ne.mpr fun heq => hlength ?_
      rw [← heq, String.toList_ofList, List.length_replicate]
    rw [isName, hne "" (by decide), hne "." (by decide), hne ".." (by decide),
      String.toList_ofList, List.all_replicate]
    rfl

theorem toList_longName : longName.text.toList = List.replicate 250 'd' :=
  String.toList_ofList

theorem length_longName : longName.text.toList.length = 250 :=
  (congrArg List.length toList_longName).trans List.length_replicate

theorem utf8ByteSize_longName : longName.text.utf8ByteSize = 250 * Char.utf8Size 'd' := by
  rw [← Text.byteLength_toList, toList_longName, Text.byteLength_replicate]

theorem longName_ne (other : Name) (hlength : other.text.toList.length ≠ 250) :
    longName ≠ other := by
  intro heq
  exact hlength (heq ▸ length_longName)

end MessageCatalog.Scan
