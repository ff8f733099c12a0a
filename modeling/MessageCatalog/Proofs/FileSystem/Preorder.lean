import MessageCatalog.Proofs.FileSystem.Spelling
import MessageCatalog.Proofs.Text.ByteOrder

/-!
# The order of a walk

A walk lists the nodes below a directory in the order of their locations.  That is depth first: each
entry of the directory, by name, is followed by what lies below it (`nodesBelow_eq_flatMap`).

A walk finds the files that are reached from its root without following links, each once
(`mem_filesFrom_iff`), and compares their paths segment by segment and segments byte by byte
(`pairwise_filesFrom`).  Bytes of a whole path are not compared, so that what lies in a directory
`a` comes before a file `a.cs` beside it.
-/

namespace MessageCatalog

/-! ### Bytes of names -/

/-- The bytes of a name. -/
def Name.bytes (name : Name) : List UInt8 :=
  Text.bytesOf name.text.toList

theorem Name.bytes_lt {a b : Name} (h : compare a b = .lt) : a.bytes < b.bytes := by
  have hlt : a.text < b.text := compareOfLessAndEq_eq_lt.mp h
  exact Text.bytesOf_lt hlt

/-- The bytes of the segments of a path that lead somewhere. -/
def Path.componentBytes (p : Path) : List (List UInt8) :=
  p.parts.2.map Text.bytesOf

theorem Path.componentBytes_joinNames {base : Path} (hbase : base.text ≠ "")
    (names : List Name) :
    (base.joinNames names).componentBytes = base.componentBytes ++ names.map Name.bytes := by
  rw [componentBytes, parts_joinNames hbase, List.map_append, List.map_map]
  rfl

namespace Location

theorem compare_append (l a b : Location) : compare (l ++ a) (l ++ b) = compare a b := by
  induction l with
  | nil => rfl
  | cons name l ih =>
      have hself : compare name name = .eq := Std.ReflCmp.compare_self
      exact List.compareLex_cons_cons.trans (by rw [hself]; exact ih)

private theorem map_bytes_lt {l k : Location} (h : compare l k = .lt) :
    l.map Name.bytes < k.map Name.bytes := by
  induction l generalizing k with
  | nil =>
      cases k with
      | nil => cases h
      | cons b k => exact List.Lex.nil
  | cons a l ih =>
      cases k with
      | nil => cases h
      | cons b k =>
          rw [List.map_cons, List.map_cons]
          rcases Ordering.then_eq_lt.mp (List.compareLex_cons_cons.symm.trans h) with
            hab | ⟨hab, hlk⟩
          · exact List.Lex.rel (Name.bytes_lt hab)
          · rw [Std.LawfulEqCmp.eq_of_compare hab]
            exact List.Lex.cons (ih hlk)

end Location

namespace FileSystem

variable {fs : FileSystem} {root p : Path} {l : Location} {walked : List Path}

/-! ### Depth first -/

/-- One location comes before another. -/
def Earlier (a b : Location × Node) : Prop :=
  compare a.1 b.1 = .lt

theorem Earlier.not_earlier {a b : Location × Node} (h : Earlier a b) : ¬ Earlier b a := by
  have hswap := Std.OrientedCmp.gt_of_lt h
  rw [Earlier, hswap]
  exact fun hlt => by cases hlt

private theorem eq_of_pairwise_earlier {first second : List (Location × Node)}
    (hfirst : first.Pairwise Earlier) (hsecond : second.Pairwise Earlier)
    (h : ∀ entry, entry ∈ first ↔ entry ∈ second) : first = second := by
  have hne : ∀ {a b}, Earlier a b → a ≠ b := fun hab heq =>
    Earlier.not_earlier hab (heq ▸ hab)
  refine List.Perm.eq_of_pairwise (fun a b _ _ hab hba => absurd hba hab.not_earlier) hfirst hsecond
    ((List.perm_ext_iff_of_nodup (hfirst.imp hne) (hsecond.imp hne)).mpr h)

/-- The entry of a directory that a node is, unless it lies further down. -/
def entryIn? (l : Location) (entry : Location × Node) : Option (Name × Node) :=
  match entry.1.drop l.length with
  | [name] => some (name, entry.2)
  | _ => none

/-- The entries of a directory by name. -/
def entries (fs : FileSystem) (l : Location) : List (Name × Node) :=
  (fs.nodesFrom l).filterMap (entryIn? l)

theorem eq_of_entryIn? {entry : Location × Node} {found : Name × Node}
    (hmem : entry ∈ fs.nodesFrom l) (h : entryIn? l entry = some found) :
    entry = (l ++ [found.1], found.2) := by
  obtain ⟨k, node⟩ := entry
  obtain ⟨names, rfl⟩ := List.isPrefixOf_iff_prefix.mp (List.mem_filter.mp hmem).2
  unfold entryIn? at h
  rw [List.drop_left] at h
  split at h
  · cases h
    rfl
  · cases h

theorem mem_entries_iff {name : Name} {node : Node} :
    (name, node) ∈ fs.entries l ↔ fs.node? (l ++ [name]) = some node := by
  rw [node?, if_neg (List.append_ne_nil_of_right_ne_nil l (List.cons_ne_nil _ _)), entries,
    List.mem_filterMap]
  constructor
  · rintro ⟨entry, hmem, hentry⟩
    obtain rfl := eq_of_entryIn? hmem hentry
    exact Std.TreeMap.mem_toList_iff_getElem?_eq_some.mp (List.mem_filter.mp hmem).1
  · intro hnode
    refine ⟨(l ++ [name], node), List.mem_filter.mpr
      ⟨Std.TreeMap.mem_toList_iff_getElem?_eq_some.mpr hnode,
        List.isPrefixOf_iff_prefix.mpr (List.prefix_append ..)⟩, ?_⟩
    rw [entryIn?, List.drop_left]

theorem pairwise_nodesFrom (fs : FileSystem) (l : Location) :
    (fs.nodesFrom l).Pairwise Earlier :=
  Std.TreeMap.ordered_keys_toList.sublist List.filter_sublist

theorem pairwise_nodesUnder (fs : FileSystem) (l : Location) :
    (fs.nodesUnder l).Pairwise Earlier :=
  (fs.pairwise_nodesFrom l).sublist List.filter_sublist

private theorem compare_concat_append {a b : Name} (h : compare a b = .lt) (l s t : Location) :
    compare (l ++ a :: s) (l ++ b :: t) = .lt := by
  rw [Location.compare_append]
  exact List.compareLex_cons_cons.trans (by rw [h]; rfl)

private theorem compare_of_concat {a b : Name} (h : compare (l ++ [a]) (l ++ [b]) = .lt) :
    compare a b = .lt := by
  rw [Location.compare_append] at h
  rcases Ordering.then_eq_lt.mp (List.compareLex_cons_cons.symm.trans h) with hab | ⟨-, hnil⟩
  · exact hab
  · cases hnil

theorem pairwise_entries (fs : FileSystem) (l : Location) :
    (fs.entries l).Pairwise fun a b => compare a.1 b.1 = .lt := by
  rw [entries, List.pairwise_filterMap]
  refine (fs.pairwise_nodesFrom l).imp_of_mem fun ha hb hearlier a hentry b hentry' => ?_
  rw [eq_of_entryIn? ha hentry, eq_of_entryIn? hb hentry'] at hearlier
  exact compare_of_concat hearlier

private theorem nodesUnder_eq_flatMap (fs : FileSystem) (l : Location) :
    fs.nodesUnder l = (fs.entries l).flatMap fun entry =>
      (l ++ [entry.1], entry.2) :: fs.nodesUnder (l ++ [entry.1]) := by
  have hshape : ∀ (entry : Name × Node) (x : Location × Node),
      x ∈ (l ++ [entry.1], entry.2) :: fs.nodesUnder (l ++ [entry.1]) →
      ∃ rest, x.1 = l ++ entry.1 :: rest := by
    rintro ⟨name, node⟩ ⟨k, node'⟩ hmem
    rcases List.mem_cons.mp hmem with heq | hmem
    · exact ⟨[], congrArg Prod.fst heq⟩
    · obtain ⟨rest, -, rfl, -⟩ := mem_nodesUnder_iff.mp hmem
      exact ⟨rest, (List.append_cons ..).symm⟩
  -- both lists are in order, so that it is enough that they have the same members
  refine eq_of_pairwise_earlier (fs.pairwise_nodesUnder l) (List.pairwise_flatMap.mpr ⟨?_, ?_⟩) ?_
  · rintro ⟨name, node⟩ -
    refine List.pairwise_cons.mpr ⟨?_, fs.pairwise_nodesUnder _⟩
    rintro ⟨k, node'⟩ hmem
    obtain ⟨rest, hrest, rfl, -⟩ := mem_nodesUnder_iff.mp hmem
    obtain ⟨b, rest, rfl⟩ := List.exists_cons_of_ne_nil hrest
    have hcompare : compare (l ++ [name] ++ []) (l ++ [name] ++ b :: rest) = .lt :=
      Location.compare_append ..
    rwa [List.append_nil] at hcompare
  · refine (fs.pairwise_entries l).imp fun {a b} hab x hx y hy => ?_
    obtain ⟨s, hs⟩ := hshape a x hx
    obtain ⟨t, ht⟩ := hshape b y hy
    rw [Earlier, hs, ht]
    exact compare_concat_append hab l s t
  · rintro ⟨k, node⟩
    rw [mem_nodesUnder_iff, List.mem_flatMap]
    constructor
    · rintro ⟨names, hne, rfl, hnode⟩
      obtain ⟨name, rest, rfl⟩ := List.exists_cons_of_ne_nil hne
      by_cases hrest : rest = []
      · subst hrest
        exact ⟨(name, node), mem_entries_iff.mpr hnode, List.mem_cons_self⟩
      · rw [List.append_cons] at hnode
        refine ⟨(name, .directory), mem_entries_iff.mpr (node?_eq_directory_of_append hrest hnode),
          List.mem_cons_of_mem _ (mem_nodesUnder_iff.mpr ⟨rest, hrest, List.append_cons .., hnode⟩)⟩
    · rintro ⟨⟨name, node'⟩, hentry, hmem⟩
      rcases List.mem_cons.mp hmem with heq | hmem
      · obtain ⟨rfl, rfl⟩ := Prod.mk.inj heq
        exact ⟨[name], List.cons_ne_nil _ _, rfl, mem_entries_iff.mp hentry⟩
      · obtain ⟨rest, hrest, rfl, hnode⟩ := mem_nodesUnder_iff.mp hmem
        rw [← List.append_cons] at hnode
        exact ⟨name :: rest, List.cons_ne_nil _ _, (List.append_cons ..).symm, hnode⟩

/-- **The listing of a directory is a depth-first walk: every entry, by name, is followed by what
lies below it.** -/
theorem nodesBelow_eq_flatMap (fs : FileSystem) (l : Location) (root : Path) :
    fs.nodesBelow l root = (fs.entries l).flatMap fun entry =>
      (root.join ⟨entry.1.text⟩, entry.2) ::
        fs.nodesBelow (l ++ [entry.1]) (root.join ⟨entry.1.text⟩) := by
  rw [nodesBelow_eq_map, nodesUnder_eq_flatMap, List.map_flatMap]
  refine congrArg (List.flatMap · (fs.entries l)) (funext fun entry => ?_)
  rw [List.map_cons, List.drop_left, nodesBelow_eq_map]
  refine congrArg (List.cons _) (List.map_congr_left fun found hfound => ?_)
  obtain ⟨k, node⟩ := found
  obtain ⟨rest, -, rfl, -⟩ := mem_nodesUnder_iff.mp hfound
  rw [List.drop_left, ← List.append_cons, List.drop_left]
  rfl

/-! ### Files -/

/-- A walk reaches a file from a root: the root itself, unless it ends in a link, or a file below
the directory of the root.  What lies between the two are directories and no links. -/
inductive Reaches (fs : FileSystem) (root : Path) : Path → Prop
  | root {l : Location} {stamp : Nat} {bytes : ByteArray}
      (hfile : fs.resolve .lookup root = .ok (.file l stamp bytes))
      (hlink : fs.endsInLink root = false) : Reaches fs root root
  | below {l : Location} {names : List Name} {stamp : Nat} {bytes : ByteArray}
      (hroot : fs.resolve .lookup root = .ok (.directory (.standing l))) (hne : names ≠ [])
      (hfile : fs.node? (l ++ names) = some (.file stamp bytes)) :
      Reaches fs root (root.joinNames names)

theorem mem_filesFrom_iff (h : fs.filesFrom root = .ok walked) :
    p ∈ walked ↔ fs.Reaches root p := by
  rcases filesFrom_cases h with ⟨l, stamp, bytes, hresolve, rfl⟩ | ⟨l, hresolve, hfiles⟩ |
    ⟨d, hresolve, hgone, rfl⟩
  · constructor
    · intro hp
      split at hp
      · cases hp
      · rename_i hlink
        obtain rfl := List.mem_singleton.mp hp
        exact .root hresolve (Bool.eq_false_iff.mpr hlink)
    · intro hreaches
      cases hreaches with
      | root _ hlink =>
          rw [if_neg (by rw [hlink]; exact Bool.false_ne_true)]
          exact List.mem_singleton_self _
      | below hroot _ _ => cases hresolve.symm.trans hroot
  · rw [mem_filesAmong_iff hfiles]
    simp only [mem_nodesBelow_iff]
    constructor
    · rintro ⟨stamp, bytes, names, hne, rfl, hfile⟩
      exact .below hresolve hne hfile
    · intro hreaches
      cases hreaches with
      | root hfile _ => cases hresolve.symm.trans hfile
      | below hroot hne hfile =>
          cases hresolve.symm.trans hroot
          exact ⟨_, _, _, hne, rfl, hfile⟩
  · -- from a directory that is gone nothing is reached either
    refine iff_of_false List.not_mem_nil fun hreaches => ?_
    cases hreaches with
    | root hfile _ => cases hresolve.symm.trans hfile
    | below hroot _ _ =>
        cases hresolve.symm.trans hroot
        exact hgone rfl

/-- Without directories that have paths too long to be opened a walk finds its files. -/
theorem exists_filesAmong {nodes : List (Path × Node)}
    (h : ∀ p, (p, Node.directory) ∈ nodes → p.isTooLong = false) :
    ∃ walked, filesAmong nodes = .ok walked := by
  induction nodes with
  | nil => exact ⟨[], rfl⟩
  | cons entry nodes ih =>
      obtain ⟨q, node⟩ := entry
      obtain ⟨walked, hwalked⟩ := ih fun p hp => h p (List.mem_cons_of_mem _ hp)
      cases node with
      | directory =>
          have hshort := h q List.mem_cons_self
          exact ⟨walked, by simp [filesAmong, hshort, hwalked]⟩
      | link target => exact ⟨walked, hwalked⟩
      | file stamp bytes => exact ⟨q :: walked, by rw [filesAmong, hwalked]; rfl⟩

private theorem filesAmong_sublist {nodes : List (Path × Node)}
    (h : filesAmong nodes = .ok walked) :
    walked.Sublist (nodes.map Prod.fst) := by
  induction nodes generalizing walked with
  | nil =>
      cases h
      exact .slnil
  | cons entry nodes ih =>
      obtain ⟨q, node⟩ := entry
      cases node with
      | directory =>
          simp only [filesAmong] at h
          split at h
          · cases h
          · exact (ih h).cons _
      | link target => exact (ih h).cons _
      | file stamp bytes =>
          cases hothers : filesAmong nodes with
          | error fault => simp [filesAmong, hothers, Except.map] at h
          | ok others =>
              rw [filesAmong, hothers] at h
              cases h
              exact (ih hothers).cons_cons _

private theorem pairwise_nodesBelow (fs : FileSystem) (l : Location) (hroot : root.text ≠ "") :
    ((fs.nodesBelow l root).map Prod.fst).Pairwise fun p q =>
      p.componentBytes < q.componentBytes := by
  rw [nodesBelow_eq_map, List.map_map, List.pairwise_map]
  refine (fs.pairwise_nodesUnder l).imp_of_mem ?_
  rintro ⟨k, node⟩ ⟨k', node'⟩ hk hk' hearlier
  obtain ⟨names, -, rfl, -⟩ := mem_nodesUnder_iff.mp hk
  obtain ⟨names', -, rfl, -⟩ := mem_nodesUnder_iff.mp hk'
  rw [Earlier, Location.compare_append] at hearlier
  simp only [Function.comp_apply, List.drop_left, Path.componentBytes_joinNames hroot]
  exact List.append_left_lt (Location.map_bytes_lt hearlier)

/-- **A walk goes by the bytes of the names.** -/
theorem pairwise_filesFrom (h : fs.filesFrom root = .ok walked) :
    walked.Pairwise fun p q => p.componentBytes < q.componentBytes := by
  rcases filesFrom_cases h with ⟨l, stamp, bytes, -, rfl⟩ | ⟨l, hresolve, hfiles⟩ |
    ⟨d, -, -, rfl⟩
  · split
    · exact .nil
    · exact List.pairwise_singleton ..
  · have hroot : root.text ≠ "" := (pathFault?_eq_none_iff.mp (pathFault?_of_resolve hresolve)).2.1
    exact (fs.pairwise_nodesBelow l hroot).sublist (filesAmong_sublist hfiles)
  · exact .nil

end FileSystem

end MessageCatalog
