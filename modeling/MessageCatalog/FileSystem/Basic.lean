import MessageCatalog.FileSystem.Location
import Std.Data.TreeMap

/-!
# File systems as values

A file system maps locations to nodes: directories, regular files with their
bytes, and links with their targets.  The root is a directory that needs no entry.
Every other node lies in a directory, which is part of the type.

A regular file carries the stamp that it got when it was created, so that a file
can be told from one that took its place later.  The working directory is told from
one that took its place by how far up it was removed.

`node?_put` and `node?_removeAll` say what the two changes do to every location.
-/

namespace MessageCatalog

/-- What stands at a location. -/
inductive Node where
  | directory
  | file (stamp : Nat) (bytes : ByteArray)
  | link (target : Path)

instance : DecidableEq Node
  | .directory, .directory => isTrue rfl
  | .file stamp bytes, .file stamp' bytes' =>
    decidable_of_iff (stamp = stamp' ∧ bytes.data = bytes'.data) (by simp [ByteArray.ext_iff])
  | .link target, .link target' => decidable_of_iff (target = target') (by simp)
  | .directory, .file .. | .directory, .link _ | .file .., .directory
  | .file .., .link _ | .link _, .directory | .link _, .file .. => isFalse nofun

/-- The nodes of a file system below its root. -/
abbrev NodeMap := Std.TreeMap Location Node

/-- A location holds a directory. -/
def NodeMap.HasDirectory (nodes : NodeMap) (l : Location) : Prop :=
  l = [] ∨ nodes[l]? = some .directory

instance (nodes : NodeMap) (l : Location) : Decidable (nodes.HasDirectory l) :=
  inferInstanceAs (Decidable (_ ∨ _))

/-- Where every node but the root lies in a directory, what holds a directory is one. -/
theorem NodeMap.HasDirectory.of_append {nodes : NodeMap}
    (rooted : ∀ {l : Location} {node : Node}, nodes[l]? = some node →
      l ≠ [] ∧ nodes.HasDirectory l.parent)
    {l m : Location} (h : nodes.HasDirectory (l ++ m)) : nodes.HasDirectory l := by
  by_cases hm : m = []
  · rwa [hm, List.append_nil] at h
  · rcases h with h | h
    · exact absurd (List.append_eq_nil_iff.mp h).2 hm
    · have hparent := (rooted h).2
      have hlt : m.dropLast.length < m.length := by
        have := List.length_pos_iff.mpr hm
        rw [List.length_dropLast]
        omega
      rw [Location.parent, List.dropLast_append_of_ne_nil hm] at hparent
      exact HasDirectory.of_append rooted hparent
termination_by m.length

/-- Directories, files and links below a root, and the working directory. -/
structure FileSystem where
  nodes : NodeMap
  /-- Every node but the root lies in a directory. -/
  rooted : ∀ {l : Location} {node : Node}, nodes[l]? = some node →
    l ≠ [] ∧ nodes.HasDirectory l.parent
  workingDirectory : Directory
  /-- What is left of the way to the working directory is there. -/
  working : nodes.HasDirectory workingDirectory.location
  /-- The stamp of the next file that is created. -/
  nextStamp : Nat

namespace FileSystem

/-- A file system without files, whose working directory is its root. -/
def empty : FileSystem where
  nodes := ∅
  rooted h := by simp at h
  workingDirectory := .standing []
  working := .inl rfl
  nextStamp := 0

/-- The node at a location. -/
def node? (fs : FileSystem) (l : Location) : Option Node :=
  if l = [] then some .directory else fs.nodes[l]?

theorem hasDirectory_iff {fs : FileSystem} {l : Location} :
    fs.nodes.HasDirectory l ↔ fs.node? l = some .directory := by
  unfold NodeMap.HasDirectory node?
  split <;> simp_all

/-! ### Putting a node at a location -/

/-- A node may be put at a location: the location lies in a directory and holds none
itself. -/
def CanHold (fs : FileSystem) (l : Location) : Prop :=
  l ≠ [] ∧ fs.nodes.HasDirectory l.parent ∧ ¬ fs.nodes.HasDirectory l

instance (fs : FileSystem) (l : Location) : Decidable (fs.CanHold l) :=
  inferInstanceAs (Decidable (_ ∧ _ ∧ _))

private theorem getElem?_insert (nodes : NodeMap) (l k : Location) (node : Node) :
    (nodes.insert l node)[k]? = if k = l then some node else nodes[k]? := by
  rw [Std.TreeMap.getElem?_insert]
  simp only [Std.compare_eq_iff_eq, @eq_comm _ l k]

private theorem hasDirectory_insert {fs : FileSystem} {l p : Location} (node : Node)
    (h : fs.CanHold l) (hp : fs.nodes.HasDirectory p) :
    NodeMap.HasDirectory (fs.nodes.insert l node) p := by
  unfold NodeMap.HasDirectory
  rw [getElem?_insert]
  rcases hp with hp | hp
  · exact .inl hp
  · right
    rw [if_neg, hp]
    rintro rfl
    exact h.2.2 (.inr hp)

/-- Puts a node at a location that can hold one. -/
def put (fs : FileSystem) (l : Location) (node : Node) (h : fs.CanHold l) : FileSystem where
  nodes := fs.nodes.insert l node
  rooted {k _} hk := by
    rw [getElem?_insert] at hk
    split at hk
    · subst k
      exact ⟨h.1, hasDirectory_insert node h h.2.1⟩
    · exact ⟨(fs.rooted hk).1, hasDirectory_insert node h (fs.rooted hk).2⟩
  workingDirectory := fs.workingDirectory
  working := hasDirectory_insert node h fs.working
  nextStamp := fs.nextStamp

theorem node?_put (fs : FileSystem) (l k : Location) (node : Node) (h : fs.CanHold l) :
    (fs.put l node h).node? k = if k = l then some node else fs.node? k := by
  have hl := h.1
  unfold node? put
  simp only [getElem?_insert]
  split
  · subst k
    simp [hl.symm]
  · rfl

/-! ### Removing a location -/

/-- The nodes that do not lie at or below a location. -/
private def nodesApart (fs : FileSystem) (l : Location) : NodeMap :=
  fs.nodes.filter fun k _ => !l.isPrefixOf k

private theorem getElem?_nodesApart (fs : FileSystem) (l k : Location) :
    (fs.nodesApart l)[k]? = if l <+: k then none else fs.nodes[k]? := by
  simp only [nodesApart, Std.TreeMap.getElem?_filter']
  by_cases hbelow : l <+: k
  · rw [if_pos hbelow, List.isPrefixOf_iff_prefix.mpr hbelow]
    cases fs.nodes[k]? <;> rfl
  · rw [if_neg hbelow, Bool.eq_false_iff.mpr (mt List.isPrefixOf_iff_prefix.mp hbelow)]
    cases fs.nodes[k]? <;> rfl

private theorem hasDirectory_nodesApart {fs : FileSystem} {l k : Location}
    (h : fs.nodes.HasDirectory k) (hk : k = [] ∨ ¬ l <+: k) :
    (fs.nodesApart l).HasDirectory k := by
  rcases h with h | h
  · exact .inl h
  · rcases hk with hk | hk
    · exact .inl hk
    · right
      rw [getElem?_nodesApart, if_neg hk, h]

private theorem hasDirectory_afterRemoval (fs : FileSystem) (l : Location) :
    (fs.nodesApart l).HasDirectory (fs.workingDirectory.afterRemoval l).location := by
  unfold Directory.afterRemoval
  split
  · rename_i hbelow
    obtain ⟨m, hm⟩ := List.isPrefixOf_iff_prefix.mp hbelow
    have hworking := fs.working
    rw [← hm] at hworking
    have hparent : fs.nodes.HasDirectory l.parent := by
      rcases List.eq_nil_or_concat l with rfl | ⟨front, last, rfl⟩
      · exact .inl rfl
      · rw [Location.parent, List.concat_eq_append, List.dropLast_concat]
        rw [List.concat_eq_append, List.append_assoc] at hworking
        exact hworking.of_append fs.rooted
    refine hasDirectory_nodesApart hparent ?_
    by_cases hl : l = []
    · exact .inl (by rw [hl]; rfl)
    · refine .inr fun hle => ?_
      have hlength := hle.length_le
      have hpos := List.length_pos_iff.mpr hl
      rw [Location.parent, List.length_dropLast] at hlength
      omega
  · rename_i hapart
    exact hasDirectory_nodesApart fs.working
      (.inr fun hbelow => hapart (List.isPrefixOf_iff_prefix.mpr hbelow))

/-- Removes a location with everything below it. -/
def removeAll (fs : FileSystem) (l : Location) : FileSystem where
  nodes := fs.nodesApart l
  rooted {k node} hk := by
    rw [getElem?_nodesApart] at hk
    split at hk
    · cases hk
    · rename_i hapart
      refine ⟨(fs.rooted hk).1, hasDirectory_nodesApart (fs.rooted hk).2 (.inr fun hbelow => ?_)⟩
      exact hapart (hbelow.trans (List.dropLast_prefix k))
  workingDirectory := fs.workingDirectory.afterRemoval l
  working := hasDirectory_afterRemoval fs l
  nextStamp := fs.nextStamp

theorem node?_removeAll (fs : FileSystem) (l k : Location) (hk : k ≠ []) :
    (fs.removeAll l).node? k = if l <+: k then none else fs.node? k := by
  simp only [node?, removeAll, hk, if_false, getElem?_nodesApart]

/-! ### Working directory and stamps -/

/-- Makes another directory the working directory. -/
def enter (fs : FileSystem) (d : Directory) (h : fs.nodes.HasDirectory d.location) : FileSystem :=
  { fs with workingDirectory := d, working := h }

/-- Takes the next stamp. -/
def takeStamp (fs : FileSystem) : Nat × FileSystem :=
  (fs.nextStamp, { fs with nextStamp := fs.nextStamp + 1 })

end FileSystem

end MessageCatalog
