import MessageCatalog.Proofs.Config.Discovery
import MessageCatalog.Proofs.FileSystem.Footprint

/-!
# The search for a configuration file

The search takes a path, then its parent, and so on (`Path.above`).  It comes to one of them only if
neither a configuration nor a boundary stands below it (`Visits`), and from there on it is the
search of that path (`Visits.found_eq`).  Every path is shorter than the one before, so the search
comes to a last one (`exists_last_visit`), and that one decides what is found.

Two file systems can differ in whatever the search does not ask for (`Asks`): in all that stands
above a boundary or beside the way, and in a boundary beside the configuration that is found.
-/

namespace MessageCatalog

/-! ### The way up -/

namespace Path

variable {p q : Path}

/-- A path without some of its last segments, as long as there are segments to drop. -/
def above (start : Path) : Nat → Option Path
  | 0 => some start
  | n + 1 => (start.above n).bind parent?

theorem above_succ {n : Nat} (h : p.above n = some q) : p.above (n + 1) = q.parent? := by
  rw [above, h, Option.bind_some]

private theorem length_add_le_of_above {n : Nat} (h : p.above n = some q) :
    q.text.toList.length + n ≤ p.text.toList.length := by
  induction n generalizing q with
  | zero =>
      cases h
      exact Nat.le_refl _
  | succ n ih =>
      obtain ⟨r, hr, hparent⟩ := Option.bind_eq_some_iff.mp h
      have hlt := length_of_parent? hparent
      have hle := ih hr
      omega

private theorem above_eq_none {n : Nat} (h : p.text.toList.length < n) : p.above n = none := by
  cases hn : p.above n with
  | none => rfl
  | some q =>
      have hle := length_add_le_of_above hn
      omega

end Path

/-- A path leads to a directory or a file; one that ends in a link has to lead on to one. -/
def FileSystem.isThere (fs : FileSystem) (p : Path) : Bool :=
  (fs.kindAt? p).isSome

namespace Config

open FileSystem

variable {fs fs' : FileSystem} {start p : Path} {i : Nat} {a b : Path}

/-! ### One step of the search -/

private theorem find_apply (fs : FileSystem) (start : Path) :
    (find start : StateM FileSystem (Option Path)) fs = (found fs start, fs) := by
  rw [found, find, findAlong_eq]

/-- The search looks for a configuration, then for a boundary, and goes on with the parent. -/
theorem found_eq_step (fs : FileSystem) (start : Path) :
    found fs start =
      if fs.isThere (start.join fileName) then some (start.join fileName)
      else if fs.isThere (start.join boundaryName) then none
      else start.parent?.bind (found fs) := by
  rw [found_eq, Path.ancestors_eq, foundAlong]
  cases start.parent? with
  | none => rfl
  | some q =>
      rw [Option.bind_some, found_eq]
      rfl

/-! ### Paths that the search visits -/

/-- A path of the way up, so many steps from the start, below which there is neither a configuration
nor a boundary. -/
structure Visits (fs : FileSystem) (start : Path) (i : Nat) (a : Path) : Prop where
  above : start.above i = some a
  no_config : ∀ j < i, ∀ b, start.above j = some b → fs.isThere (b.join fileName) = false
  no_boundary : ∀ j < i, ∀ b, start.above j = some b → fs.isThere (b.join boundaryName) = false

namespace Visits

theorem zero (fs : FileSystem) (start : Path) : Visits fs start 0 start where
  above := rfl
  no_config _ hj := absurd hj (Nat.not_lt_zero _)
  no_boundary _ hj := absurd hj (Nat.not_lt_zero _)

theorem succ (h : Visits fs start i a) (hconfig : fs.isThere (a.join fileName) = false)
    (hboundary : fs.isThere (a.join boundaryName) = false) (hparent : a.parent? = some b) :
    Visits fs start (i + 1) b where
  above := (Path.above_succ h.above).trans hparent
  no_config j hj c hc := by
    rcases Nat.lt_succ_iff_lt_or_eq.mp hj with hj | rfl
    · exact h.no_config j hj c hc
    · cases h.above.symm.trans hc
      exact hconfig
  no_boundary j hj c hc := by
    rcases Nat.lt_succ_iff_lt_or_eq.mp hj with hj | rfl
    · exact h.no_boundary j hj c hc
    · cases h.above.symm.trans hc
      exact hboundary

/-- The search comes by every path below the one to which it comes. -/
theorem of_le {j : Nat} (h : Visits fs start i a) (hj : j ≤ i) (hb : start.above j = some b) :
    Visits fs start j b where
  above := hb
  no_config k hk := h.no_config k (Nat.lt_of_lt_of_le hk hj)
  no_boundary k hk := h.no_boundary k (Nat.lt_of_lt_of_le hk hj)

/-- **What the search finds is found from every path that it visits.** -/
theorem found_eq (h : Visits fs start i a) : found fs start = found fs a := by
  induction i generalizing a with
  | zero =>
      cases h.above
      rfl
  | succ i ih =>
      obtain ⟨b, hb, hparent⟩ := Option.bind_eq_some_iff.mp h.above
      have hconfig := h.no_config i (Nat.lt_succ_self i) b hb
      have hboundary := h.no_boundary i (Nat.lt_succ_self i) b hb
      calc found fs start
          = found fs b := ih (h.of_le (Nat.le_succ i) hb)
        _ = b.parent?.bind (found fs) := by
          rw [found_eq_step, hconfig, hboundary, if_neg Bool.false_ne_true,
            if_neg Bool.false_ne_true]
        _ = found fs a := by rw [hparent, Option.bind_some]

end Visits

/-- What ends the search at a path. -/
inductive EndsAt (fs : FileSystem) (a : Path) : Prop
  | config (hconfig : fs.isThere (a.join fileName) = true)
  | boundary (hconfig : fs.isThere (a.join fileName) = false)
      (hboundary : fs.isThere (a.join boundaryName) = true)
  | top (hconfig : fs.isThere (a.join fileName) = false)
      (hboundary : fs.isThere (a.join boundaryName) = false) (hparent : a.parent? = none)

/-- Every search comes to a path where it ends. -/
theorem exists_last_visit {i : Nat} {a : Path} (h : Visits fs start i a) :
    ∃ j b, Visits fs start j b ∧ EndsAt fs b := by
  cases hconfig : fs.isThere (a.join fileName) with
  | true => exact ⟨i, a, h, .config hconfig⟩
  | false =>
      cases hboundary : fs.isThere (a.join boundaryName) with
      | true => exact ⟨i, a, h, .boundary hconfig hboundary⟩
      | false =>
          cases hparent : a.parent? with
          | none => exact ⟨i, a, h, .top hconfig hboundary hparent⟩
          | some b => exact exists_last_visit (h.succ hconfig hboundary hparent)
termination_by a.text.toList.length
decreasing_by exact Path.length_of_parent? hparent

/-! ### What is found -/

/-- The first path of the way up with a configuration, if no boundary stands below it.  A boundary
beside the configuration makes no difference. -/
structure IsNearest (fs : FileSystem) (start : Path) (i : Nat) (a : Path) : Prop
    extends Visits fs start i a where
  config : fs.isThere (a.join fileName) = true

theorem found_of_config (h : fs.isThere (a.join fileName) = true) :
    found fs a = some (a.join fileName) := by
  rw [found_eq_step, if_pos h]

private theorem IsNearest.found_eq (h : IsNearest fs start i a) :
    found fs start = some (a.join fileName) := by
  rw [h.toVisits.found_eq, found_of_config h.config]

/-- Where the search ends without a configuration it finds none. -/
theorem found_of_not_config (hends : EndsAt fs a) (h : fs.isThere (a.join fileName) = false) :
    found fs a = none := by
  rw [found_eq_step, if_neg (by simp [h])]
  cases hends with
  | config hconfig => cases h.symm.trans hconfig
  | boundary _ hboundary => rw [if_pos hboundary]
  | top _ hboundary hparent => rw [if_neg (by simp [hboundary]), hparent, Option.bind_none]

private theorem found_eq_none (h : ∀ i a, ¬ IsNearest fs start i a) : found fs start = none := by
  obtain ⟨i, a, hvisits, hends⟩ := exists_last_visit (Visits.zero fs start)
  rw [hvisits.found_eq]
  refine found_of_not_config hends (Bool.eq_false_iff.mpr ?_)
  intro hconfig
  exact h i a ⟨hvisits, hconfig⟩

/-! ### What makes no difference -/

/-- The search asks whether something is there at a path: at the configuration of each path that it
visits and, where there is none, at the boundary. -/
def Asks (fs : FileSystem) (start p : Path) : Prop :=
  ∃ i a, Visits fs start i a ∧
    (p = a.join fileName ∨ fs.isThere (a.join fileName) = false ∧ p = a.join boundaryName)

private theorem Visits.of_same_answers (h : Visits fs start i a)
    (hsame : ∀ p, Asks fs start p → fs'.isThere p = fs.isThere p) : Visits fs' start i a where
  above := h.above
  no_config j hj b hb := by
    have hvisits := h.of_le hj.le hb
    exact (hsame _ ⟨j, b, hvisits, .inl rfl⟩).trans (h.no_config j hj b hb)
  no_boundary j hj b hb := by
    have hvisits := h.of_le hj.le hb
    exact (hsame _ ⟨j, b, hvisits, .inr ⟨h.no_config j hj b hb, rfl⟩⟩).trans
      (h.no_boundary j hj b hb)

private theorem EndsAt.of_same_answers (hends : EndsAt fs a) (h : Visits fs start i a)
    (hsame : ∀ p, Asks fs start p → fs'.isThere p = fs.isThere p) : EndsAt fs' a := by
  have hconfigs := hsame _ ⟨i, a, h, .inl rfl⟩
  cases hends with
  | config hconfig => exact .config (hconfigs.trans hconfig)
  | boundary hconfig hboundary =>
      have hboundaries := hsame _ ⟨i, a, h, .inr ⟨hconfig, rfl⟩⟩
      exact .boundary (hconfigs.trans hconfig) (hboundaries.trans hboundary)
  | top hconfig hboundary hparent =>
      have hboundaries := hsame _ ⟨i, a, h, .inr ⟨hconfig, rfl⟩⟩
      exact .top (hconfigs.trans hconfig) (hboundaries.trans hboundary) hparent

/-- **What is found depends on the answers to the questions of the search alone.** -/
theorem found_eq_of_same_answers
    (hsame : ∀ p, Asks fs start p → fs'.isThere p = fs.isThere p) :
    found fs' start = found fs start := by
  obtain ⟨i, a, hvisits, hends⟩ := exists_last_visit (Visits.zero fs start)
  have hends' := hends.of_same_answers hvisits hsame
  have hconfigs := hsame _ ⟨i, a, hvisits, .inl rfl⟩
  rw [hvisits.found_eq, (hvisits.of_same_answers hsame).found_eq]
  cases hconfig : fs.isThere (a.join fileName) with
  | true => rw [found_of_config hconfig, found_of_config (hconfigs.trans hconfig)]
  | false =>
      rw [found_of_not_config hends hconfig,
        found_of_not_config hends' (hconfigs.trans hconfig)]

/-- **The search finds the nearest configuration on the way up, unless a boundary stands below it.**
The way up ends, and the search changes nothing.  What is found depends on the answers to its own
questions alone, and these depend on the nodes at which it looks: nothing above the first boundary
counts, and nothing beside the way. -/
theorem find_takes_nearest (fs : FileSystem) (start : Path) :
    (∀ i, start.text.toList.length < i → start.above i = none) ∧
      (∀ i a, IsNearest fs start i a →
        (find start : StateM FileSystem (Option Path)) fs = (some (a.join fileName), fs)) ∧
      ((∀ i a, ¬ IsNearest fs start i a) →
        (find start : StateM FileSystem (Option Path)) fs = (none, fs)) ∧
      (∀ fs', (∀ p, Asks fs start p → fs'.isThere p = fs.isThere p) →
        found fs' start = found fs start) ∧
      ∀ fs', fs'.workingDirectory = fs.workingDirectory →
        (∀ p, Asks fs start p → AgreeOn (fs.footprint .lookup p) fs fs') →
          found fs' start = found fs start := by
  refine ⟨fun i hi => Path.above_eq_none hi, ?_, ?_, fun fs' => found_eq_of_same_answers, ?_⟩
  · intro i a hnearest
    rw [find_apply, hnearest.found_eq]
  · intro hnone
    rw [find_apply, found_eq_none hnone]
  · intro fs' hworking hagree
    refine found_eq_of_same_answers fun p hp => ?_
    rw [isThere, isThere, kindAt?_congr hworking (hagree p hp)]

/-! ### A configuration beside a boundary -/

/-- The directory of a repository. -/
def repositoryLocation : Location :=
  [⟨"work", by decide⟩]

/-- A repository with a configuration beside its boundary, below a directory with another
configuration. -/
def repository : FileSystem :=
  let built : Except AccessFault FileSystem := do
    let fs ← FileSystem.empty.store repositoryLocation .directory
    let fs ← fs.store (repositoryLocation ++ [⟨"app", by decide⟩]) .directory
    let fs ← fs.store (repositoryLocation ++ [projectName]) .directory
    let fs ← fs.store (repositoryLocation ++ [configName]) (.file 0 "\x7b\x7d".toUTF8)
    fs.store [configName] (.file 1 "\x7b\x7d".toUTF8)
  built.toOption.getD .empty

/-- The boundary does not hide the configuration beside it, and nothing changes when the one above
is removed. -/
theorem finds_config_beside_boundary :
    IsNearest repository ⟨"/work/app"⟩ 1 ⟨"/work"⟩ ∧
      repository.isThere ⟨"/work/.git"⟩ = true ∧
      (find ⟨"/work/app"⟩ : StateM FileSystem (Option Path)) repository =
        (some ⟨"/work/.xtextrc.json"⟩, repository) ∧
      found (repository.removeAll [configName]) ⟨"/work/app"⟩ =
        found repository ⟨"/work/app"⟩ := by
  have hconfig : repository.isThere ⟨"/work/.xtextrc.json"⟩ = true := by decide +kernel
  have habove : (⟨"/work/app"⟩ : Path).above 1 = some ⟨"/work"⟩ := by decide +kernel
  have hnearest : IsNearest repository ⟨"/work/app"⟩ 1 ⟨"/work"⟩ := by
    have hfirst : Visits repository ⟨"/work/app"⟩ 0 ⟨"/work/app"⟩ := .zero _ _
    exact ⟨hfirst.succ (by decide +kernel) (by decide +kernel) habove, hconfig⟩
  obtain ⟨-, hfinds, -, -, hfar⟩ := find_takes_nearest repository ⟨"/work/app"⟩
  refine ⟨hnearest, by decide +kernel, hfinds 1 _ hnearest, hfar _ (by decide +kernel) ?_⟩
  intro p hp
  obtain ⟨i, a, hvisits, hp⟩ := hp
  -- the search does not go on behind the configuration
  have hi : i = 0 ∨ i = 1 := by
    by_contra hi
    have hnone := hvisits.no_config 1 (by omega) _ habove
    exact absurd (hnone.symm.trans hconfig) (by decide)
  rcases hi with rfl | rfl
  · cases hvisits.above
    rcases hp with rfl | ⟨-, rfl⟩ <;> decide +kernel
  · cases habove.symm.trans hvisits.above
    rcases hp with rfl | ⟨hnone, -⟩
    · decide +kernel
    · exact absurd (hnone.symm.trans hconfig) (by decide)

end Config

end MessageCatalog
