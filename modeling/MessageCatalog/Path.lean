/-!
# Paths as text

A path is a text whose segments are parted by slashes.  Joining and going to the
parent work on the text alone: they look at no file system and keep the spelling
of everything that they do not remove.

The parent of a path lacks its last segment; empty segments and `.` do not count,
except for a `.` at the front.  It is shorter than the path (`length_of_parent?`),
so the chain of parents ends (`ancestors`).
-/

namespace MessageCatalog

/-! ### Segments -/

/-- The parts of a text between slashes. -/
def segments : List Char → List (List Char)
  | [] => [[]]
  | c :: s =>
    if c = '/' then [] :: segments s
    else
      match segments s with
      | [] => [[c]]
      | first :: others => (c :: first) :: others

/-- Segments put together with slashes between them. -/
def joinSegments : List (List Char) → List Char
  | [] => []
  | [s] => s
  | s :: t :: others => s ++ '/' :: joinSegments (t :: others)

theorem segments_ne_nil (s : List Char) : segments s ≠ [] := by
  cases s with
  | nil => simp [segments]
  | cons c s =>
    simp only [segments]
    split
    · simp
    · split <;> simp

theorem joinSegments_cons {s : List Char} {others : List (List Char)} (h : others ≠ []) :
    joinSegments (s :: others) = s ++ '/' :: joinSegments others := by
  cases others with
  | nil => exact absurd rfl h
  | cons t others => rfl

theorem joinSegments_cons_cons (c : Char) (s : List Char) (others : List (List Char)) :
    joinSegments ((c :: s) :: others) = c :: joinSegments (s :: others) := by
  cases others <;> simp [joinSegments]

theorem joinSegments_segments (s : List Char) : joinSegments (segments s) = s := by
  induction s with
  | nil => rfl
  | cons c s ih =>
    simp only [segments]
    split
    · rename_i hc
      rw [joinSegments_cons (segments_ne_nil s), ih, hc, List.nil_append]
    · split
      · rename_i h
        exact absurd h (segments_ne_nil s)
      · rename_i first others h
        rw [joinSegments_cons_cons, ← h, ih]

theorem length_joinSegments_le_append (first second : List (List Char)) :
    (joinSegments first).length ≤ (joinSegments (first ++ second)).length := by
  induction first with
  | nil => simp [joinSegments]
  | cons s first ih =>
    cases first with
    | nil =>
      cases second with
      | nil => simp
      | cons t second => simp [joinSegments]
    | cons t first =>
      simp only [List.cons_append] at ih ⊢
      rw [joinSegments_cons (List.cons_ne_nil _ _), joinSegments_cons (List.cons_ne_nil _ _)]
      simp only [List.length_append, List.length_cons]
      omega

theorem length_joinSegments_lt {front : List (List Char)} {last : List Char}
    (others : List (List Char)) (hlast : last ≠ []) :
    (joinSegments front).length < (joinSegments (front ++ last :: others)).length := by
  induction front with
  | nil =>
    have hpos := List.length_pos_iff.mpr hlast
    have hle := length_joinSegments_le_append [last] others
    simp only [joinSegments, List.singleton_append] at hle
    simp only [joinSegments, List.length_nil, List.nil_append]
    omega
  | cons s front ih =>
    cases front with
    | nil => simp [joinSegments]
    | cons t front =>
      simp only [List.cons_append] at ih ⊢
      rw [joinSegments_cons (List.cons_ne_nil _ _), joinSegments_cons (List.cons_ne_nil _ _)]
      simp only [List.length_append, List.length_cons]
      omega

/-! ### Paths -/

/-- The text of a path. -/
structure Path where
  text : String
  deriving DecidableEq, Repr

namespace Path

def isAbsolute (p : Path) : Bool :=
  p.text.toList.head? == some '/'

/-- A path below another.  An absolute path stands for itself, and a slash is put between the
two unless the first is empty or ends in one. -/
def join (base p : Path) : Path :=
  if p.isAbsolute then p
  else if base.text.isEmpty || base.text.toList.getLast? == some '/' then ⟨base.text ++ p.text⟩
  else ⟨base.text ++ "/" ++ p.text⟩

/-- A segment that does not lead anywhere. -/
def isIdle (segment : List Char) : Bool :=
  segment == [] || segment == ['.']

/-- The front of a path that no segment covers: the slash of an absolute path or a dot. -/
def leadOf (s : List Char) : List Char :=
  match s with
  | '/' :: _ => ['/']
  | ['.'] => ['.']
  | '.' :: '/' :: _ => ['.']
  | _ => []

/-- The segments behind the lead in reverse, from the last one that leads somewhere. -/
def trimmedRev (s : List Char) : List (List Char) :=
  (segments (s.drop (leadOf s).length)).reverse.dropWhile isIdle

/-- The path without its last segment; there is none for an empty path or the root. -/
def parent? (p : Path) : Option Path :=
  let s := p.text.toList
  match trimmedRev s with
  | [] => if leadOf s = ['.'] then some ⟨""⟩ else none
  | _ :: others =>
    some ⟨String.ofList (leadOf s ++ joinSegments (others.dropWhile isIdle).reverse)⟩

/-- The last segment, if it names something. -/
def fileName? (p : Path) : Option String :=
  match trimmedRev p.text.toList with
  | [] => none
  | last :: _ => if last = ['.', '.'] then none else some (String.ofList last)

/-- What the spelling of a path says: its lead and the segments that lead somewhere. -/
def parts (p : Path) : List Char × List (List Char) :=
  let s := p.text.toList
  (leadOf s, (segments (s.drop (leadOf s).length)).filter fun segment => !isIdle segment)

/-- Two paths say the same but for slashes and dots that make no difference. -/
def spellsLike (p q : Path) : Bool :=
  p.parts == q.parts

theorem leadOf_append_drop (s : List Char) : leadOf s ++ s.drop (leadOf s).length = s := by
  unfold leadOf
  split <;> simp

/-- A parent is shorter than the path. -/
theorem length_of_parent? {p q : Path} (h : p.parent? = some q) :
    q.text.toList.length < p.text.toList.length := by
  have hlead := leadOf_append_drop p.text.toList
  unfold parent? at h
  dsimp only at h
  split at h
  · split at h
    · rename_i hdot
      cases h
      rw [hdot] at hlead
      rw [← hlead]
      simp
    · cases h
  · rename_i last others htrim
    cases h
    simp only [String.toList_ofList]
    obtain ⟨idle, hidle⟩ : ∃ idle, idle ++ trimmedRev p.text.toList =
        (segments (p.text.toList.drop (leadOf p.text.toList).length)).reverse :=
      ⟨_, List.takeWhile_append_dropWhile⟩
    obtain ⟨gap, hgap⟩ : ∃ gap, gap ++ others.dropWhile isIdle = others :=
      ⟨_, List.takeWhile_append_dropWhile⟩
    have hlast : last ≠ [] := by
      rintro rfl
      have := List.head?_dropWhile_not isIdle
        (segments (p.text.toList.drop (leadOf p.text.toList).length)).reverse
      rw [show List.dropWhile isIdle _ = trimmedRev p.text.toList from rfl, htrim] at this
      simp [isIdle] at this
    have hsegs : segments (p.text.toList.drop (leadOf p.text.toList).length) =
        (others.dropWhile isIdle).reverse ++ (gap.reverse ++ last :: idle.reverse) := by
      apply List.reverse_inj.mp
      rw [← hidle, htrim]
      simp only [List.reverse_append, List.reverse_cons, List.reverse_reverse, List.append_assoc,
        List.cons_append, List.nil_append]
      rw [hgap]
    have hjoin := joinSegments_segments (p.text.toList.drop (leadOf p.text.toList).length)
    rw [hsegs] at hjoin
    have hlt : (joinSegments (others.dropWhile isIdle).reverse).length <
        (p.text.toList.drop (leadOf p.text.toList).length).length := by
      rw [← hjoin, ← List.append_assoc]
      refine Nat.lt_of_le_of_lt (length_joinSegments_le_append _ gap.reverse) ?_
      exact length_joinSegments_lt _ hlast
    have hlen := congrArg List.length hlead
    rw [List.length_append] at hlen ⊢
    omega

/-- A path, its parent, and so on. -/
def ancestors (p : Path) : List Path :=
  p ::
    match _h : p.parent? with
    | none => []
    | some q => ancestors q
termination_by p.text.toList.length
decreasing_by exact length_of_parent? ‹_›

end Path

end MessageCatalog
