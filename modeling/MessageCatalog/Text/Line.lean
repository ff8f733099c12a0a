/-!
# Lines by offset

Positions in a text are byte offsets into its UTF-8 form.  A line starts at
offset 0 and behind each line feed; no other character ends a line.  The index
of a text lists those starts in increasing order, and the line of an offset is
the number of starts that do not lie beyond it, found by bisection.
-/

namespace MessageCatalog.Text

/-- The number of bytes in the UTF-8 form of a text. -/
def byteLength : List Char → Nat
  | [] => 0
  | c :: s => c.utf8Size + byteLength s

@[simp] theorem byteLength_nil : byteLength [] = 0 := rfl

@[simp] theorem byteLength_cons (c : Char) (s : List Char) :
    byteLength (c :: s) = c.utf8Size + byteLength s := rfl

@[simp] theorem byteLength_append (s t : List Char) :
    byteLength (s ++ t) = byteLength s + byteLength t := by
  induction s with
  | nil => simp
  | cons c s ih => simp [ih, Nat.add_assoc]

/-- The offsets behind the line feeds of a text that starts at `offset`. -/
def startsAfter (offset : Nat) : List Char → List Nat
  | [] => []
  | c :: s =>
    let next := offset + c.utf8Size
    if c = '\n' then next :: startsAfter next s else startsAfter next s

theorem lt_of_mem_startsAfter {s : List Char} :
    ∀ {offset n : Nat}, n ∈ startsAfter offset s → offset < n := by
  induction s with
  | nil => intro offset n h; cases h
  | cons c s ih =>
    intro offset n h
    have hpos := c.utf8Size_pos
    simp only [startsAfter] at h
    split at h
    · rcases List.mem_cons.mp h with rfl | h
      · omega
      · have := ih h; omega
    · have := ih h; omega

theorem pairwise_startsAfter (s : List Char) :
    ∀ offset, (startsAfter offset s).Pairwise (· < ·) := by
  induction s with
  | nil => intro offset; exact List.Pairwise.nil
  | cons c s ih =>
    intro offset
    simp only [startsAfter]
    split
    · exact List.pairwise_cons.mpr ⟨fun n hn => lt_of_mem_startsAfter hn, ih _⟩
    · exact ih _

/-- The starts of the lines of a text. -/
structure LineIndex where
  starts : Array Nat
  increasing : starts.toList.Pairwise (· < ·)

namespace LineIndex

/-- The index of a text. -/
def ofText (s : List Char) : LineIndex where
  starts := (0 :: startsAfter 0 s).toArray
  increasing := by
    simp only [List.pairwise_cons]
    exact ⟨fun n hn => lt_of_mem_startsAfter hn, pairwise_startsAfter s 0⟩

/-- The first place from `lo` on, at most `hi`, whose start lies beyond the offset,
where every start before `lo` does not and every start from `hi` on does. -/
def bisect (starts : Array Nat) (offset lo hi : Nat) (hhi : hi ≤ starts.size) : Nat :=
  if _h : lo < hi then
    let mid := (lo + hi) / 2
    if starts[mid] ≤ offset then bisect starts offset (mid + 1) hi hhi
    else bisect starts offset lo mid (by omega)
  else lo
termination_by hi - lo

/-- The line of a byte offset, counted from 1. -/
def lineAt (index : LineIndex) (offset : Nat) : Nat :=
  bisect index.starts offset 0 index.starts.size (Nat.le_refl _)

end LineIndex

end MessageCatalog.Text
