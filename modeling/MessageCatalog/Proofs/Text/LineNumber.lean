import MessageCatalog.Text.Line
import Mathlib.Data.List.Basic

/-!
# Line numbers

The line of an offset, found by bisection, is one more than the number of line feeds before the
offset (`LineIndex.lineAt_ofText`, `LineIndex.lineAt_byteLength`).  So it depends on the text up to
the offset alone, and a text that goes on leaves the lines of its front as they are
(`LineIndex.lineAt_ofText_append`).
-/

namespace MessageCatalog.Text

/-! ### Starts of lines -/

private theorem startsAfter_append (offset : Nat) (a b : List Char) :
    startsAfter offset (a ++ b) =
      startsAfter offset a ++ startsAfter (offset + byteLength a) b := by
  induction a generalizing offset with
  | nil => simp [startsAfter]
  | cons c a ih =>
      have hlength : offset + c.utf8Size + byteLength a = offset + byteLength (c :: a) := by
        rw [byteLength_cons, Nat.add_assoc]
      simp only [List.cons_append, startsAfter, ih, hlength]
      split <;> rfl

private theorem le_of_mem_startsAfter {s : List Char} {offset n : Nat}
    (h : n ∈ startsAfter offset s) :
    n ≤ offset + byteLength s := by
  induction s generalizing offset with
  | nil => cases h
  | cons c s ih =>
      rw [byteLength_cons, ← Nat.add_assoc]
      simp only [startsAfter] at h
      split at h
      · rcases List.mem_cons.mp h with rfl | h
        · exact Nat.le_add_right _ _
        · exact ih h
      · exact ih h

private theorem length_startsAfter (offset : Nat) (s : List Char) :
    (startsAfter offset s).length = s.count '\n' := by
  induction s generalizing offset with
  | nil => rfl
  | cons c s ih =>
      simp only [startsAfter]
      by_cases hc : c = '\n'
      · subst hc
        rw [if_pos rfl, List.length_cons, ih, List.count_cons_self]
      · rw [if_neg hc, ih, List.count_cons_of_ne hc]

namespace LineIndex

/-! ### Bisection -/

/-- A list of which the front does not lie beyond an offset, and the back does. -/
private theorem countP_eq_of_take_of_drop {starts : List Nat} {offset k : Nat}
    (hk : k ≤ starts.length) (hfront : ∀ n ∈ starts.take k, n ≤ offset)
    (hback : ∀ n ∈ starts.drop k, offset < n) :
    starts.countP (fun n => decide (n ≤ offset)) = k := by
  have htake : (starts.take k).countP (fun n => decide (n ≤ offset)) = k := by
    rw [List.countP_eq_length.mpr (by simpa using hfront), List.length_take]
    omega
  have hdrop : (starts.drop k).countP (fun n => decide (n ≤ offset)) = 0 := by
    rw [List.countP_eq_zero]
    intro n hn
    have hlt := hback n hn
    simp
    omega
  calc starts.countP (fun n => decide (n ≤ offset))
      = (starts.take k ++ starts.drop k).countP (fun n => decide (n ≤ offset)) := by
        rw [List.take_append_drop]
    _ = k := by rw [List.countP_append, htake, hdrop, Nat.add_zero]

/-- Bisection counts the starts that do not lie beyond the offset, as long as those before `lo` do
not and those from `hi` on do. -/
private theorem bisect_eq_countP {starts : Array Nat} (hincreasing : starts.toList.Pairwise (· < ·))
    {offset lo hi : Nat} (hhi : hi ≤ starts.size) (hle : lo ≤ hi)
    (hbelow : ∀ n ∈ starts.toList.take lo, n ≤ offset)
    (habove : ∀ n ∈ starts.toList.drop hi, offset < n) :
    bisect starts offset lo hi hhi = starts.toList.countP fun n => decide (n ≤ offset) := by
  rw [bisect]
  split
  · rename_i hlt
    have hmid : (lo + hi) / 2 < starts.toList.length := by
      rw [Array.length_toList]
      omega
    -- the start in the middle parts the starts into smaller and larger ones
    have hparted := hincreasing
    rw [← List.take_append_drop ((lo + hi) / 2) starts.toList, List.drop_eq_getElem_cons hmid,
      List.pairwise_append, List.pairwise_cons] at hparted
    obtain ⟨-, ⟨hafter, -⟩, hbefore⟩ := hparted
    rw [Array.getElem_toList] at hafter hbefore
    dsimp only
    split
    · rename_i hmiddle
      refine bisect_eq_countP hincreasing hhi (by omega) (fun n hn => ?_) habove
      rw [List.take_succ_eq_append_getElem hmid, Array.getElem_toList] at hn
      rcases List.mem_append.mp hn with hn | hn
      · have hlt := hbefore n hn _ (List.mem_cons_self ..)
        omega
      · obtain rfl := List.mem_singleton.mp hn
        exact hmiddle
    · rename_i hmiddle
      refine bisect_eq_countP hincreasing (by omega) (by omega) hbelow (fun n hn => ?_)
      rw [List.drop_eq_getElem_cons hmid, Array.getElem_toList] at hn
      rcases List.mem_cons.mp hn with rfl | hn
      · omega
      · have hlt := hafter n hn
        omega
  · obtain rfl : lo = hi := by omega
    exact (countP_eq_of_take_of_drop (by rwa [Array.length_toList]) hbelow habove).symm
termination_by hi - lo

/-- The line of an offset is the number of starts that do not lie beyond it. -/
theorem lineAt_eq_countP (index : LineIndex) (offset : Nat) :
    index.lineAt offset = index.starts.toList.countP fun n => decide (n ≤ offset) := by
  have hall : index.starts.toList.drop index.starts.size = [] :=
    List.drop_eq_nil_of_le (Nat.le_of_eq Array.length_toList)
  refine bisect_eq_countP index.increasing _ (Nat.zero_le _) ?_ ?_
  · simp
  · simp [hall]

/-- The line of an offset in a text is one more than the number of line feeds before it. -/
theorem lineAt_ofText (s : List Char) (offset : Nat) :
    (ofText s).lineAt offset = 1 + (startsAfter 0 s).countP fun n => decide (n ≤ offset) := by
  rw [lineAt_eq_countP, ofText]
  simp [Nat.add_comm]

/-- **A text that goes on leaves the lines of its front as they are.** -/
theorem lineAt_ofText_append {a : List Char} (b : List Char) {offset : Nat}
    (h : offset ≤ byteLength a) : (ofText (a ++ b)).lineAt offset = (ofText a).lineAt offset := by
  have hbeyond : (startsAfter (0 + byteLength a) b).countP (fun n => decide (n ≤ offset)) = 0 := by
    rw [List.countP_eq_zero]
    intro n hn
    have hlt := lt_of_mem_startsAfter hn
    simp
    omega
  rw [lineAt_ofText, lineAt_ofText, startsAfter_append, List.countP_append, hbeyond, Nat.add_zero]

/-- **The line of the place behind some text is one more than the number of its line feeds.** -/
theorem lineAt_byteLength (a b : List Char) :
    (ofText (a ++ b)).lineAt (byteLength a) = 1 + a.count '\n' := by
  have hall : (startsAfter 0 a).countP (fun n => decide (n ≤ byteLength a)) = a.count '\n' := by
    rw [← length_startsAfter 0, List.countP_eq_length]
    intro n hn
    have hle := le_of_mem_startsAfter hn
    simp
    omega
  rw [lineAt_ofText_append b (Nat.le_refl _), lineAt_ofText, hall]

end LineIndex

theorem byteLength_toList (s : String) : byteLength s.toList = s.utf8ByteSize := by
  have hbytes : ∀ cs : List Char, byteLength cs = (String.ofList cs).utf8ByteSize := by
    intro cs
    induction cs with
    | nil => rfl
    | cons c cs ih =>
        have hcons : String.ofList (c :: cs) = String.singleton c ++ String.ofList cs := by
          rw [← String.toList_inj]
          simp
        rw [byteLength_cons, ih, hcons, String.utf8ByteSize_append, String.utf8ByteSize_singleton]
  rw [hbytes, String.ofList_toList]

theorem length_le_byteLength (s : List Char) : s.length ≤ byteLength s := by
  induction s with
  | nil => exact Nat.le_refl 0
  | cons c s ih =>
      have hpos := c.utf8Size_pos
      rw [List.length_cons, byteLength_cons]
      omega

theorem byteLength_replicate (c : Char) (n : Nat) :
    byteLength (List.replicate n c) = n * c.utf8Size := by
  induction n with
  | zero => rw [List.replicate_zero, byteLength_nil, Nat.zero_mul]
  | succ n ih =>
      rw [List.replicate_succ, byteLength_cons, ih, Nat.succ_mul, Nat.add_comm]

end MessageCatalog.Text
