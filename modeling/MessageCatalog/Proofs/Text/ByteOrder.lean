import Mathlib.Data.List.Basic
import Mathlib.Tactic.SplitIfs

/-!
# The order of bytes

Texts are ordered by their code points.  Their encodings have the same order (`bytesOf_lt`): of two
characters the smaller one has the smaller byte at the first place where their encodings differ,
and there is such a place, since no encoding begins another one (`utf8EncodeChar_append_lt`).
-/

namespace MessageCatalog.Text

/-- The bytes of some characters in a file or in the name of one. -/
def bytesOf (text : List Char) : List UInt8 :=
  (String.ofList text).toUTF8.data.toList

private theorem bytesOf_eq_flatMap (text : List Char) :
    bytesOf text = text.flatMap String.utf8EncodeChar := by
  rw [bytesOf, String.toUTF8_eq_toByteArray, String.toByteArray_ofList, List.utf8Encode,
    List.data_toByteArray]

theorem bytesOf_cons (c : Char) (text : List Char) :
    bytesOf (c :: text) = String.utf8EncodeChar c ++ bytesOf text := by
  rw [bytesOf_eq_flatMap, bytesOf_eq_flatMap, List.flatMap_cons]

private theorem toNat_val_lt (c : Char) : c.val.toNat < 0x110000 := by
  rcases c.valid with hlow | ⟨-, hhigh⟩
  · exact Nat.lt_trans hlow (by decide)
  · exact hhigh

/-- A smaller number has the smaller digits in front, or the same ones and a smaller digit next. -/
private theorem div_lt_or_mod_lt {v w : Nat} (h : v < w) (n : Nat) :
    v / n < w / n ∨ v / n = w / n ∧ v % n < w % n := by
  rcases Nat.lt_or_eq_of_le (Nat.div_le_div_right (Nat.le_of_lt h)) with hlt | heq
  · exact .inl hlt
  · have hv := Nat.div_add_mod v n
    have hw := Nat.div_add_mod w n
    rw [heq] at hv
    exact .inr ⟨heq, by omega⟩

/-- The encodings of two characters have the order of the characters, whatever follows them. -/
theorem utf8EncodeChar_append_lt {c d : Char} (h : c < d) (s t : List UInt8) :
    String.utf8EncodeChar c ++ s < String.utf8EncodeChar d ++ t := by
  have hlt : c.val.toNat < d.val.toNat := h
  have hd := toNat_val_lt d
  unfold String.utf8EncodeChar
  dsimp only
  generalize c.val.toNat = v at hlt
  generalize d.val.toNat = w at hlt hd
  have hlast := div_lt_or_mod_lt hlt 64
  have hthird := div_lt_or_mod_lt hlt 4096
  have hlead := div_lt_or_mod_lt hlt 262144
  -- the first byte grows with the number of bytes; of the same number, the first digit decides
  -- in which the characters differ
  split_ifs
  all_goals
    simp only [List.cons_append, List.nil_append, List.cons_lt_cons_iff, UInt8.lt_iff_toNat_lt,
      ← UInt8.toNat_inj, UInt8.toNat_ofNat']
    rcases hlast with hlast | ⟨hlast, -⟩ <;> rcases hthird with hthird | ⟨hthird, -⟩ <;>
      rcases hlead with hlead | ⟨hlead, -⟩ <;> omega

/-- **Encodings have the order of the texts.** -/
theorem bytesOf_lt {s t : List Char} (h : s < t) : bytesOf s < bytesOf t := by
  induction h with
  | @nil c t =>
      obtain ⟨b, rest, hbytes⟩ := List.exists_cons_of_ne_nil (String.utf8EncodeChar_ne_nil (c := c))
      rw [bytesOf_cons, hbytes]
      exact List.Lex.nil
  | rel hlt =>
      rw [bytesOf_cons, bytesOf_cons]
      exact utf8EncodeChar_append_lt hlt _ _
  | cons _ ih =>
      rw [bytesOf_cons, bytesOf_cons]
      exact List.append_left_lt ih

end MessageCatalog.Text
