import MessageCatalog.Proofs.Catalog.Readback

/-!
# The lines of a catalog

A line reaches up to a line feed or, if it is the last one, to the end of the text.  A text that is
appended leaves the lines in front of it as they are if the last one has ended, and goes on with
that line otherwise (`lines_isPrefix_append_iff`).

Entries end their lines, so of several entries that are appended only the first one can be caught
in a line that began before it (`wholeLines_append_textOfList_iff`).
-/

namespace MessageCatalog.Catalog

/-- The lines of a text without their line feeds.  Behind a line feed there is a line only if
something stands there. -/
def lines : List Char → List (List Char)
  | [] => []
  | c :: s =>
    if c = '\n' then [] :: lines s
    else
      match lines s with
      | [] => [[c]]
      | line :: others => (c :: line) :: others

variable {a b l s : List Char} {text : String} {entries : List Entry}

/-! ### Lines of appended texts -/

theorem lines_lineFeed_cons (s : List Char) : lines ('\n' :: s) = [] :: lines s := by
  simp [lines]

theorem lines_of_notMem (h : '\n' ∉ l) (hne : l ≠ []) : lines l = [l] := by
  induction l with
  | nil => exact absurd rfl hne
  | cons c l ih =>
      have hc : c ≠ '\n' := fun hc => h (hc ▸ List.mem_cons_self)
      rw [lines, if_neg hc]
      cases l with
      | nil => rfl
      | cons d l => rw [ih (fun hl => h (List.mem_cons_of_mem c hl)) (List.cons_ne_nil d l)]

theorem head?_lines (hne : s ≠ []) : (lines s).head? = some (s.takeWhile (· ≠ '\n')) := by
  induction s with
  | nil => exact absurd rfl hne
  | cons c s ih =>
      by_cases hc : c = '\n'
      · rw [hc, lines_lineFeed_cons]
        rfl
      · rw [lines, if_neg hc, List.takeWhile_cons_of_pos (by simpa using hc)]
        by_cases hs : s = []
        · rw [hs]
          rfl
        · obtain ⟨line, hline⟩ := List.head?_eq_some_iff.mp (ih hs)
          rw [hline]
          rfl

theorem WholeLines.of_suffix (h : WholeLines a) (hsuffix : s <:+ a) : WholeLines s := by
  by_cases hs : s = []
  · exact .inl hs
  · exact .inr (h.getLast?_of_suffix hs hsuffix)

theorem WholeLines.append (ha : WholeLines a) (hb : WholeLines b) : WholeLines (a ++ b) := by
  rcases hb with rfl | hb
  · rwa [List.append_nil]
  · exact .inr (by rw [List.getLast?_append, hb]; rfl)

theorem WholeLines.lines_append (h : WholeLines a) (b : List Char) :
    lines (a ++ b) = lines a ++ lines b := by
  induction a with
  | nil => rfl
  | cons c a ih =>
      have ha : WholeLines a := h.of_suffix (List.suffix_cons c a)
      by_cases hc : c = '\n'
      · rw [hc, List.cons_append, lines_lineFeed_cons, lines_lineFeed_cons, ih ha, List.cons_append]
      · have hne : a ≠ [] := by
          rintro rfl
          rcases h with h | h
          · cases h
          · exact hc (Option.some_inj.mp h)
        obtain ⟨others, hlines⟩ := List.head?_eq_some_iff.mp (head?_lines hne)
        rw [List.cons_append, lines, if_neg hc, lines, if_neg hc, ih ha, hlines]
        rfl

/-- A text that does not end its last line consists of whole lines and that line. -/
theorem exists_lastLine (h : ¬ WholeLines a) :
    ∃ front last, a = front ++ last ∧ WholeLines front ∧ last ≠ [] ∧ '\n' ∉ last := by
  induction a using List.reverseRecOn with
  | nil => exact absurd (.inl rfl) h
  | append_singleton a c ih =>
      have hc : c ≠ '\n' := by
        rintro rfl
        exact h (.inr (by simp))
      by_cases ha : WholeLines a
      · exact ⟨a, [c], rfl, ha, List.cons_ne_nil c [], by simpa using hc.symm⟩
      · obtain ⟨front, last, rfl, hfront, -, hlast⟩ := ih ha
        exact ⟨front, last ++ [c], by simp, hfront, by simp, by simp [hlast, hc.symm]⟩

/-- **A text keeps its lines in front of another one exactly if its last line has ended.** -/
theorem lines_isPrefix_append_iff {c : Char} (hc : c ≠ '\n') :
    lines a <+: lines (a ++ c :: b) ↔ WholeLines a := by
  constructor
  · intro h
    by_contra hopen
    obtain ⟨front, last, rfl, hfront, hne, hlast⟩ := exists_lastLine hopen
    rw [List.append_assoc, hfront.lines_append, hfront.lines_append, lines_of_notMem hlast hne,
      List.prefix_append_right_inj] at h
    -- the first line from there on goes beyond the end of the text
    have hhead := head?_lines (s := last ++ c :: b) (by simp)
    obtain ⟨others, hothers⟩ := h
    have hkeep : ∀ d ∈ last, decide (d ≠ '\n') = true :=
      fun d hd => decide_eq_true fun heq => hlast (heq ▸ hd)
    rw [← hothers, List.takeWhile_append_of_pos hkeep,
      List.takeWhile_cons_of_pos (by simpa using hc)] at hhead
    simp at hhead
  · intro h
    rw [h.lines_append]
    exact List.prefix_append _ _

theorem dropLast_lines_isPrefix (a b : List Char) : (lines a).dropLast <+: lines (a ++ b) := by
  by_cases h : WholeLines a
  · rw [h.lines_append]
    exact (List.dropLast_prefix _).trans (List.prefix_append _ _)
  · obtain ⟨front, last, rfl, hfront, hne, hlast⟩ := exists_lastLine h
    rw [List.append_assoc, hfront.lines_append, hfront.lines_append, lines_of_notMem hlast hne,
      List.dropLast_concat]
    exact List.prefix_append _ _

/-! ### Lines of appended entries -/

private theorem wholeLines_textOfList (entries : List Entry) :
    WholeLines (Entry.textOfList entries).toList := by
  induction entries with
  | nil => exact .inl rfl
  | cons e entries ih =>
      rw [Entry.textOfList_cons, String.toList_append]
      exact e.wholeLines_text.append ih

private theorem textOfList_ne_nil (hne : entries ≠ []) :
    (Entry.textOfList entries).toList ≠ [] := by
  obtain ⟨e, entries, rfl⟩ := List.exists_cons_of_ne_nil hne
  simp [Entry.toList_text, Entry.sourceLine]

/-- **What is appended behind entries starts a line, and behind the text itself if its last line has
ended.** -/
theorem wholeLines_append_textOfList_iff :
    WholeLines (text ++ Entry.textOfList entries).toList ↔
      entries ≠ [] ∨ WholeLines text.toList := by
  rw [String.toList_append]
  by_cases hne : entries = []
  · simp [hne]
  · have hlast : (Entry.textOfList entries).toList.getLast? = some '\n' :=
      (wholeLines_textOfList entries).resolve_left (textOfList_ne_nil hne)
    simp [hne, WholeLines, List.getLast?_append, hlast]

/-- Appended entries leave the lines of the text as they are exactly if its last line has ended. -/
theorem lines_isPrefix_append_textOfList_iff (hne : entries ≠ []) :
    lines text.toList <+: lines (text ++ Entry.textOfList entries).toList ↔
      WholeLines text.toList := by
  obtain ⟨e, entries, rfl⟩ := List.exists_cons_of_ne_nil hne
  have htext : (text ++ Entry.textOfList (e :: entries)).toList =
      text.toList ++ '#' :: ((e.text.toList ++ (Entry.textOfList entries).toList).tail) := by
    simp [Entry.toList_text, Entry.sourceLine]
  rw [htext]
  exact lines_isPrefix_append_iff (by decide)

end MessageCatalog.Catalog
