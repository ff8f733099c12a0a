import MessageCatalog.Proofs.FileSystem.Walk

/-!
# How paths are spelled

What the spelling of a path says are its lead and the segments that lead somewhere (`Path.parts`).
A name that is joined to a path is one more of these segments (`Path.parts_join`), and the parent of
the joined path says what the path itself says (`Path.exists_parent?_join`), however many slashes
and dots it ends in.

The absolute path of a location says its names and nothing else (`Location.parts_toPath`), and so
two locations with paths that say the same are the same (`Location.toPath_spellsLike_iff`).
-/

namespace MessageCatalog

/-! ### Segments and what joins them -/

theorem slash_not_mem_of_mem_segments {s segment : List Char} (h : segment ∈ segments s) :
    '/' ∉ segment := by
  induction s generalizing segment with
  | nil =>
      obtain rfl := List.mem_singleton.mp h
      exact List.not_mem_nil
  | cons c s ih =>
      simp only [segments] at h
      split at h
      · rcases List.mem_cons.mp h with rfl | h
        · exact List.not_mem_nil
        · exact ih h
      · rename_i hc
        split at h
        · rename_i hnone
          exact absurd hnone (segments_ne_nil s)
        · rename_i first others hsegments
          rw [hsegments] at ih
          rcases List.mem_cons.mp h with rfl | h
          · intro hslash
            rcases List.mem_cons.mp hslash with hslash | hslash
            · exact hc hslash.symm
            · exact ih (List.mem_cons_self ..) hslash
          · exact ih (List.mem_cons_of_mem _ h)

theorem joinSegments_append {first second : List (List Char)} (hfirst : first ≠ [])
    (hsecond : second ≠ []) :
    joinSegments (first ++ second) = joinSegments first ++ '/' :: joinSegments second := by
  induction first with
  | nil => exact absurd rfl hfirst
  | cons s first ih =>
      by_cases hnil : first = []
      · subst hnil
        exact joinSegments_cons hsecond
      · rw [List.cons_append, joinSegments_cons (List.append_ne_nil_of_left_ne_nil hnil _),
          joinSegments_cons hnil, ih hnil, List.append_assoc, List.cons_append]

/-- Segments are found again in the text that joins them. -/
theorem segments_joinSegments {segs : List (List Char)} (hne : segs ≠ [])
    (h : ∀ s ∈ segs, '/' ∉ s) : segments (joinSegments segs) = segs := by
  induction segs with
  | nil => exact absurd rfl hne
  | cons s segs ih =>
      obtain ⟨hs, hsegs⟩ := List.forall_mem_cons.mp h
      by_cases hnil : segs = []
      · subst hnil
        exact segments_of_slash_not_mem hs
      · rw [joinSegments_cons hnil, segments_append_slash, segments_of_slash_not_mem hs,
          ih hnil hsegs, List.singleton_append]

namespace Path

variable {base p q : Path} {s : String}

/-! ### What is in front of a slash -/

/-- The lead of a text shows in front of its first slash. -/
theorem leadOf_append_slash {front : List Char} (hne : front ≠ []) (rest : List Char) :
    leadOf (front ++ '/' :: rest) = leadOf front := by
  cases front with
  | nil => exact absurd rfl hne
  | cons c front =>
      by_cases hslash : c = '/'
      · subst hslash
        rfl
      · by_cases hdot : c = '.'
        · subst hdot
          cases front with
          | nil => rfl
          | cons d front =>
              by_cases hd : d = '/'
              · subst hd
                rfl
              · simp [leadOf, hd]
        · simp [leadOf, hslash, hdot]

theorem leadOf_leadOf (t : List Char) : leadOf (leadOf t) = leadOf t := by
  have hlead : leadOf t = ['/'] ∨ leadOf t = ['.'] ∨ leadOf t = [] := by
    unfold leadOf
    split <;> simp
  rcases hlead with hlead | hlead | hlead <;> rw [hlead] <;> rfl

theorem parts_append_slash {front rest : List Char} (hp : p.text.toList = front ++ '/' :: rest)
    (hq : q.text.toList = front) (hne : front ≠ []) :
    p.parts = (q.parts.1, q.parts.2 ++ (segments rest).filter fun segment => !isIdle segment) := by
  have hlength : (leadOf front).length ≤ front.length :=
    Nat.le_trans (length_leadOf_le front) (List.length_pos_iff.mpr hne)
  unfold parts
  simp only [hp, hq, leadOf_append_slash hne, List.drop_append_of_le_length hlength,
    segments_append_slash, List.filter_append]

private theorem parts_of_slash_cons {rest : List Char} (hp : p.text.toList = '/' :: rest) :
    p.parts = (['/'], (segments rest).filter fun segment => !isIdle segment) := by
  unfold parts
  simp only [hp]
  rfl

/-- A segment that is joined to a path is one more segment that leads somewhere. -/
theorem parts_join (hbase : base.text ≠ "") (hs : IsSegment s) :
    (base.join ⟨s⟩).parts = (base.parts.1, base.parts.2 ++ [s.toList]) := by
  obtain ⟨front, hjoin, hfront⟩ := exists_toList_join hbase hs.relative
  have hsegment : (segments s.toList).filter (fun segment => !isIdle segment) = [s.toList] := by
    rw [segments_of_slash_not_mem hs.slash, List.filter_cons_of_pos (by rw [not_isIdle hs]; rfl),
      List.filter_nil]
  -- with nothing in front of the slash the base is the root directory
  by_cases hne : front = []
  · subst hne
    rcases hfront with hempty | hslash
    · exact absurd (String.toList_inj.mp (hempty.trans String.toList_empty.symm)) hbase
    · rw [parts_of_slash_cons hjoin, parts_of_slash_cons hslash, hsegment]
      rfl
  · have hq : (⟨String.ofList front⟩ : Path).text.toList = front := String.toList_ofList
    have hparts : base.parts = (⟨String.ofList front⟩ : Path).parts := by
      rcases hfront with hsame | hslash
      · have hbase : base = ⟨String.ofList front⟩ := by
          rw [← hsame, String.ofList_toList]
        rw [hbase]
      · rw [parts_append_slash hslash hq hne]
        exact Prod.ext rfl (List.append_nil _)
    rw [parts_append_slash hjoin hq hne, hsegment, hparts]

/-! ### Parents -/

/-- Segments without the ones at the end that do not lead anywhere. -/
theorem exists_trimmed (segs : List (List Char)) :
    ∃ kept tail, (segs.reverse.dropWhile isIdle).reverse = kept ∧
      (∀ segment ∈ tail, isIdle segment = true) ∧ segs = kept ++ tail ∧
        ∀ segment, kept.getLast? = some segment → isIdle segment = false := by
  refine ⟨_, (segs.reverse.takeWhile isIdle).reverse, rfl, fun segment hsegment => ?_, ?_,
    fun segment hsegment => ?_⟩
  · exact List.all_eq_true.mp List.all_takeWhile segment (List.mem_reverse.mp hsegment)
  · rw [← List.reverse_append, List.takeWhile_append_dropWhile, List.reverse_reverse]
  · rw [List.getLast?_reverse] at hsegment
    have hnot := List.head?_dropWhile_not isIdle segs.reverse
    rw [hsegment] at hnot
    simpa using hnot

/-- Segments at the end that do not lead anywhere make no difference. -/
theorem parts_of_trimmed {front : List Char} (hp : p.text.toList = front)
    (hq : q.text.toList = leadOf front ++ joinSegments
      ((segments (front.drop (leadOf front).length)).reverse.dropWhile isIdle).reverse) :
    q.parts = p.parts := by
  generalize hsegs : segments (front.drop (leadOf front).length) = segs at hq
  obtain ⟨kept, tail, hkept, htail, hsplit, hlast⟩ := exists_trimmed segs
  rw [hkept] at hq
  have hparts : p.parts = (leadOf front, kept.filter fun segment => !isIdle segment) := by
    have hidle : tail.filter (fun segment => !isIdle segment) = [] :=
      List.filter_eq_nil_iff.mpr fun segment hsegment => by simp [htail segment hsegment]
    unfold parts
    simp only [hp, hsegs, hsplit, List.filter_append, hidle, List.append_nil]
  have hslashes : ∀ segment ∈ kept, '/' ∉ segment := fun segment hsegment =>
    slash_not_mem_of_mem_segments (s := front.drop (leadOf front).length)
      (by rw [hsegs, hsplit]; exact List.mem_append_left _ hsegment)
  rw [hparts]
  unfold parts
  simp only [hq]
  by_cases hnil : kept = []
  · subst hnil
    simp only [joinSegments, List.append_nil, leadOf_leadOf, List.drop_length]
    rfl
  · have hlead : leadOf (leadOf front ++ joinSegments kept) = leadOf front := by
      by_cases htailNil : tail = []
      · have hdrop : joinSegments kept = front.drop (leadOf front).length := by
          rw [← joinSegments_segments (front.drop _), hsegs, hsplit, htailNil, List.append_nil]
        rw [hdrop, leadOf_append_drop]
      · have hwhole : front = (leadOf front ++ joinSegments kept) ++ '/' :: joinSegments tail := by
          rw [List.append_assoc, ← joinSegments_append hnil htailNil, ← hsplit, ← hsegs,
            joinSegments_segments, leadOf_append_drop]
        -- an empty front would be a last segment that leads nowhere
        have hne : leadOf front ++ joinSegments kept ≠ [] := by
          intro hempty
          have hjoined := (List.append_eq_nil_iff.mp hempty).2
          have hkeptEq := segments_joinSegments hnil hslashes
          rw [hjoined] at hkeptEq
          have hidle := hlast [] (by rw [← hkeptEq]; rfl)
          exact absurd hidle (by decide)
        conv => rhs; rw [hwhole]
        exact (leadOf_append_slash hne _).symm
    rw [hlead, List.drop_left, segments_joinSegments hnil hslashes]

/-- The parent of a joined path says what the path says that the segment is joined to. -/
private theorem exists_parent?_join (hbase : base.text ≠ "") (hs : IsSegment s) :
    ∃ dir, (base.join ⟨s⟩).parent? = some dir ∧ dir.parts = base.parts := by
  obtain ⟨front, hjoin, hfront⟩ := exists_toList_join hbase hs.relative
  have hnotIdle : ¬ isIdle s.toList = true := by
    rw [not_isIdle hs]
    exact Bool.false_ne_true
  by_cases hne : front = []
  · subst hne
    have htrimmed : trimmedRev (base.join ⟨s⟩).text.toList = [s.toList] := by
      rw [trimmedRev, hjoin, List.nil_append]
      change (segments s.toList).reverse.dropWhile isIdle = _
      rw [segments_of_slash_not_mem hs.slash, List.reverse_singleton,
        List.dropWhile_cons_of_neg hnotIdle]
    refine ⟨⟨"/"⟩, ?_, ?_⟩
    · unfold parent?
      simp only [htrimmed]
      rw [hjoin]
      rfl
    · rcases hfront with hempty | hslash
      · exact absurd (String.toList_inj.mp (hempty.trans String.toList_empty.symm)) hbase
      · rw [show base = ⟨"/"⟩ from congrArg Path.mk (String.toList_inj.mp hslash)]
  · have hlength : (leadOf front).length ≤ front.length :=
      Nat.le_trans (length_leadOf_le front) (List.length_pos_iff.mpr hne)
    have htrimmed : trimmedRev (base.join ⟨s⟩).text.toList =
        s.toList :: (segments (front.drop (leadOf front).length)).reverse := by
      rw [trimmedRev, hjoin, leadOf_append_slash hne, List.drop_append_of_le_length hlength,
        segments_append_slash, segments_of_slash_not_mem hs.slash, List.reverse_append,
        List.reverse_singleton, List.singleton_append, List.dropWhile_cons_of_neg hnotIdle]
    refine ⟨⟨String.ofList (leadOf front ++ joinSegments
      ((segments (front.drop (leadOf front).length)).reverse.dropWhile isIdle).reverse)⟩, ?_, ?_⟩
    · unfold parent?
      simp only [htrimmed]
      rw [hjoin, leadOf_append_slash hne]
    · have hfrontParts : (⟨String.ofList front⟩ : Path).parts = base.parts := by
        rcases hfront with hsame | hslash
        · rw [← hsame, String.ofList_toList]
        · rw [parts_append_slash hslash (q := ⟨String.ofList front⟩) String.toList_ofList hne]
          exact Prod.ext rfl (List.append_nil _).symm
      refine (parts_of_trimmed (p := ⟨String.ofList front⟩) String.toList_ofList ?_).trans
        hfrontParts
      exact String.toList_ofList

/-! ### Several names -/

theorem text_joinNames_ne_empty (hbase : base.text ≠ "") (names : List Name) :
    (base.joinNames names).text ≠ "" := by
  induction names generalizing base with
  | nil => exact hbase
  | cons name names ih => exact ih (text_join_ne_empty hbase _)

theorem joinNames_append (base : Path) (first second : List Name) :
    base.joinNames (first ++ second) = (base.joinNames first).joinNames second :=
  List.foldl_append

theorem parts_joinNames (hbase : base.text ≠ "") (names : List Name) :
    (base.joinNames names).parts =
      (base.parts.1, base.parts.2 ++ names.map fun name => name.text.toList) := by
  induction names generalizing base with
  | nil => exact Prod.ext rfl (List.append_nil _).symm
  | cons name names ih =>
      have hjoined : (base.joinNames (name :: names)).parts =
          ((base.join ⟨name.text⟩).parts.1,
            (base.join ⟨name.text⟩).parts.2 ++ names.map fun name => name.text.toList) :=
        ih (text_join_ne_empty hbase _)
      rw [hjoined, parts_join hbase name.isSegment, List.append_assoc]
      rfl

theorem fileName?_joinNames_concat (hbase : base.text ≠ "") (names : List Name) (name : Name) :
    (base.joinNames (names ++ [name])).fileName? = some name.text := by
  rw [joinNames_append]
  exact fileName?_join (text_joinNames_ne_empty hbase names) name.isSegment

theorem exists_parent?_joinNames_concat (hbase : base.text ≠ "") (names : List Name)
    (name : Name) : ∃ dir, (base.joinNames (names ++ [name])).parent? = some dir ∧
      dir.parts = (base.joinNames names).parts := by
  rw [joinNames_append]
  exact exists_parent?_join (text_joinNames_ne_empty hbase names) name.isSegment

theorem spellsLike_iff : p.spellsLike q = true ↔ p.parts = q.parts := by
  unfold spellsLike
  exact beq_iff_eq

end Path

/-! ### Paths of locations -/

namespace Location

theorem toList_toPath (l : Location) :
    l.toPath.text.toList = '/' :: joinSegments (l.map fun name => name.text.toList) :=
  String.toList_ofList

theorem text_toPath_ne_empty (l : Location) : l.toPath.text ≠ "" := by
  intro hempty
  have htext := congrArg String.toList hempty
  rw [toList_toPath] at htext
  cases htext

private theorem getLast?_toPath_concat (l : Location) (name : Name) :
    (Location.toPath (l ++ [name])).text.toList.getLast? ≠ some '/' := by
  obtain ⟨body, hbody⟩ : ∃ body,
      (Location.toPath (l ++ [name])).text.toList = body ++ name.text.toList := by
    rw [toList_toPath, List.map_append, List.map_singleton]
    by_cases hl : l = []
    · subst hl
      exact ⟨['/'], rfl⟩
    · refine ⟨'/' :: joinSegments (l.map fun n => n.text.toList) ++ ['/'], ?_⟩
      rw [joinSegments_append (mt List.map_eq_nil_iff.mp hl) (List.cons_ne_nil _ _)]
      simp [joinSegments]
  have hne : name.text.toList ≠ [] := fun hnil =>
    name.isSegment.ne_empty (String.toList_inj.mp (hnil.trans String.toList_empty.symm))
  rw [hbody, List.getLast?_append_of_ne_nil _ hne]
  exact fun hslash => name.isSegment.slash (List.mem_of_getLast? hslash)

theorem toPath_concat (l : Location) (name : Name) :
    Location.toPath (l ++ [name]) = l.toPath.join ⟨name.text⟩ := by
  have hrelative : (⟨name.text⟩ : Path).isAbsolute = false := name.isSegment.relative
  have hempty : l.toPath.text.isEmpty = false := by
    rw [Bool.eq_false_iff, ne_eq, String.isEmpty_iff]
    exact text_toPath_ne_empty l
  rw [Path.join, hrelative, hempty, if_neg Bool.false_ne_true, Bool.false_or]
  rcases List.eq_nil_or_concat l with rfl | ⟨front, last, rfl⟩
  · rw [if_pos (by decide)]
    refine congrArg Path.mk (String.toList_inj.mp ?_)
    rw [String.toList_ofList, String.toList_append, toList_toPath]
    rfl
  · rw [List.concat_eq_append, if_neg (mt beq_iff_eq.mp (getLast?_toPath_concat front last))]
    refine congrArg Path.mk (String.toList_inj.mp ?_)
    rw [String.toList_ofList, String.toList_append, String.toList_append, toList_toPath,
      List.map_append, joinSegments_append (by simp) (by simp)]
    simp [joinSegments]

theorem joinNames_toPath (l : Location) (names : List Name) :
    l.toPath.joinNames names = Location.toPath (l ++ names) := by
  induction names generalizing l with
  | nil => rw [List.append_nil]; rfl
  | cons name names ih =>
      rw [List.append_cons, ← ih, toPath_concat]
      rfl

theorem parts_toPath (l : Location) :
    l.toPath.parts = (['/'], l.map fun name => name.text.toList) := by
  have hroot : (Location.toPath []).parts = (['/'], []) := by decide
  rw [← List.nil_append l, ← joinNames_toPath,
    Path.parts_joinNames (text_toPath_ne_empty _), hroot]
  rfl

private theorem map_toList_injective :
    Function.Injective fun l : Location => l.map fun name => name.text.toList := by
  refine List.map_injective_iff.mpr fun a b hab => ?_
  cases a
  cases b
  simpa [String.toList_inj] using hab

/-- Two locations with paths that say the same are the same. -/
theorem toPath_spellsLike_iff {l k : Location} :
    l.toPath.spellsLike k.toPath = true ↔ l = k := by
  rw [Path.spellsLike_iff, parts_toPath, parts_toPath, Prod.mk.injEq]
  exact ⟨fun h => map_toList_injective h.2, fun h => ⟨rfl, by rw [h]⟩⟩

end Location

end MessageCatalog
