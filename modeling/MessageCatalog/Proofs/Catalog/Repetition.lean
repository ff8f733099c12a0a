import MessageCatalog.Proofs.Catalog.Duplication

/-!
# Which occurrences are reported

The duplicates of a text are found on one pass over its keys, with the lines of the first
occurrences at hand.  What they are can be said without that: for each place of the sequence of
keys, if the key stands at an earlier place too, the line there and the line at the first such
place (`repeats`, `KeyCheck.duplicates_ofText`).

Each key is either the first of its kind, and then it counts as one key of the text, or it is
reported.  So the set of the keys and the duplicates make up all the keys between them
(`size_keys_add_length_duplicates`).
-/

namespace MessageCatalog.Catalog

open Text

/-- The repeated keys among keys with their lines, each with the line of the first place that
holds the key. -/
def repeats (lines : List (String × Nat)) : List Duplicate :=
  lines.zipIdx.filterMap fun (line, place) =>
    ((lines.take place).find? fun earlier => earlier.1 = line.1).map fun first =>
      ⟨line.1, line.2, first.2⟩

/-! ### The pass over the keys -/

/-- What is at hand behind some keys: the line of the first occurrence of each. -/
def FirstSeen (firstLines : Std.TreeMap String Nat) (done : List (String × Nat)) : Prop :=
  ∀ key, firstLines[key]? = (done.find? fun line => line.1 = key).map Prod.snd

namespace FirstSeen

variable {firstLines : Std.TreeMap String Nat} {done : List (String × Nat)} {key : String}
  {line firstLine : Nat}

private theorem nil : FirstSeen ∅ [] := by
  intro key
  simp

private theorem concat_seen (h : FirstSeen firstLines done)
    (hseen : firstLines[key]? = some firstLine) :
    FirstSeen firstLines (done ++ [(key, line)]) := by
  intro other
  rw [h other, List.find?_append]
  cases hfind : done.find? fun line => line.1 = other with
  | some first => rfl
  | none =>
      have hne : key ≠ other := by
        rintro rfl
        rw [h key, hfind] at hseen
        cases hseen
      simp [hne]

private theorem concat_new (h : FirstSeen firstLines done) (hnew : firstLines[key]? = none) :
    FirstSeen (firstLines.insert key line) (done ++ [(key, line)]) := by
  intro other
  rw [Std.TreeMap.getElem?_insert, List.find?_append]
  simp only [Std.compare_eq_iff_eq]
  by_cases hsame : key = other
  · subst hsame
    have hnone : (done.find? fun line => line.1 = key) = none := by
      have hkey := h key
      rwa [hnew, eq_comm, Option.map_eq_none_iff] at hkey
    simp [hnone]
  · rw [if_neg hsame, h other]
    simp [hsame]

end FirstSeen

/-- The pass over keys behind those that are done already. -/
private theorem Duplicate.ofKeyLines_eq {firstLines : Std.TreeMap String Nat}
    {done lines : List (String × Nat)} (h : FirstSeen firstLines done) :
    ofKeyLines firstLines lines = lines.zipIdx.filterMap fun (line, place) =>
      ((done ++ lines.take place).find? fun earlier => earlier.1 = line.1).map fun first =>
        ⟨line.1, line.2, first.2⟩ := by
  induction lines generalizing firstLines done with
  | nil => rfl
  | cons head lines ih =>
      obtain ⟨key, line⟩ := head
      have hkey := h key
      -- behind the head, places are counted from one on and the head is done
      have hothers : ∀ {firstLines'}, FirstSeen firstLines' (done ++ [(key, line)]) →
          ofKeyLines firstLines' lines =
            (lines.zipIdx 1).filterMap fun (other, place) =>
              ((done ++ ((key, line) :: lines).take place).find? fun earlier =>
                earlier.1 = other.1).map fun first => ⟨other.1, other.2, first.2⟩ := by
        intro firstLines' h'
        rw [ih h', List.zipIdx_succ, List.filterMap_map]
        refine List.filterMap_congr fun entry _ => ?_
        simp only [Function.comp_apply, List.take_succ_cons, List.append_assoc,
          List.singleton_append]
      rw [List.zipIdx_cons, List.filterMap_cons]
      simp only [List.take_zero, List.append_nil, ofKeyLines]
      cases hseen : firstLines[key]? with
      | none =>
          rw [hseen, eq_comm, Option.map_eq_none_iff] at hkey
          simp only [hkey, Option.map_none, hothers (h.concat_new hseen), Nat.zero_add]
      | some firstLine =>
          rw [hseen, eq_comm, Option.map_eq_some_iff] at hkey
          obtain ⟨first, hfirst, rfl⟩ := hkey
          simp only [hfirst, Option.map_some, hothers (h.concat_seen hseen), Nat.zero_add]

/-- **The duplicates of a text are the places of its keys that repeat an earlier one.** -/
theorem duplicates_eq_repeats (text : String) : duplicates text = repeats (keyLines text) := by
  rw [duplicates, Duplicate.ofKeyLines_eq FirstSeen.nil, repeats]
  simp only [List.nil_append]

/-! ### Members of the report -/

theorem mem_repeats_iff {lines : List (String × Nat)} {d : Duplicate} :
    d ∈ repeats lines ↔ ∃ place first, lines[place]? = some (d.key, d.line) ∧
      ((lines.take place).find? fun earlier => earlier.1 = d.key) = some first ∧
        first.2 = d.firstLine := by
  rw [repeats, List.mem_filterMap]
  constructor
  · rintro ⟨⟨line, place⟩, hmem, hfind⟩
    obtain ⟨first, hfirst, rfl⟩ := Option.map_eq_some_iff.mp hfind
    exact ⟨place, first, List.mem_zipIdx_iff_getElem?.mp hmem, hfirst, rfl⟩
  · rintro ⟨place, first, hplace, hfirst, hline⟩
    refine ⟨((d.key, d.line), place), List.mem_zipIdx_iff_getElem?.mpr hplace, ?_⟩
    dsimp only
    rw [hfirst, Option.map_some, hline]

theorem key_mem_of_mem_repeats {lines : List (String × Nat)} {d : Duplicate}
    (h : d ∈ repeats lines) : d.key ∈ lines.map Prod.fst := by
  obtain ⟨place, first, hplace, -, -⟩ := mem_repeats_iff.mp h
  exact List.mem_map_of_mem (List.mem_of_getElem? hplace)

/-- A duplicate has an earlier place than its own for its first line. -/
theorem exists_places_of_mem_repeats {lines : List (String × Nat)} {d : Duplicate}
    (h : d ∈ repeats lines) :
    ∃ first place : Nat, first < place ∧ lines[first]? = some (d.key, d.firstLine) ∧
      lines[place]? = some (d.key, d.line) := by
  obtain ⟨place, ⟨key, firstLine⟩, hplace, hfind, hline⟩ := mem_repeats_iff.mp h
  have hkey : key = d.key := by simpa using List.find?_some hfind
  obtain ⟨first, hfirst, hget⟩ := List.mem_iff_getElem.mp (List.mem_of_find?_eq_some hfind)
  rw [List.length_take] at hfirst
  refine ⟨first, place, by omega, ?_, hplace⟩
  rw [List.getElem_take] at hget
  rw [List.getElem?_eq_getElem (by omega), hget, hkey, ← hline]

/-- Nothing is reported exactly if the keys are pairwise different. -/
theorem repeats_eq_nil_iff {lines : List (String × Nat)} :
    repeats lines = [] ↔ (lines.map Prod.fst).Nodup := by
  rw [List.Nodup, List.pairwise_map, List.pairwise_iff_getElem]
  constructor
  · intro hnil first place hfirst hplace hlt heq
    -- equal keys at two places make the later one a duplicate
    have hearlier : ((lines.take place).find? fun earlier => earlier.1 = lines[place].1).isSome :=
      List.find?_isSome.mpr ⟨lines[first], List.mem_take_iff_getElem.mpr ⟨first, by omega, rfl⟩,
        by simpa using heq⟩
    obtain ⟨found, hfound⟩ := Option.isSome_iff_exists.mp hearlier
    have hmem : ⟨lines[place].1, lines[place].2, found.2⟩ ∈ repeats lines :=
      mem_repeats_iff.mpr ⟨place, found, List.getElem?_eq_getElem hplace, hfound, rfl⟩
    rw [hnil] at hmem
    cases hmem
  · intro hne
    rw [List.eq_nil_iff_forall_not_mem]
    intro d hd
    obtain ⟨first, place, hlt, hfirst, hplace⟩ := exists_places_of_mem_repeats hd
    obtain ⟨hfirstLt, hfirst⟩ := List.getElem?_eq_some_iff.mp hfirst
    obtain ⟨hplaceLt, hplace⟩ := List.getElem?_eq_some_iff.mp hplace
    exact hne first place hfirstLt hplaceLt hlt (by rw [hfirst, hplace])

/-! ### Counting -/

/-- Each key joins the set of those that were seen, or it is reported. -/
private theorem size_insertMany_add_length_ofKeyLines {set : KeySet}
    {firstLines : Std.TreeMap String Nat} {lines : List (String × Nat)}
    (h : ∀ key, key ∈ set ↔ key ∈ firstLines) :
    (set.insertMany (lines.map Prod.fst)).size + (Duplicate.ofKeyLines firstLines lines).length =
      set.size + lines.length := by
  -- both collections hold the same keys, so that a key is new to both of them or to none
  induction lines generalizing set firstLines with
  | nil => simp [Duplicate.ofKeyLines]
  | cons head lines ih =>
      obtain ⟨key, line⟩ := head
      rw [List.map_cons, Std.TreeSet.insertMany_cons, List.length_cons, Duplicate.ofKeyLines]
      have hsize := Std.TreeSet.size_insert (t := set) (k := key)
      cases hseen : firstLines[key]? with
      | some firstLine =>
          have hin : key ∈ firstLines := by
            rw [Std.TreeMap.mem_iff_isSome_getElem?, hseen]
            rfl
          have hset : set.contains key = true := Std.TreeSet.contains_iff_mem.mpr ((h key).mpr hin)
          rw [if_pos hset] at hsize
          have hboth : ∀ other, other ∈ set.insert key ↔ other ∈ firstLines := by
            intro other
            rw [Std.TreeSet.mem_insert, h other]
            constructor
            · rintro (hsame | hother)
              · rwa [← Std.LawfulEqCmp.eq_of_compare hsame]
              · exact hother
            · exact .inr
          have hcount := ih hboth
          simp only [List.length_cons]
          omega
      | none =>
          have hout : key ∉ firstLines := by
            rw [Std.TreeMap.mem_iff_isSome_getElem?, hseen]
            exact Bool.false_ne_true
          have hset : ¬ set.contains key = true := fun hin =>
            hout ((h key).mp (Std.TreeSet.contains_iff_mem.mp hin))
          rw [if_neg hset] at hsize
          have hboth : ∀ other, other ∈ set.insert key ↔ other ∈ firstLines.insert key line := by
            intro other
            rw [Std.TreeSet.mem_insert, Std.TreeMap.mem_insert, h other]
          have hcount := ih hboth
          dsimp only
          omega

/-- **The keys of a text and its duplicates make up all occurrences of keys.** -/
theorem size_keys_add_length_duplicates (text : String) :
    (keys text).size + (duplicates text).length = (keySites text).length := by
  have hcount : ((∅ : KeySet).insertMany ((keyLines text).map Prod.fst)).size +
      (Duplicate.ofKeyLines ∅ (keyLines text)).length =
        (∅ : KeySet).size + (keyLines text).length :=
    size_insertMany_add_length_ofKeyLines (by simp)
  rw [map_fst_keyLines] at hcount
  have hlength : (keyLines text).length = (keySites text).length := by
    rw [keyLines, List.length_map]
  calc (keys text).size + (duplicates text).length
      = ((∅ : KeySet).insertMany (keyTexts text)).size + (duplicates text).length := by
        rw [keys, keyTexts]
        cases (keySites text).map KeySite.key with
        | nil => rfl
        | cons key others => rw [Std.TreeSet.ofList_cons, Std.TreeSet.insertMany_cons]
    _ = (keySites text).length := by
        rw [duplicates, hcount, hlength]
        exact Nat.zero_add _

end MessageCatalog.Catalog
