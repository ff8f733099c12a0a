import MessageCatalog.Proofs.Catalog.Readback
import MessageCatalog.Scan.Merge
import Mathlib.Data.Finset.Card

/-!
# What a scan adds

What a scan adds to a catalog, told without the steps of the scan: each file contributes an
entry for each of its literals that neither the catalog nor an earlier file holds
(`contribution`).

The keys of all contributions are pairwise different (`nodup_keys_contributions`) and are
the literals that the catalog does not hold (`mem_keys_contributions_iff`).  Where the catalog
holds what the first files contribute, the others contribute what they would have anyway
(`flatten_contributions_resumed`).
-/

namespace MessageCatalog.Scan

open Catalog

/-! ### Distinct literals -/

theorem nodup_eraseDups {α : Type} [BEq α] [LawfulBEq α] (items : List α) :
    items.eraseDups.Nodup := by
  match items with
  | [] => exact List.nodup_nil
  | item :: others =>
      rw [List.eraseDups_cons, List.nodup_cons]
      have hfirst : item ∉ (others.filter fun other => !other == item).eraseDups := by
        rw [List.mem_eraseDups]
        simp
      exact ⟨hfirst, nodup_eraseDups _⟩
termination_by items.length
decreasing_by exact Nat.lt_succ_of_le (List.length_filter_le _ _)

variable {name : FunctionName} {texts : Path → String}

theorem mem_distinctLiterals_iff {text key : String} :
    key ∈ Call.distinctLiterals name text ↔ key ∈ Call.literals name text :=
  List.mem_eraseDups

theorem length_distinctLiterals (text : String) :
    (Call.distinctLiterals name text).length = (Call.literals name text).toFinset.card := by
  have hsame : (Call.literals name text).toFinset = (Call.distinctLiterals name text).toFinset := by
    ext key
    simp [mem_distinctLiterals_iff]
  rw [hsame]
  exact (List.toFinset_card_of_nodup (nodup_eraseDups _)).symm

/-! ### Contributions -/

variable (name texts)

/-- The literals of a file that neither the catalog nor an earlier file holds, in the order in
which they first occur. -/
def freshLiterals (known : KeySet) (earlier : List Path) (p : Path) : List String :=
  (Call.distinctLiterals name (texts p)).filter fun key =>
    decide (key ∉ known ∧ ∀ q ∈ earlier, key ∉ Call.literals name (texts q))

/-- The entries that a file contributes behind earlier files. -/
def contribution (known : KeySet) (earlier : List Path) (p : Path) : List Entry :=
  (freshLiterals name texts known earlier p).map (Entry.untranslated (sourceRef p))

/-- The entries that each file of a list contributes. -/
def contributions (known : KeySet) (files : List Path) : List (List Entry) :=
  files.mapIdx fun i p => contribution name texts known (files.take i) p

/-- The report on a file that contributed some entries. -/
def reportOn (p : Path) (entries : List Entry) : FileReport :=
  ⟨p, (Call.literals name (texts p)).toFinset.card, entries.length⟩

variable {name texts} {known : KeySet} {files : List Path}

theorem mem_freshLiterals_iff {earlier : List Path} {p : Path} {key : String} :
    key ∈ freshLiterals name texts known earlier p ↔
      key ∈ Call.literals name (texts p) ∧ key ∉ known ∧
        ∀ q ∈ earlier, key ∉ Call.literals name (texts q) := by
  simp [freshLiterals, mem_distinctLiterals_iff]

theorem keys_contribution {earlier : List Path} {p : Path} :
    (contribution name texts known earlier p).map Entry.key =
      freshLiterals name texts known earlier p := by
  rw [contribution, List.map_map]
  exact List.map_id _

theorem nodup_freshLiterals {earlier : List Path} {p : Path} :
    (freshLiterals name texts known earlier p).Nodup :=
  (nodup_eraseDups _).filter _

theorem eq_untranslated_of_mem_contribution {earlier : List Path} {p : Path} {e : Entry}
    (h : e ∈ contribution name texts known earlier p) :
    e = Entry.untranslated (sourceRef p) e.key := by
  obtain ⟨key, -, rfl⟩ := List.mem_map.mp h
  rfl

theorem contributions_append (front back : List Path) :
    contributions name texts known (front ++ back) =
      contributions name texts known front ++
        back.mapIdx fun i p => contribution name texts known (front ++ back.take i) p := by
  unfold contributions
  rw [List.mapIdx_append]
  congr 1
  · refine List.ext_getElem (by simp) fun i hi hi' => ?_
    simp only [List.length_mapIdx] at hi
    simp only [List.getElem_mapIdx]
    rw [List.take_append_of_le_length hi.le]
  · refine congrArg (List.mapIdx · back) ?_
    funext i p
    rw [Nat.add_comm, List.take_length_add_append]

theorem contributions_concat (front : List Path) (p : Path) :
    contributions name texts known (front ++ [p]) =
      contributions name texts known front ++ [contribution name texts known front p] := by
  rw [contributions_append]
  simp

theorem flatten_contributions_concat (front : List Path) (p : Path) :
    (contributions name texts known (front ++ [p])).flatten =
      (contributions name texts known front).flatten ++ contribution name texts known front p := by
  rw [contributions_concat, List.flatten_concat]

/-- The keys that are added are the literals that the catalog does not hold. -/
theorem mem_keys_contributions_iff {key : String} :
    key ∈ (contributions name texts known files).flatten.map Entry.key ↔
      (∃ p ∈ files, key ∈ Call.literals name (texts p)) ∧ key ∉ known := by
  -- from the back, because the last file contributes what none of the others holds
  induction files using List.reverseRecOn with
  | nil => simp [contributions]
  | append_singleton front p ih =>
      rw [flatten_contributions_concat, List.map_append, List.mem_append, ih, keys_contribution,
        mem_freshLiterals_iff]
      constructor
      · rintro (⟨⟨q, hq, hkey⟩, hknown⟩ | ⟨hkey, hknown, -⟩)
        · exact ⟨⟨q, List.mem_append_left _ hq, hkey⟩, hknown⟩
        · exact ⟨⟨p, by simp, hkey⟩, hknown⟩
      · rintro ⟨⟨q, hq, hkey⟩, hknown⟩
        by_cases hearlier : ∃ r ∈ front, key ∈ Call.literals name (texts r)
        · exact .inl ⟨hearlier, hknown⟩
        · right
          rcases List.mem_append.mp hq with hq | hq
          · exact absurd ⟨q, hq, hkey⟩ hearlier
          · obtain rfl := List.mem_singleton.mp hq
            exact ⟨hkey, hknown, fun r hr hmem => hearlier ⟨r, hr, hmem⟩⟩

/-- No key is added twice. -/
theorem nodup_keys_contributions :
    ((contributions name texts known files).flatten.map Entry.key).Nodup := by
  induction files using List.reverseRecOn with
  | nil => simp [contributions]
  | append_singleton front p ih =>
      rw [flatten_contributions_concat, List.map_append, keys_contribution]
      refine List.nodup_append'.mpr ⟨ih, nodup_freshLiterals, fun key hfront hkey => ?_⟩
      obtain ⟨⟨q, hq, hliteral⟩, -⟩ := mem_keys_contributions_iff.mp hfront
      exact (mem_freshLiterals_iff.mp hkey).2.2 q hq hliteral

/-! ### Contributions to a larger catalog -/

/-- Only what the catalog holds of the literals of a file counts for what the file contributes. -/
private theorem contribution_congr {known' : KeySet} {earlier earlier' : List Path} {p : Path}
    (h : ∀ key ∈ Call.literals name (texts p),
      (key ∈ known ∨ ∃ q ∈ earlier, key ∈ Call.literals name (texts q)) ↔
        (key ∈ known' ∨ ∃ q ∈ earlier', key ∈ Call.literals name (texts q))) :
    contribution name texts known earlier p = contribution name texts known' earlier' p := by
  unfold contribution freshLiterals
  refine congrArg _ (List.filter_congr fun key hkey => decide_eq_decide.mpr ?_)
  have hiff := not_congr (h key (mem_distinctLiterals_iff.mp hkey))
  push Not at hiff
  exact hiff

/-- Nothing is added exactly if the catalog holds every literal. -/
theorem flatten_contributions_eq_nil_iff :
    (contributions name texts known files).flatten = [] ↔
      ∀ p ∈ files, ∀ key ∈ Call.literals name (texts p), key ∈ known := by
  rw [← List.map_eq_nil_iff (f := Entry.key), List.eq_nil_iff_forall_not_mem]
  simp only [mem_keys_contributions_iff, not_and, not_not]
  constructor
  · intro h p hp key hkey
    exact h key ⟨p, hp, hkey⟩
  · rintro h key ⟨p, hp, hkey⟩
    exact h p hp key hkey

/-- **Where the catalog holds what the first files contribute, they contribute nothing and the
others contribute what they would have anyway.** -/
theorem flatten_contributions_resumed {known' : KeySet} {front back : List Path}
    (h : ∀ p ∈ front ++ back, ∀ key ∈ Call.literals name (texts p),
      key ∈ known' ↔ key ∈ known ∨ ∃ q ∈ front, key ∈ Call.literals name (texts q)) :
    (contributions name texts known front).flatten ++
        (contributions name texts known' (front ++ back)).flatten =
      (contributions name texts known (front ++ back)).flatten := by
  have hfront : (contributions name texts known' front).flatten = [] :=
    flatten_contributions_eq_nil_iff.mpr fun p hp key hkey =>
      (h p (List.mem_append_left _ hp) key hkey).mpr (.inr ⟨p, hp, hkey⟩)
  -- behind the first files the larger catalog makes no difference
  have hback : (back.mapIdx fun i p => contribution name texts known' (front ++ back.take i) p) =
      back.mapIdx fun i p => contribution name texts known (front ++ back.take i) p := by
    refine List.ext_getElem (by simp) fun i hi hi' => ?_
    simp only [List.length_mapIdx] at hi
    simp only [List.getElem_mapIdx]
    refine contribution_congr fun key hkey => ?_
    rw [h _ (List.mem_append_right _ (List.getElem_mem hi)) key hkey]
    constructor
    · rintro ((hknown | ⟨q, hq, hliteral⟩) | hearlier)
      · exact .inl hknown
      · exact .inr ⟨q, List.mem_append_left _ hq, hliteral⟩
      · exact .inr hearlier
    · rintro (hknown | hearlier)
      · exact .inl (.inl hknown)
      · exact .inr hearlier
  rw [contributions_append, contributions_append,
    List.flatten_append, List.flatten_append, hfront, List.nil_append, hback]

end MessageCatalog.Scan
