import MessageCatalog.Proofs.FileSystem.Preorder
import MessageCatalog.Proofs.Scan.Merge
import MessageCatalog.Proofs.Scan.Selection

/-!
# The order of the files of a scan

The files of a target are listed by the first pattern that accepts their name, and those of one
pattern in the order of the walk.  Both are put together in the rank of a file (`rank`).  The files
of the first pattern come before all others, and what is left is the listing of the other patterns
among the other files (`selectFiles_cons`); so the ranks grow along the list
(`pairwise_selectFiles`), and of two files the one with the smaller rank comes first
(`collectFiles_lists_by_rank`).
-/

namespace MessageCatalog.Scan

open FileSystem

variable {fs : FileSystem} {target : Target} {patterns : List Glob.Pattern} {p q : Path}
  {excluded walked : List Path}

/-! ### What selects a file -/

/-- A pattern accepts the bare name of a file. -/
def acceptsName (pattern : Glob.Pattern) (file : Path) : Bool :=
  file.fileName?.any pattern.accepts

/-- A file lies directly in an excluded directory. -/
def liesIn (excluded : List Path) (file : Path) : Bool :=
  file.parent?.any fun dir => excluded.any (Path.spellsLike dir)

theorem selects_eq_true_iff {pattern : Glob.Pattern} :
    selects excluded pattern p = true ↔
      acceptsName pattern p = true ∧ liesIn excluded p = false := by
  rw [selects, Bool.and_eq_true, Bool.not_eq_true', acceptsName, liesIn]

theorem acceptsName_eq_true_iff {pattern : Glob.Pattern} :
    acceptsName pattern p = true ↔
      ∃ name, p.fileName? = some name ∧ pattern.accepts name = true :=
  Option.any_eq_true _ _

theorem liesIn_eq_true_iff : liesIn excluded p = true ↔
    ∃ dir, p.parent? = some dir ∧ ∃ other ∈ excluded, dir.spellsLike other = true := by
  rw [liesIn, Option.any_eq_true]
  simp only [List.any_eq_true]

private theorem acceptsName_eq_false_of_selects {pattern other : Glob.Pattern}
    (h : selects excluded pattern p = true) (hother : selects excluded other p = false) :
    acceptsName other p = false := by
  rw [Bool.eq_false_iff] at hother ⊢
  exact fun haccepts => hother (selects_eq_true_iff.mpr ⟨haccepts, (selects_eq_true_iff.mp h).2⟩)

/-! ### Ranks -/

/-- What a file is listed by: the first pattern that accepts its name, then its path. -/
def rank (patterns : List Glob.Pattern) (file : Path) : Nat × List (List UInt8) :=
  (patterns.findIdx (acceptsName · file), file.componentBytes)

/-- A file is listed before another one. -/
def RanksBefore (patterns : List Glob.Pattern) (p q : Path) : Prop :=
  Prod.Lex (· < ·) (· < ·) (rank patterns p) (rank patterns q)

theorem ranksBefore_iff : RanksBefore patterns p q ↔
    patterns.findIdx (acceptsName · p) < patterns.findIdx (acceptsName · q) ∨
      patterns.findIdx (acceptsName · p) = patterns.findIdx (acceptsName · q) ∧
        p.componentBytes < q.componentBytes :=
  Prod.lex_def

theorem RanksBefore.asymm (h : RanksBefore patterns p q) : ¬ RanksBefore patterns q p := by
  rw [ranksBefore_iff] at h ⊢
  rintro (hback | ⟨heq, hback⟩)
  · rcases h with h | ⟨h, -⟩ <;> omega
  · rcases h with h | ⟨-, h⟩
    · omega
    · exact List.lt_asymm h hback

private theorem findIdx_cons_of_accepts {pattern : Glob.Pattern}
    (h : acceptsName pattern p = true) :
    (pattern :: patterns).findIdx (acceptsName · p) = 0 := by
  rw [List.findIdx_cons, h]
  rfl

private theorem findIdx_cons_of_not_accepts {pattern : Glob.Pattern}
    (h : acceptsName pattern p = false) :
    (pattern :: patterns).findIdx (acceptsName · p) = patterns.findIdx (acceptsName · p) + 1 := by
  rw [List.findIdx_cons, h]
  rfl

/-! ### The listing -/

private theorem eraseDups_eq_of_nodup {files : List Path} (h : files.Nodup) :
    files.eraseDups = files := by
  induction files with
  | nil => rfl
  | cons p files ih =>
      obtain ⟨hp, hfiles⟩ := List.nodup_cons.mp h
      rw [List.eraseDups_cons, List.filter_eq_self.mpr fun q hq => ?_, ih hfiles]
      have hne : q ≠ p := fun heq => hp (heq ▸ hq)
      simpa using hne

/-- The files of the first pattern come first, and the other patterns choose from the rest. -/
theorem selectFiles_cons (pattern : Glob.Pattern) (patterns : List Glob.Pattern)
    (excluded : List Path) (hnodup : walked.Nodup) :
    selectFiles (pattern :: patterns) excluded walked =
      walked.filter (selects excluded pattern) ++
        selectFiles patterns excluded (walked.filter fun p => !selects excluded pattern p) := by
  have hrest : (patterns.flatMap fun other => walked.filter (selects excluded other)).removeAll
        (walked.filter (selects excluded pattern)) =
      patterns.flatMap fun other =>
        (walked.filter fun p => !selects excluded pattern p).filter (selects excluded other) := by
    rw [List.removeAll, List.filter_flatMap]
    refine congrArg (List.flatMap · patterns) (funext fun other => ?_)
    rw [List.filter_filter, List.filter_filter]
    refine List.filter_congr fun p hp => ?_
    rw [Bool.and_comm]
    simp [hp]
  rw [selectFiles, List.flatMap_cons, List.eraseDups_append, hrest,
    eraseDups_eq_of_nodup (hnodup.filter _), selectFiles]

private theorem nodup_of_pairwise_componentBytes
    (h : walked.Pairwise fun p q => p.componentBytes < q.componentBytes) : walked.Nodup :=
  h.imp fun {p q} (hlt : p.componentBytes < q.componentBytes) (heq : p = q) =>
    List.lt_irrefl p.componentBytes (heq ▸ hlt)

/-- **The ranks of the files grow along the list.** -/
theorem pairwise_selectFiles (patterns : List Glob.Pattern) (excluded : List Path)
    (h : walked.Pairwise fun p q => p.componentBytes < q.componentBytes) :
    (selectFiles patterns excluded walked).Pairwise (RanksBefore patterns) := by
  induction patterns generalizing walked with
  | nil => exact .nil
  | cons pattern patterns ih =>
      rw [selectFiles_cons pattern patterns excluded (nodup_of_pairwise_componentBytes h)]
      have hfront : ∀ p ∈ walked.filter (selects excluded pattern),
          (pattern :: patterns).findIdx (acceptsName · p) = 0 := fun p hp =>
        findIdx_cons_of_accepts (selects_eq_true_iff.mp (List.mem_filter.mp hp).2).1
      -- what another pattern selects is no file of an excluded directory, so it is the name that
      -- the first pattern does not accept
      have hback : ∀ p ∈ selectFiles patterns excluded
            (walked.filter fun p => !selects excluded pattern p),
          (pattern :: patterns).findIdx (acceptsName · p) =
            patterns.findIdx (acceptsName · p) + 1 := by
        intro p hp
        obtain ⟨hp, other, -, hother⟩ := mem_selectFiles_iff.mp hp
        have hpassed := (List.mem_filter.mp hp).2
        rw [Bool.not_eq_true'] at hpassed
        exact findIdx_cons_of_not_accepts (acceptsName_eq_false_of_selects hother hpassed)
      refine List.pairwise_append.mpr ⟨?_, ?_, fun p hp q hq => ?_⟩
      · refine (h.filter _).imp_of_mem fun hp hq hlt => ranksBefore_iff.mpr (.inr ⟨?_, hlt⟩)
        rw [hfront _ hp, hfront _ hq]
      · refine (ih (h.filter _)).imp_of_mem fun hp hq hbefore => ?_
        rw [ranksBefore_iff] at hbefore ⊢
        rw [hback _ hp, hback _ hq, Nat.add_lt_add_iff_right, Nat.add_right_cancel_iff]
        exact hbefore
      · rw [ranksBefore_iff, hfront p hp, hback q hq]
        exact .inl (Nat.succ_pos _)

/-- In a list that an order goes along, the order tells which member comes first. -/
private theorem idxOf_lt_idxOf_iff {R : Path → Path → Prop} {files : List Path}
    (hasymm : ∀ {p q}, R p q → ¬ R q p) (h : files.Pairwise R) (hp : p ∈ files) (hq : q ∈ files) :
    files.idxOf p < files.idxOf q ↔ R p q := by
  have hlater : ∀ {p q}, p ∈ files → q ∈ files → files.idxOf p < files.idxOf q → R p q := by
    intro p q hp hq hlt
    have hget := List.pairwise_iff_getElem.mp h _ _ (List.idxOf_lt_length_iff.mpr hp)
      (List.idxOf_lt_length_iff.mpr hq) hlt
    rwa [List.getElem_idxOf, List.getElem_idxOf] at hget
  refine ⟨hlater hp hq, fun hR => ?_⟩
  rcases Nat.lt_trichotomy (files.idxOf p) (files.idxOf q) with hlt | heq | hgt
  · exact hlt
  · rw [List.idxOf_inj hp] at heq
    exact absurd hR (hasymm (heq ▸ hR))
  · exact absurd hR (hasymm (hlater hq hp hgt))

/-! ### Collecting -/

theorem run_collectFiles_of_walked (hpatterns : compileIncludes target.includes = .ok patterns)
    (hwalked : fs.filesFrom (walkedRoot fs target) = .ok walked) :
    fs.run (collectFiles target) = (.ok (selectFiles patterns (leftOut fs target) walked), fs) := by
  rw [run_collectFiles, hpatterns, hwalked]
  dsimp only
  split
  · rename_i hempty
    rw [List.isEmpty_iff.mp hempty]
    rfl
  · rfl

theorem mem_selectFiles_iff_reaches {root : Path} (hwalked : fs.filesFrom root = .ok walked) :
    p ∈ selectFiles patterns excluded walked ↔ fs.Reaches root p ∧
      (∃ pattern ∈ patterns, ∃ name, p.fileName? = some name ∧ pattern.accepts name = true) ∧
      ¬ ∃ dir, p.parent? = some dir ∧ ∃ other ∈ excluded, dir.spellsLike other = true := by
  rw [mem_selectFiles_iff, mem_filesFrom_iff hwalked]
  constructor
  · rintro ⟨hreaches, pattern, hpattern, hselects⟩
    obtain ⟨haccepts, hapart⟩ := selects_eq_true_iff.mp hselects
    exact ⟨hreaches, ⟨pattern, hpattern, acceptsName_eq_true_iff.mp haccepts⟩,
      mt liesIn_eq_true_iff.mpr (Bool.eq_false_iff.mp hapart)⟩
  · rintro ⟨hreaches, ⟨pattern, hpattern, haccepts⟩, hapart⟩
    exact ⟨hreaches, pattern, hpattern, selects_eq_true_iff.mpr
      ⟨acceptsName_eq_true_iff.mpr haccepts,
        Bool.eq_false_iff.mpr (mt liesIn_eq_true_iff.mp hapart)⟩⟩

/-- **Collecting finds each file that a walk reaches, that an include accepts by its name and that
lies directly in no excluded directory, once; and it lists them by the first include that accepts
the name, and by the bytes of the segments of the path where that is the same.** -/
theorem collectFiles_lists_by_rank (hpatterns : compileIncludes target.includes = .ok patterns)
    (hwalked : fs.filesFrom (walkedRoot fs target) = .ok walked) :
    ∃ files, fs.run (collectFiles target) = (.ok files, fs) ∧ files.Nodup ∧
      (∀ p, p ∈ files ↔ fs.Reaches (walkedRoot fs target) p ∧
        (∃ pattern ∈ patterns, ∃ name, p.fileName? = some name ∧ pattern.accepts name = true) ∧
        ¬ ∃ dir, p.parent? = some dir ∧
          ∃ excluded ∈ leftOut fs target, dir.spellsLike excluded = true) ∧
      ∀ f ∈ files, ∀ g ∈ files, files.idxOf f < files.idxOf g ↔
        Prod.Lex (· < ·) (· < ·) (rank patterns f) (rank patterns g) := by
  have horder := pairwise_selectFiles patterns (leftOut fs target) (pairwise_filesFrom hwalked)
  refine ⟨_, run_collectFiles_of_walked hpatterns hwalked, ?_,
    fun p => mem_selectFiles_iff_reaches hwalked,
    fun f hf g hg => idxOf_lt_idxOf_iff RanksBefore.asymm horder hf hg⟩
  exact horder.imp fun hbefore heq => (heq ▸ hbefore).asymm (heq ▸ hbefore)

/-- The site with a directory that is named like a file but for the ending, a link to a file, and a
directory of old files. -/
def branchedSite : FileSystem :=
  let branch := withNode (site ByteArray.empty ByteArray.empty)
    (siteLocation ++ [⟨"Main", by decide⟩]) .directory
  let below := withNode branch (siteLocation ++ [⟨"Main", by decide⟩, ⟨"Part.cs", by decide⟩])
    (.file 2 ByteArray.empty)
  let old := withNode below (siteLocation ++ [⟨"old", by decide⟩]) .directory
  let retired := withNode old (siteLocation ++ [⟨"old", by decide⟩, ⟨"Part.cs", by decide⟩])
    (.file 3 ByteArray.empty)
  withNode retired (siteLocation ++ [⟨"Same.cs", by decide⟩]) (.link ⟨"Main.cs"⟩)

/-- Two patterns accept one file, which is listed by the first; a directory comes before the file
whose name goes on with a dot, though a dot comes before a slash. -/
theorem collectFiles_lists_branchedSite :
    let target : Target := ⟨⟨"/site"⟩, ["O*", "*.cs"], [⟨"old/."⟩]⟩
    ∃ files, branchedSite.run (collectFiles target) = (.ok files, branchedSite) ∧
      files.idxOf ⟨"/site/Other.cs"⟩ < files.idxOf ⟨"/site/Main/Part.cs"⟩ ∧
      files.idxOf ⟨"/site/Main/Part.cs"⟩ < files.idxOf ⟨"/site/Main.cs"⟩ ∧
      ⟨"/site/old/Part.cs"⟩ ∉ files ∧ ⟨"/site/Same.cs"⟩ ∉ files := by
  intro target
  have hanswer : branchedSite.answer (collectFiles target) =
      .ok [⟨"/site/Other.cs"⟩, ⟨"/site/Main/Part.cs"⟩, ⟨"/site/Main.cs"⟩] := by decide +kernel
  obtain ⟨files, hrun, -, -, horder⟩ := collectFiles_lists_by_rank
    (show compileIncludes target.includes = .ok [⟨"O*", [.char 'O', .anyRun]⟩,
      ⟨"*.cs", [.anyRun, .char '.', .char 'c', .char 's']⟩] by decide +kernel)
    (show branchedSite.filesFrom (walkedRoot branchedSite target) =
      .ok [⟨"/site/Main/Part.cs"⟩, ⟨"/site/Main.cs"⟩, ⟨"/site/Other.cs"⟩,
        ⟨"/site/old/Part.cs"⟩] by decide +kernel)
  obtain rfl : files = [⟨"/site/Other.cs"⟩, ⟨"/site/Main/Part.cs"⟩, ⟨"/site/Main.cs"⟩] := by
    rw [answer, hrun] at hanswer
    simpa using hanswer
  refine ⟨_, hrun, (horder _ (by decide) _ (by decide)).mpr (by decide +kernel),
    (horder _ (by decide) _ (by decide)).mpr (by decide +kernel), by decide, by decide⟩

end MessageCatalog.Scan
