/-!
# Glob patterns

A pattern is a sequence of parts: a character, `?` for any one character, `*`
for any run of characters, `**` for any run of whole path segments, and `[…]` or
`[!…]` for one character in or outside a set.  A set always has a first item, so
that `[]]` is the set of a closing bracket; a `-` between two characters makes a
range.

A pattern is refused at the position, in characters, where its first fault shows.
-/

namespace MessageCatalog.Glob

/-- An item of a character set. -/
inductive SetItem where
  | single (c : Char)
  | range (first last : Char)
  deriving DecidableEq, Repr

/-- A part of a pattern. -/
inductive Part where
  | char (c : Char)
  | anyChar
  | anyRun
  | anySegments
  | within (items : List SetItem)
  | without (items : List SetItem)
  deriving DecidableEq, Repr

/-- What is wrong with a pattern. -/
inductive FaultKind where
  /-- There are more than two stars in a row. -/
  | starRun
  /-- A `**` stands beside something other than a separator. -/
  | partialSegment
  /-- A bracket opens a set that is empty or not closed. -/
  | unclosedSet
  deriving DecidableEq, Repr

/-- Why a text is no pattern, and where. -/
structure Fault where
  position : Nat
  kind : FaultKind
  deriving DecidableEq, Repr

/-- The wording of a fault. -/
def FaultKind.message : FaultKind → String
  | starRun => "wildcards are either regular `*` or recursive `**`"
  | partialSegment => "recursive wildcards must form a single path component"
  | unclosedSet => "invalid range pattern"

/-- The wording of a fault with its position. -/
def Fault.message (fault : Fault) : String :=
  "Pattern syntax error near position " ++ toString fault.position ++ ": " ++ fault.kind.message

/-- The items of a character set. -/
def SetItem.ofChars : List Char → List SetItem
  | [] => []
  | [c] => [single c]
  | [c, d] => [single c, single d]
  | c :: d :: e :: cs =>
    if d = '-' then range c e :: ofChars cs else single c :: ofChars (d :: e :: cs)

/-- The items up to a closing bracket, of which the first may be a bracket itself, and the
text after it. -/
def setItems? : List Char → Option (List Char × List Char)
  | [] => none
  | first :: others =>
    match others.dropWhile (· ≠ ']') with
    | [] => none
    | _ :: rest => some (first :: others.takeWhile (· ≠ ']'), rest)

theorem length_of_setItems? {s items rest : List Char} (h : setItems? s = some (items, rest)) :
    rest.length < s.length := by
  unfold setItems? at h
  split at h
  · cases h
  · rename_i first others
    have hle := (List.dropWhile_sublist (l := others) (· ≠ ']')).length_le
    split at h
    · cases h
    · rename_i hdrop
      cases h
      rw [hdrop] at hle
      simp only [List.length_cons] at hle ⊢
      omega

/-- The set behind an opening bracket: its part, the number of characters up to and with the
closing bracket, and the text after it. -/
def characterSet? (s : List Char) : Option (Part × Nat × List Char) :=
  match s with
  | [] => none
  | c :: others =>
    if c = '!' then
      (setItems? others).map fun p => (.without (SetItem.ofChars p.1), p.1.length + 2, p.2)
    else (setItems? s).map fun p => (.within (SetItem.ofChars p.1), p.1.length + 1, p.2)

theorem length_of_characterSet? {s rest : List Char} {part : Part} {width : Nat}
    (h : characterSet? s = some (part, width, rest)) : rest.length < s.length := by
  unfold characterSet? at h
  split at h
  · cases h
  · split at h <;> obtain ⟨⟨items, r⟩, hp, heq⟩ := Option.map_eq_some_iff.mp h <;> cases heq
    · exact Nat.lt_succ_of_lt (length_of_setItems? hp)
    · exact length_of_setItems? hp

/-- A recursive wildcard joins one that stands before it, the first part excepted. -/
def addSegments (partsRev : List Part) : List Part :=
  match partsRev with
  | .anySegments :: _ :: _ => partsRev
  | _ => .anySegments :: partsRev

/-- The parts of the text from `position` on, where `previous` is the character before it and
`partsRev` holds the parts so far in reverse. -/
def partsFrom (position : Nat) (previous : Option Char) (partsRev : List Part) :
    List Char → Except Fault (List Part)
  | [] => .ok partsRev.reverse
  | c :: s =>
    if c = '?' then partsFrom (position + 1) (some c) (.anyChar :: partsRev) s
    else if c = '[' then
      match _h : characterSet? s with
      | none => .error ⟨position, .unclosedSet⟩
      | some (part, width, rest) =>
        partsFrom (position + 1 + width) (some ']') (part :: partsRev) rest
    else if c = '*' then
      match s with
      | '*' :: '*' :: _ => .error ⟨position + 2, .starRun⟩
      | '*' :: rest =>
        if previous = none ∨ previous = some '/' then
          match rest with
          | [] => .ok (addSegments partsRev).reverse
          | d :: rest =>
            if d = '/' then partsFrom (position + 3) (some d) (addSegments partsRev) rest
            else .error ⟨position + 2, .partialSegment⟩
        else .error ⟨position - 1, .partialSegment⟩
      | s => partsFrom (position + 1) (some c) (.anyRun :: partsRev) s
    else partsFrom (position + 1) (some c) (.char c :: partsRev) s
termination_by s => s.length
decreasing_by
  all_goals simp_wf
  · have := length_of_characterSet? ‹_›
    omega
  · omega

/-- A pattern: its text and its parts. -/
structure Pattern where
  text : String
  parts : List Part
  deriving DecidableEq, Repr

/-- The pattern with the given text. -/
def Pattern.ofString? (text : String) : Except Fault Pattern :=
  (partsFrom 0 none [] text.toList).map fun parts => ⟨text, parts⟩

end MessageCatalog.Glob
