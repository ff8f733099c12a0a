import MessageCatalog.Glob.Pattern

/-!
# Matching names against patterns

Letters are compared without regard to their case, as far as they are ASCII.
`?`, `*` and sets never match the separator `/`; `**` does.

A part that takes a run of characters tries the shortest run first.  The outcome of
an attempt is one of three: it matched, it did not, or the text ended before the
pattern did.  After the last of these no longer run can help, because it leaves
less text still.
-/

namespace MessageCatalog.Glob

/-- How an attempt to match ends. -/
inductive Outcome where
  | matched
  | mismatched
  | textEnded
  deriving DecidableEq, Repr

def isAscii (c : Char) : Bool :=
  c.toNat < 128

/-- Two characters are equal up to the case of ASCII letters. -/
def sameLetter (c d : Char) : Bool :=
  c.toLower == d.toLower

namespace SetItem

/-- A character belongs to an item of a set.  A range between two ASCII letters holds the
letters of either case between them. -/
def holds (c : Char) : SetItem → Bool
  | single d => sameLetter c d
  | range first last =>
    (isAscii c && first.isAlpha && last.isAlpha &&
        first.toLower ≤ c.toLower && c.toLower ≤ last.toLower) ||
      (first ≤ c && c ≤ last)

end SetItem

namespace Part

/-- A part that stands for one character accepts a character. -/
def accepts (c : Char) : Part → Bool
  | char d => sameLetter c d
  | anyChar => c ≠ '/'
  | within items => c ≠ '/' && items.any (SetItem.holds c)
  | without items => c ≠ '/' && !items.any (SetItem.holds c)
  | anyRun => false
  | anySegments => false

end Part

/-- The outcome behind a run of characters other than the separator, where `next` gives the
outcome of the parts after the run. -/
def afterRun (next : List Char → Outcome) : List Char → Outcome
  | [] => next []
  | c :: s =>
    match next (c :: s) with
    | .mismatched => if c = '/' then .mismatched else afterRun next s
    | decided => decided

/-- The outcome behind a run of characters that ends in a separator or at the end of the text,
where `next` gives the outcome of the parts after the run. -/
def afterSegments (next : List Char → Outcome) : List Char → Outcome
  | [] => next []
  | c :: s =>
    if c = '/' then
      match next s with
      | .mismatched => afterSegments next s
      | decided => decided
    else afterSegments next s

/-- The outcome of matching the parts of a pattern against a whole text. -/
def outcome : List Part → List Char → Outcome
  | [], s => if s.isEmpty then .matched else .mismatched
  | .anyRun :: parts, s => afterRun (outcome parts) s
  | .anySegments :: parts, s =>
    match outcome parts s with
    | .mismatched => afterSegments (outcome parts) s
    | decided => decided
  | part :: parts, s =>
    match s with
    | [] => .textEnded
    | c :: s => if part.accepts c then outcome parts s else .mismatched

/-- A text matches a pattern. -/
def Pattern.accepts (pattern : Pattern) (text : String) : Bool :=
  outcome pattern.parts text.toList == .matched

end MessageCatalog.Glob
