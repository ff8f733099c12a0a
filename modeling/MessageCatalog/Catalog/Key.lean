import MessageCatalog.Text.Blank
import MessageCatalog.Text.Enclosure
import MessageCatalog.Text.Line
import Std.Data.TreeSet

/-!
# The keys of a catalog text

A key opens with `msgid`, any blanks and a double quote.  It reaches up to the
first double quote that ends a line: only spaces and tabs stand between that
quote and a line feed, a carriage return with a line feed, or the end of the
text.  A key may therefore hold quotes and line ends of its own, and it is taken
as it is written.  `msgid_plural` opens nothing, because no quote follows `msgid`.
-/

namespace MessageCatalog.Catalog

open Text

/-! ### The two tokens around a key -/

/-- The word that every key line starts with. -/
def keyword : List Char :=
  ['m', 's', 'g', 'i', 'd']

/-- The blanks between keyword and quote, and the text after the quote. -/
def keyOpening? (s : List Char) : Option (List Char × List Char) :=
  match Token.after? keyword s with
  | none => none
  | some s₁ =>
    match Token.after? ['"'] (s₁.dropWhile isBlank) with
    | none => none
    | some s₂ => some (s₁.takeWhile isBlank, s₂)

theorem eq_of_keyOpening? {s a r : List Char} (h : keyOpening? s = some (a, r)) :
    s = keyword ++ a ++ '"' :: r ∧ a.all isBlank := by
  unfold keyOpening? at h
  split at h
  · cases h
  · rename_i s₁ h₁
    split at h
    · cases h
    · rename_i s₂ h₂
      cases h
      have e₂ := List.takeWhile_append_dropWhile (p := isBlank) (l := s₁)
      rw [Token.after?_eq_some_iff.mp h₂] at e₂
      refine ⟨?_, List.all_takeWhile⟩
      rw [Token.after?_eq_some_iff.mp h₁, List.append_assoc]
      exact congrArg (keyword ++ ·) e₂.symm

/-- What opens a key. -/
def keyOpening : Token where
  scan s := (keyOpening? s).map fun p => (keyword ++ p.1 ++ ['"'], p.2)
  append_eq h := by
    obtain ⟨⟨a, r⟩, hp, heq⟩ := Option.map_eq_some_iff.mp h
    cases heq
    rw [(eq_of_keyOpening? hp).1]
    simp
  ne_nil h := by
    obtain ⟨⟨a, r⟩, hp, heq⟩ := Option.map_eq_some_iff.mp h
    cases heq
    simp

/-- A space or a tab. -/
def isPadding (c : Char) : Bool :=
  c == ' ' || c == '\t'

/-- The line end at the front of a text, empty at the end of the text, and what follows. -/
def lineEnd? : List Char → Option (List Char × List Char)
  | [] => some ([], [])
  | c :: s =>
    if c = '\n' then some (['\n'], s)
    else if c = '\r' then
      match s with
      | [] => none
      | d :: s => if d = '\n' then some (['\r', '\n'], s) else none
    else none

theorem eq_of_lineEnd? {s m r : List Char} (h : lineEnd? s = some (m, r)) : m ++ r = s := by
  unfold lineEnd? at h
  split at h
  · cases h; rfl
  · split at h
    · cases h; simp_all
    · split at h
      · split at h
        · cases h
        · split at h
          · cases h; simp_all
          · cases h
      · cases h

/-- The padding and the line end after a closing quote, and the text after them. -/
def keyClosing? (s : List Char) : Option (List Char × List Char × List Char) :=
  match Token.after? ['"'] s with
  | none => none
  | some s₁ =>
    match lineEnd? (s₁.dropWhile isPadding) with
    | none => none
    | some (m, r) => some (s₁.takeWhile isPadding, m, r)

theorem eq_of_keyClosing? {s a m r : List Char} (h : keyClosing? s = some (a, m, r)) :
    s = '"' :: a ++ m ++ r ∧ a.all isPadding := by
  unfold keyClosing? at h
  split at h
  · cases h
  · rename_i s₁ h₁
    split at h
    · cases h
    · rename_i m' r' h₂
      cases h
      have e₂ := List.takeWhile_append_dropWhile (p := isPadding) (l := s₁)
      rw [← eq_of_lineEnd? h₂] at e₂
      refine ⟨?_, List.all_takeWhile⟩
      rw [Token.after?_eq_some_iff.mp h₁, List.cons_append, List.append_assoc]
      exact congrArg ('"' :: ·) e₂.symm

/-- What closes a key. -/
def keyClosing : Token where
  scan s := (keyClosing? s).map fun p => ('"' :: p.1 ++ p.2.1, p.2.2)
  append_eq h := by
    obtain ⟨⟨a, m, r⟩, hp, heq⟩ := Option.map_eq_some_iff.mp h
    cases heq
    rw [(eq_of_keyClosing? hp).1]
  ne_nil h := by
    obtain ⟨⟨a, m, r⟩, hp, heq⟩ := Option.map_eq_some_iff.mp h
    cases heq
    simp

/-! ### Keys and where they stand -/

/-- A catalog text cut into its keys. -/
def keyCut (s : List Char) : Cut :=
  Cut.ofText keyOpening keyClosing s

/-- A key with the byte offset of its first character. -/
structure KeySite where
  key : String
  offset : Nat
  deriving DecidableEq, Repr

/-- The sites of the keys of a text that starts at `offset`. -/
def KeySite.ofEnclosures (offset : Nat) : List Enclosure → List KeySite
  | [] => []
  | e :: es =>
    ⟨String.ofList e.body, offset + byteLength e.lead⟩ ::
      ofEnclosures (offset + byteLength e.text) es

/-- The keys of a catalog text in file order. -/
def keySites (text : String) : List KeySite :=
  KeySite.ofEnclosures 0 (keyCut text.toList).enclosures

/-- A set of keys, in the order of their code points. -/
abbrev KeySet := Std.TreeSet String

/-- The keys that a catalog text holds. -/
def keys (text : String) : KeySet :=
  Std.TreeSet.ofList ((keySites text).map KeySite.key)

end MessageCatalog.Catalog
