import MessageCatalog.Config.Basic
import MessageCatalog.Json.Typed

/-!
# Reading a configuration

A configuration is written as a JSON object with the keys `includes`, `excludes` and
`catalogDir`, or as a list of their values in this order.  Keys may be missing and
other keys are passed over, but none of the three may be repeated.
-/

namespace MessageCatalog.Config

open Json

/-- The values of a configuration that have been read. -/
structure Draft where
  includes : Option (List String) := none
  excludes : Option (List String) := none
  catalogDir : Option String := none

/-- The configuration with defaults for what is missing. -/
def Draft.complete (draft : Draft) : Config :=
  let standard : Config := {}
  { includes := draft.includes.getD standard.includes
    excludes := draft.excludes.getD standard.excludes
    catalogDir := draft.catalogDir.getD standard.catalogDir }

/-- How a member of an object was taken in. -/
inductive Reading where
  | taken (draft : Draft) (after : Cursor)
  /-- The key was there before. -/
  | repeated (key : String) (after : Cursor)

/-- Reads the colon and the value of a member and adds the value to a draft. -/
def Draft.readMember (draft : Draft) (key : String) (c : Cursor) : Except Fault Reading := do
  match key with
  | "includes" =>
    if draft.includes.isSome then return .repeated key c
    let (items, c) ← (← c.skipColon).readTexts
    return .taken { draft with includes := some items } c
  | "excludes" =>
    if draft.excludes.isSome then return .repeated key c
    let (items, c) ← (← c.skipColon).readTexts
    return .taken { draft with excludes := some items } c
  | "catalogDir" =>
    if draft.catalogDir.isSome then return .repeated key c
    let (text, c) ← (← c.skipColon).readText
    return .taken { draft with catalogDir := some text } c
  | _ =>
    let c ← (← c.skipColon).skipValue
    return .taken draft c

/-- The place at which a repeated key is reported: behind the object if it ends there. -/
def placeOfRepeated (c : Cursor) : Cursor :=
  let c := c.skipBlanks
  if c.rest.head? = some '\x7d' then c.skip else c

/-- Reads the members of an object after its opening bracket.  Each takes at least one
character, so that `fuel` need not exceed their number. -/
def readMembers : Nat → Bool → Draft → Cursor → Except Fault (Draft × Cursor)
  | 0, _, draft, c => .ok (draft, c)
  | fuel + 1, first, draft, c => do
    match ← c.nextKey? first with
    | none => return (draft, c)
    | some c =>
      let (key, c) ← c.readString
      match ← draft.readMember key c with
      | .taken draft c => readMembers fuel false draft c
      | .repeated key c => (placeOfRepeated c).failHere (.duplicateField key)

/-- Reads an item of a list if there is one more. -/
def readNext {α : Type} (first : Bool) (c : Cursor)
    (read : Cursor → Except Fault (α × Cursor)) : Except Fault (Option α × Cursor) := do
  match ← c.nextItem? first with
  | none => return (none, c)
  | some c =>
    let (a, c) ← read c
    return (some a, c)

/-- Reads the values of a list in their order. -/
def readInOrder (c : Cursor) : Except Fault (Draft × Cursor) := do
  let (includes, c) ← readNext true c Cursor.readTexts
  let (excludes, c) ← readNext includes.isNone c Cursor.readTexts
  let (catalogDir, c) ← readNext excludes.isNone c Cursor.readText
  return (⟨includes, excludes, catalogDir⟩, c)

/-- Reads a configuration at a place. -/
def read (c : Cursor) : Except Fault (Draft × Cursor) := do
  let c := c.skipBlanks
  match c.rest with
  | [] => c.failAhead .endInValue
  | d :: _ =>
    if d = '\x7b' then
      let (draft, c) ← readMembers (c.rest.length + 1) true {} c.skip
      return (draft, ← c.endObject)
    else if d = '[' then
      let (draft, c) ← readInOrder c.skip
      return (draft, ← c.endList)
    else c.failType "struct Config"

/-- The configuration that a text spells. -/
def ofString? (text : String) : Except Fault Config := do
  let (draft, c) ← read (Cursor.ofString text)
  c.expectEnd
  return draft.complete

end MessageCatalog.Config
