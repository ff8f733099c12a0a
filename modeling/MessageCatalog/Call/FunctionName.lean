import MessageCatalog.Text.Blank

/-!
# Names of translation functions

A function name is any text that is not empty and holds no blank, no double
quote and no parenthesis.  It need not be an identifier of any language: `_`,
`$t` and `I18n.get` are names.
-/

namespace MessageCatalog

/-- A character that no function name holds. -/
def unsupportedInName (c : Char) : Bool :=
  Text.isBlank c || c == '"' || c == '(' || c == ')'

/-- The name of a translation function. -/
structure FunctionName where
  chars : List Char
  ne_nil : chars ≠ []
  supported : ∀ c ∈ chars, unsupportedInName c = false
  deriving DecidableEq

/-- Why a text is no function name. -/
inductive NameFault where
  | empty
  | unsupported (c : Char)
  deriving DecidableEq, Repr

namespace FunctionName

/-- The function name with the given text; the first unsupported character is
reported. -/
def ofString? (s : String) : Except NameFault FunctionName :=
  match hs : s.toList with
  | [] => .error .empty
  | first :: others =>
    match hfind : (first :: others).find? unsupportedInName with
    | some c => .error (.unsupported c)
    | none =>
      .ok {
        chars := first :: others
        ne_nil := List.cons_ne_nil _ _
        supported := fun c hc => by simpa using List.find?_eq_none.mp hfind c hc }

/-- The text of a name. -/
def toString (name : FunctionName) : String :=
  String.ofList name.chars

end FunctionName

end MessageCatalog
