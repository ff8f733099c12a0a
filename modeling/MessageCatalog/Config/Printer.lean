import MessageCatalog.Config.Basic

/-!
# Writing a configuration

A configuration is written as a JSON object over several lines, indented by two spaces.
-/

namespace MessageCatalog.Config

/-- A character inside a JSON string. -/
def jsonChar (c : Char) : List Char :=
  match c with
  | '"' => ['\\', '"']
  | '\\' => ['\\', '\\']
  | '\x08' => ['\\', 'b']
  | '\x0c' => ['\\', 'f']
  | '\n' => ['\\', 'n']
  | '\r' => ['\\', 'r']
  | '\t' => ['\\', 't']
  | c =>
    if c.toNat < 0x10 then ['\\', 'u', '0', '0', '0'] ++ Nat.toDigits 16 c.toNat
    else if c.toNat < 0x20 then ['\\', 'u', '0', '0'] ++ Nat.toDigits 16 c.toNat
    else [c]

/-- A text as a JSON string. -/
def jsonString (s : String) : String :=
  String.ofList ('"' :: s.toList.flatMap jsonChar ++ ['"'])

/-- A list of texts over several lines, unless it is empty. -/
def jsonList (items : List String) : String :=
  if items.isEmpty then "[]"
  else "[\n    " ++ ",\n    ".intercalate (items.map jsonString) ++ "\n  ]"

/-- The written form of a configuration. -/
def text (config : Config) : String :=
  "\x7b\n  \"includes\": " ++ jsonList config.includes ++
    ",\n  \"excludes\": " ++ jsonList config.excludes ++
    ",\n  \"catalogDir\": " ++ jsonString config.catalogDir ++ "\n\x7d"

end MessageCatalog.Config
