import MessageCatalog.Path

/-!
# Command-line arguments

An argument is an option, when it starts with a dash and is not a dash alone, or else
the next positional argument of its command.  After `--` every argument is positional.

A value is not checked where it stands but when the argument after it, or the end,
shows that it is complete (`Draft.settle`).  A fault of an argument that is no option of
its command, or a flag that takes no value, therefore comes before the fault of an
unsettled value.
-/

namespace MessageCatalog.CommandLine

/-! ### What is asked for -/

/-- The settings of an extraction. -/
structure ExtractOptions where
  function : String
  root : Path
  language : String
  excludes : List Path
  includes : List String
  verbose : Bool
  deriving DecidableEq, Repr

/-- A command with its settings. -/
inductive Command where
  | extract (options : ExtractOptions)
  | checkDuplicates (catalog : Path)
  | init
  deriving DecidableEq, Repr

/-- A page of help. -/
inductive Page where
  | overview
  | extract
  | checkDuplicates
  | init
  | help
  deriving DecidableEq, Repr

/-- What the arguments ask for. -/
inductive Request where
  /-- Runs a command; without one the overview is shown. -/
  | run (command : Option Command)
  | help (page : Page)
  | version
  deriving DecidableEq, Repr

/-- Why arguments are not accepted. -/
inductive UsageFault where
  | missingArgument
  | unknownArgument
  | invalidSubcommand
  | invalidValue
  /-- A flag is given twice. -/
  | repeatedFlag
  /-- A flag is given a value. -/
  | unwantedValue
  deriving DecidableEq, Repr

/-- The extraction is verbose. -/
def Command.verbose : Command → Bool
  | extract options => options.verbose
  | checkDuplicates _ => false
  | init => false

/-! ### The shape of one argument -/

/-- How an argument is spelled. -/
inductive Shape where
  /-- The argument `--`. -/
  | separator
  /-- A name after two dashes, and the value after an equals sign. -/
  | long (name : List Char) (value : Option String)
  /-- Letters after one dash. -/
  | short (letters : List Char)
  | plain
  deriving DecidableEq, Repr

/-- The shape of an argument. -/
def Shape.ofArgument (argument : String) : Shape :=
  match argument.toList with
  | ['-', '-'] => .separator
  | '-' :: '-' :: name =>
    match name.dropWhile (· ≠ '=') with
    | [] => .long name none
    | _ :: value => .long (name.takeWhile (· ≠ '=')) (some (String.ofList value))
  | '-' :: c :: letters => .short (c :: letters)
  | _ => .plain

/-! ### The arguments of a command -/

/-- An argument of a command that has a value. -/
inductive Slot where
  | function
  | root
  | language
  | excludes
  | catalog
  | includes
  deriving DecidableEq, Repr

/-- A flag of a command. -/
inductive Flag where
  | verbose
  | help
  deriving DecidableEq, Repr

/-- The arguments that a command takes. -/
structure Grammar where
  page : Page
  /-- The positional arguments in their order; `excludes` comes last and takes any number of
  values. -/
  positionals : List Slot
  takesIncludes : Bool
  takesVerbose : Bool
  deriving DecidableEq, Repr

namespace Grammar

def extract : Grammar :=
  ⟨.extract, [.function, .root, .language, .excludes], true, true⟩

def checkDuplicates : Grammar :=
  ⟨.checkDuplicates, [.catalog], false, false⟩

def init : Grammar :=
  ⟨.init, [], false, false⟩

/-- The flag with a long name. -/
def longFlag? (g : Grammar) (name : List Char) : Option Flag :=
  if name = "help".toList then some .help
  else if name = "verbose".toList && g.takesVerbose then some .verbose
  else none

/-- The flag with a letter. -/
def shortFlag? (g : Grammar) (letter : Char) : Option Flag :=
  if letter = 'h' then some .help
  else if letter = 'v' && g.takesVerbose then some .verbose
  else none

end Grammar

/-- Why the arguments of a command are not read to their end. -/
inductive Stop where
  | fault (fault : UsageFault)
  | help (page : Page)
  deriving DecidableEq, Repr

/-- The arguments of a command as far as they are read. -/
structure Draft where
  function : Option String := none
  root : Option Path := none
  language : Option String := none
  catalog : Option Path := none
  excludes : List Path := []
  includes : List String := []
  verbose : Bool := false
  /-- The argument whose values are not settled yet. -/
  unsettled : Option (Slot × List String) := none
  /-- The positional arguments to come. -/
  positionals : List Slot
  /-- The last argument was an option that waits for its value. -/
  awaitsValue : Bool := false
  /-- Every argument is positional from here on. -/
  plainOnly : Bool := false
  deriving DecidableEq, Repr

/-- The parts of a text between commas. -/
def commaParts : List Char → List (List Char)
  | [] => [[]]
  | c :: s =>
    if c = ',' then [] :: commaParts s
    else
      match commaParts s with
      | [] => [[c]]
      | part :: parts => (c :: part) :: parts

/-- The path that a text spells; an empty text is refused. -/
def pathValue (text : String) : Except Stop Path :=
  if text.isEmpty then .error (.fault .invalidValue) else .ok ⟨text⟩

/-- The only value of an argument. -/
def soleValue : List String → Except Stop String
  | [value] => .ok value
  | _ => .error (.fault .invalidValue)

namespace Draft

/-- Checks the values of an argument and takes them in. -/
def settle (draft : Draft) : Except Stop Draft := do
  match draft.unsettled with
  | none => return draft
  | some (slot, values) =>
    let draft := { draft with unsettled := none }
    match slot with
    | .function => return { draft with function := some (← soleValue values) }
    | .root => return { draft with root := some (← pathValue (← soleValue values)) }
    | .language => return { draft with language := some (← soleValue values) }
    | .catalog => return { draft with catalog := some (← pathValue (← soleValue values)) }
    | .includes => return { draft with includes := draft.includes ++ [← soleValue values] }
    | .excludes =>
      let parts := values.flatMap fun value => commaParts value.toList
      let paths ← parts.mapM fun part => pathValue (String.ofList part)
      return { draft with excludes := draft.excludes ++ paths }

/-- Takes in a flag. -/
def raise (draft : Draft) (page : Page) (flag : Flag) : Except Stop Draft := do
  let draft ← draft.settle
  match flag with
  | .help => throw (.help page)
  | .verbose =>
    if draft.verbose then throw (.fault .repeatedFlag)
    return { draft with verbose := true, awaitsValue := false }

/-- Takes in the letters after a dash. -/
def addLetters (g : Grammar) (draft : Draft) : List Char → Except Stop Draft
  | [] => .ok draft
  | letter :: letters =>
    match g.shortFlag? letter with
    | none => .error (.fault .unknownArgument)
    | some flag =>
      match draft.raise g.page flag with
      | .ok draft => addLetters g draft letters
      | .error stop => .error stop

/-- Takes in a long option. -/
def addLong (g : Grammar) (draft : Draft) (name : List Char) (value : Option String) :
    Except Stop Draft := do
  if name = "include".toList && g.takesIncludes then
    let draft ← draft.settle
    match value with
    | some value =>
      return { draft with includes := draft.includes ++ [value], awaitsValue := false }
    | none => return { draft with unsettled := some (.includes, []), awaitsValue := true }
  match g.longFlag? name with
  | none => throw (.fault .unknownArgument)
  | some flag =>
    if value.isSome then throw (.fault .unwantedValue)
    draft.raise g.page flag

/-- Takes in a positional argument. -/
def addPositional (draft : Draft) (argument : String) : Except Stop Draft := do
  match draft.positionals with
  | [] => throw (.fault .unknownArgument)
  | .excludes :: _ =>
    match draft.unsettled with
    | some (.excludes, values) =>
      return { draft with
        unsettled := some (.excludes, values ++ [argument]), awaitsValue := false }
    | _ =>
      let draft ← draft.settle
      return { draft with unsettled := some (.excludes, [argument]), awaitsValue := false }
  | slot :: positionals =>
    let draft ← draft.settle
    return { draft with unsettled := some (slot, [argument]), positionals, awaitsValue := false }

/-- Takes in an argument. -/
def add (g : Grammar) (draft : Draft) (argument : String) : Except Stop Draft :=
  if draft.plainOnly then draft.addPositional argument
  else
    match Shape.ofArgument argument with
    | .separator => .ok { draft with plainOnly := true }
    | .long name value => draft.addLong g name value
    | .short letters => draft.addLetters g letters
    | .plain =>
      if draft.awaitsValue then
        .ok { draft with unsettled := some (.includes, [argument]), awaitsValue := false }
      else draft.addPositional argument

end Draft

/-- The settled arguments of a command. -/
def readArguments (g : Grammar) (arguments : List String) : Except Stop Draft := do
  let draft ← arguments.foldlM (Draft.add g) { positionals := g.positionals }
  draft.settle

/-! ### Commands -/

/-- The name of a command. -/
inductive CommandName where
  | extract
  | checkDuplicates
  | init
  | help
  deriving DecidableEq, Repr

namespace CommandName

def ofString? (s : String) : Option CommandName :=
  if s = "extract" then some extract
  else if s = "check-duplicates" then some checkDuplicates
  else if s = "init" then some init
  else if s = "help" then some help
  else none

/-- The page about a command. -/
def page : CommandName → Page
  | extract => .extract
  | checkDuplicates => .checkDuplicates
  | init => .init
  | help => .help

/-- The page that the arguments of `help` name; no command has commands of its own. -/
def helpPage : List String → Except Stop Page
  | [] => .ok .overview
  | [name] =>
    match ofString? name with
    | some command => .ok command.page
    | none => .error (.fault .invalidSubcommand)
  | _ => .error (.fault .invalidSubcommand)

/-- What a value that is needed is, unless it is missing. -/
def required {α : Type} : Option α → Except Stop α
  | some a => .ok a
  | none => .error (.fault .missingArgument)

/-- The command of a name with its arguments. -/
def read (name : CommandName) (arguments : List String) : Except Stop Command := do
  match name with
  | extract =>
    let draft ← readArguments .extract arguments
    return .extract {
      function := ← required draft.function
      root := ← required draft.root
      language := ← required draft.language
      excludes := draft.excludes
      includes := draft.includes
      verbose := draft.verbose }
  | checkDuplicates =>
    let draft ← readArguments .checkDuplicates arguments
    return .checkDuplicates (← required draft.catalog)
  | init =>
    let _ ← readArguments .init arguments
    return .init
  | help => throw (.help (← helpPage arguments))

end CommandName

/-- The request of a command line, where `plainOnly` says that `--` has been passed. -/
def requestFrom (plainOnly : Bool) : List String → Except UsageFault Request
  | [] => .ok (.run none)
  | argument :: arguments =>
    match CommandName.ofString? argument with
    | some name =>
      if plainOnly then .error .unknownArgument
      else
        match name.read arguments with
        | .ok command => .ok (.run (some command))
        | .error (.fault fault) => .error fault
        | .error (.help page) => .ok (.help page)
    | none =>
      if plainOnly then .error .invalidSubcommand
      else
        match Shape.ofArgument argument with
        | .separator => requestFrom true arguments
        | .plain => .error .invalidSubcommand
        | .short letters =>
          if letters.head? = some 'h' then .ok (.help .overview)
          else if letters.head? = some 'V' then .ok .version
          else .error .unknownArgument
        | .long name value =>
          if name = "help".toList || name = "version".toList then
            if value.isSome then .error .unwantedValue
            else .ok (if name = "help".toList then .help .overview else .version)
          else .error .unknownArgument

/-- The request of a command line, given without the name of the program. -/
def Request.ofArguments (arguments : List String) : Except UsageFault Request :=
  requestFrom false arguments

end MessageCatalog.CommandLine
