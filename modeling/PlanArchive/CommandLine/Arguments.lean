import PlanArchive.CommandLine.Command

/-!
# Reading a command line

Words are read from left to right on two levels: those before the command, and from the command on
those of the command. An option takes its value from its own word, after an equals sign, or from
the next one, which must not start with a dash. It is taken up when the next option or operand
begins or the level ends; only then it is checked for a missing value, for having been given before
and for a value that it does not accept. An unknown word is reported before any of that. After two
dashes every word is an operand.
-/

namespace PlanArchive.CommandLine

/-! ## Words -/

/-- What a word looks like. -/
inductive Word where
  /-- Two dashes alone. -/
  | escape
  /-- Two dashes and a name, with a value after an equals sign if there is one. -/
  | long (name : String) (value : Option String)
  /-- One dash and more, of which the first letter counts. -/
  | short (letter : Char)
  | plain
deriving DecidableEq, Repr

namespace Word

/-- What a word looks like. A dash alone is a plain word. -/
def ofText (text : String) : Word :=
  match text.toList with
  | ['-', '-'] => .escape
  | '-' :: '-' :: chars =>
    match chars.span (· != '=') with
    | (name, _ :: value) => .long (String.ofList name) (some (String.ofList value))
    | (name, []) => .long (String.ofList name) none
  | '-' :: c :: _ => .short c
  | _ => .plain

end Word

/-! ## Values -/

/-- The integer of 64 bits that a text denotes, with or without a sign. -/
def limit? (text : String) : Option Int :=
  let (negative, digits) := match text.toList with
    | '-' :: rest => (true, rest)
    | '+' :: rest => (false, rest)
    | digits => (false, digits)
  if digits.isEmpty || !digits.all Char.isDigit then none
  else
    let n : Int := Nat.ofDigitChars 10 digits 0
    (Json.toInt64? (if negative then -n else n)).map Int64.toInt

/-- Whether an option accepts a value. -/
def OptionName.accepts (option : OptionName) (value : String) : Bool :=
  match option with
  | .limit => (limit? value).isSome
  | .status => (Status.ofName? value).isSome
  | _ => true

/-! ## One level -/

/-- What a level understands. -/
structure Level where
  options : List OptionName
  hasOperand : Bool
  hasCommands : Bool

namespace Level

/-- Before the command. -/
def outer : Level := ⟨OptionName.common, false, true⟩

/-- From a command on. -/
def ofCommand (command : CommandName) : Level :=
  ⟨command.options ++ OptionName.common, command.hasOperand, false⟩

/-- The option of this level with a name. -/
def option? (level : Level) (name : String) : Option OptionName :=
  level.options.find? fun o => o.word == name

end Level

/-- How far a level was read. -/
structure Reading where
  /-- The options that were taken up, with their values. -/
  given : List (OptionName × String)
  /-- The option that was read last and its value, unless that is still to come. -/
  pending : Option (OptionName × Option String)
  operand : Option String
  /-- Two dashes were read. -/
  onlyOperands : Bool
deriving DecidableEq, Repr

namespace Reading

/-- Nothing is read yet. -/
def start : Reading := ⟨[], none, none, false⟩

/-- Whether the option that was read last waits for its value. -/
def isWaiting (r : Reading) : Bool :=
  match r.pending with
  | some (_, none) => true
  | _ => false

/-- Takes up an option. -/
def takeUp (r : Reading) (option : OptionName) (value : String) : Except UsageFault Reading :=
  if !option.isRepeatable && r.given.any (fun g => g.1 == option) then .error .argumentConflict
  else if option.accepts value then .ok { r with given := r.given ++ [(option, value)] }
  else .error .valueValidation

/-- Takes up the option that was read last. -/
def settle (r : Reading) : Except UsageFault Reading :=
  match r.pending with
  | none => .ok r
  | some (_, none) => .error .invalidValue
  | some (option, some value) => ({ r with pending := none }).takeUp option value

/-- The values that an option was given, in order. -/
def values (r : Reading) (option : OptionName) : List String :=
  r.given.filterMap fun g => if g.1 = option then some g.2 else none

/-- The value that an option was given. -/
def value? (r : Reading) (option : OptionName) : Option String := (r.values option).head?

end Reading

/-- Reads a long option. -/
def readLong (level : Level) (r : Reading) (name : String) (value : Option String) :
    Except UsageFault Reading := do
  match level.option? name, value with
  | some option, some value =>
    if option.isFlag then throw .tooManyValues
    (← r.settle).takeUp option value
  | some option, none =>
    let r ← r.settle
    if option.isFlag then r.takeUp option "" else return { r with pending := some (option, none) }
  | none, value =>
    if name ≠ "help" then throw .unknownArgument
    if value.isSome then throw .tooManyValues
    let _ ← r.settle
    throw .helpRequested

/-- Reads an operand. -/
def readOperand (level : Level) (r : Reading) (text : String) : Except UsageFault Reading := do
  if level.hasOperand && r.operand.isNone then
    return { ← r.settle with operand := some text }
  else if level.hasCommands then
    let isCommand := text == "help" || (CommandName.ofWord? text).isSome
    throw (if r.onlyOperands && isCommand then .unknownArgument else .invalidSubcommand)
  else throw .unknownArgument

/-- Reads a word that is no command. -/
def readWord (level : Level) (r : Reading) (text : String) : Except UsageFault Reading :=
  if r.onlyOperands then readOperand level r text
  else
    match Word.ofText text, r.pending with
    | .escape, _ => .ok { r with onlyOperands := true }
    | .long name value, _ => readLong level r name value
    | .short letter, _ =>
      if letter = 'h' then r.settle.bind fun _ => .error .helpRequested
      else .error .unknownArgument
    | .plain, some (option, none) => .ok { r with pending := some (option, some text) }
    | .plain, _ => readOperand level r text

/-- The fault of a request for help about the commands that are named. -/
def helpFault : List String → UsageFault
  | [] => .helpRequested
  | [text] =>
    if text = "help" ∨ (CommandName.ofWord? text).isSome then .helpRequested
    else .invalidSubcommand
  | _ => .invalidSubcommand

/-! ## Both levels -/

/-- Reads the words from a command on. The reading is not settled. -/
def readInner (level : Level) : Reading → List String → Except UsageFault Reading
  | r, [] => .ok r
  | r, text :: rest => do readInner level (← readWord level r text) rest

/-- Reads the words before the command; hands back the command and the words after it. Where an
option waits for its value, or after two dashes, no word is a command. -/
def readOuter : Reading → List String →
    Except UsageFault (Reading × Option (CommandName × List String))
  | r, [] => .ok (r, none)
  | r, text :: rest => do
    if !r.onlyOperands && !r.isWaiting then
      if text = "help" then throw (helpFault rest)
      if let some command := CommandName.ofWord? text then return (r, some (command, rest))
    readOuter (← readWord .outer r text) rest

/-- The command with what it was given. -/
def Reading.command (r : Reading) (name : CommandName) : Except UsageFault Command := do
  let planId : Except UsageFault String :=
    match r.operand with
    | some text => .ok text
    | none => .error .missingRequiredArgument
  match name with
  | .init =>
    let settings : Settings := {
      url := (r.value? .dbUrl).getD Database.defaultUrl
      part := (r.value? .storagePartitionKey).getD Database.defaultPart
      plugins := r.values .plugin }
    return .init settings (r.value? .force).isSome
  | .dbInit => return .dbInit
  | .list => return .list (((r.value? .limit).bind limit?).getD 0)
  | .search =>
    return .search (r.values .id) (r.values .group)
      ((r.values .status).filterMap Status.ofName?)
  | .show => return .show (← planId)
  | .exists => return .exists (← planId)
  | .delete => return .delete (← planId)

/-- What the common options were given. -/
def Reading.overrides (r : Reading) : Settings.Overrides :=
  ⟨r.value? .databaseUrl, r.value? .partitionKey⟩

/-- Understands a command line. An option after the command comes before the same one before it. -/
def parse (words : List String) : Except UsageFault Invocation := do
  let (outer, command) ← readOuter .start words
  match command with
  | none =>
    let outer ← outer.settle
    throw (if outer.given.isEmpty then .nothingGiven else .missingSubcommand)
  | some (name, rest) =>
    let inner ← readInner (.ofCommand name) .start rest
    let inner ← inner.settle
    let command ← inner.command name
    let outer ← outer.settle
    return ⟨inner.overrides.orElse outer.overrides, command⟩

end PlanArchive.CommandLine
