import PlanArchive.Plan.Status
import PlanArchive.Settings

/-!
# Commands

What the words of a command line can ask for, the options of each command and the ways in which a
command line can be wrong. Two options, for the database and for the partition key, belong to every
command and may also stand before it.
-/

namespace PlanArchive.CommandLine

/-! ## Commands and options -/

/-- The commands. -/
inductive CommandName where
  | init | dbInit | list | search | show | exists | delete
deriving DecidableEq, Repr

namespace CommandName

/-- Every command. -/
def all : List CommandName := [.init, .dbInit, .list, .search, .show, .exists, .delete]

/-- The word for a command. -/
def word : CommandName → String
  | .init => "init"
  | .dbInit => "db-init"
  | .list => "list"
  | .search => "search"
  | .show => "show"
  | .exists => "exists"
  | .delete => "delete"

/-- The command of a word. -/
def ofWord? (word : String) : Option CommandName := all.find? fun c => c.word == word

end CommandName

/-- The options. -/
inductive OptionName where
  | databaseUrl | partitionKey | dbUrl | storagePartitionKey | plugin | force | limit | id | group
  | status
deriving DecidableEq, Repr

namespace OptionName

/-- The word for an option, without its dashes. -/
def word : OptionName → String
  | .databaseUrl => "database-url"
  | .partitionKey => "partition-key"
  | .dbUrl => "db-url"
  | .storagePartitionKey => "storage-partition-key"
  | .plugin => "plugin"
  | .force => "force"
  | .limit => "limit"
  | .id => "id"
  | .group => "group"
  | .status => "status"

/-- Whether an option stands for itself and takes no value. -/
def isFlag : OptionName → Bool
  | .force => true
  | _ => false

/-- Whether an option may be given several times. -/
def isRepeatable : OptionName → Bool
  | .plugin => true
  | .id => true
  | .group => true
  | .status => true
  | _ => false

/-- The options that belong to every command. -/
def common : List OptionName := [.databaseUrl, .partitionKey]

end OptionName

/-- The options of a command, besides the common ones. -/
def CommandName.options : CommandName → List OptionName
  | .init => [.dbUrl, .storagePartitionKey, .plugin, .force]
  | .dbInit => []
  | .list => [.limit]
  | .search => [.id, .group, .status]
  | .show => []
  | .exists => []
  | .delete => []

/-- Whether a command is about one plan, which a word names. -/
def CommandName.hasOperand : CommandName → Bool
  | .show => true
  | .exists => true
  | .delete => true
  | _ => false

/-- A command with all that it was given. -/
inductive Command where
  | init (settings : Settings) (force : Bool)
  | dbInit
  /-- Lists the latest plans, or all of them when the limit is not positive. -/
  | list (limit : Int)
  | search (ids groups : List String) (statuses : List Status)
  | show (planId : String)
  | exists (planId : String)
  | delete (planId : String)
deriving DecidableEq, Repr

/-- The command that was asked for. -/
def Command.name : Command → CommandName
  | .init .. => .init
  | .dbInit => .dbInit
  | .list _ => .list
  | .search .. => .search
  | .show _ => .show
  | .exists _ => .exists
  | .delete _ => .delete

/-- A command line that is understood. -/
structure Invocation where
  overrides : Settings.Overrides
  command : Command
deriving DecidableEq, Repr

/-! ## Faults -/

/-- What is wrong with a command line; a request for help counts. -/
inductive UsageFault where
  | unknownArgument
  | invalidSubcommand
  /-- An option without its value. -/
  | invalidValue
  /-- A value that is none of its option. -/
  | valueValidation
  /-- A value for an option that takes none. -/
  | tooManyValues
  | missingRequiredArgument
  /-- An option that is given again. -/
  | argumentConflict
  | missingSubcommand
  /-- No words at all. -/
  | nothingGiven
  | helpRequested
deriving DecidableEq, Repr

namespace UsageFault

/-- The name of the kind of fault, by which programs tell faults apart. -/
def kind : UsageFault → String
  | .unknownArgument => "UnknownArgument"
  | .invalidSubcommand => "InvalidSubcommand"
  | .invalidValue => "InvalidValue"
  | .valueValidation => "ValueValidation"
  | .tooManyValues => "TooManyValues"
  | .missingRequiredArgument => "MissingRequiredArgument"
  | .argumentConflict => "ArgumentConflict"
  | .missingSubcommand => "MissingSubcommand"
  | .nothingGiven => "DisplayHelpOnMissingArgumentOrSubcommand"
  | .helpRequested => "DisplayHelp"

end UsageFault

end PlanArchive.CommandLine
