import PlanArchive.Database
import PlanArchive.Plugin
import PlanArchive.Toml.Document

/-!
# Settings

What a user can set in a file: the database, the partition key and the plugins whose payloads can
be shown. The file is optional. What the command line gives comes before the environment, the
environment before the file, and the file before the defaults; but a file that is there has to be
readable even when nothing of it is used. Only the file names plugins.
-/

namespace PlanArchive

/-- What a settings file says. -/
structure Settings where
  url : String
  part : String
  /-- The names of the plugins, as they are listed. -/
  plugins : List String
deriving DecidableEq, Repr

namespace Settings

/-! ## The file -/

/-- The entries of a group of settings, by the names they have in a table. A group may also be
written as an array with the values in the order of the names; more values are ignored. -/
def entries? (names : List String) (v : Toml) : Option Toml.Table :=
  match v.fields? with
  | some fields => some fields
  | none => (v.items?).map fun items => names.zip items

/-- A setting that must be there. -/
def needed {α : Type} (read : Toml → Option α) (name : String) (fields : Toml.Table) : Option α :=
  (fields.lookup name).bind read

/-- A setting that has a default. -/
def optional {α : Type} (read : Toml → Option α) (default : α) (name : String)
    (fields : Toml.Table) : Option α :=
  match fields.lookup name with
  | none => some default
  | some v => read v

/-- A list of texts. -/
def texts? (v : Toml) : Option (List String) := do
  (← v.items?).mapM Toml.text?

/-- The address in the group of database settings. -/
def databaseUrl? (v : Toml) : Option String :=
  (entries? ["url"] v).bind (needed Toml.text? "url")

/-- The partition key in the group of storage settings. -/
def storagePart? (v : Toml) : Option String :=
  (entries? ["partition_key"] v).bind (needed Toml.text? "partition_key")

/-- The names in the group of plugin settings. -/
def pluginNames? (v : Toml) : Option (List String) :=
  (entries? ["names"] v).bind (optional texts? [] "names")

/-- The settings in the root table of a file. The database has no default there; entries that are
no settings are ignored. -/
def ofTable? (fields : Toml.Table) : Option Settings := do
  return {
    url := ← needed databaseUrl? "database" fields
    part := ← optional storagePart? Database.defaultPart "storage" fields
    plugins := ← optional pluginNames? [] "plugins" fields }

/-- The settings in the text of a file. -/
def read? (text : String) : Option Settings := (Toml.read? text).bind ofTable?

/-- The text of a file with these settings. -/
def toText (s : Settings) : String :=
  "[database]\nurl = " ++ Toml.quoted s.url
    ++ "\n\n[storage]\npartition_key = " ++ Toml.quoted s.part
    ++ "\n\n[plugins]\nnames = [" ++ ", ".intercalate (s.plugins.map Toml.quoted) ++ "]\n"

/-- The access mode of the file: the address may hold a password. -/
def fileMode : Nat := 0o600

/-! ## The place of the file -/

/-- A path inside a directory. The empty directory is the current one. -/
def inside (directory path : String) : String :=
  if directory.isEmpty || directory.endsWith "/" then directory ++ path
  else directory ++ "/" ++ path

/-- The directory of the file, in the configuration directory if one is named and else below
home. -/
def directory (configHome : Option String) (home : String) : String :=
  match configHome with
  | some configHome => inside configHome "planvault"
  | none => inside (inside home ".config") "planvault"

/-- Where the file is. -/
def filePath (configHome : Option String) (home : String) : String :=
  inside (directory configHome home) "config.toml"

/-! ## What applies -/

/-- Why no settings apply. -/
inductive Fault where
  /-- The file is no settings file. -/
  | unreadable
  | emptyPart
deriving DecidableEq, Repr

/-- The wording of the fault. -/
def Fault.message : Fault → String
  | .unreadable => "failed to parse config file"
  | .emptyPart => "partition key must not be empty"

/-- What a user gives besides the file. -/
structure Overrides where
  url : Option String
  part : Option String
deriving DecidableEq, Repr

/-- What applies: the database and the names of the plugins. -/
structure Resolved where
  database : Database
  plugins : List String
deriving DecidableEq, Repr

/-- The first of several sources that gives a value. -/
def Overrides.orElse (first second : Overrides) : Overrides :=
  ⟨first.url <|> second.url, first.part <|> second.part⟩

/-- What a file gives. -/
def toOverrides (s : Settings) : Overrides := ⟨some s.url, some s.part⟩

/-- What applies, given the text of the file if there is one. -/
def resolve (commandLine environment : Overrides) (file : Option String) :
    Except Fault Resolved := do
  let settings ← match file with
    | none => .ok none
    | some text =>
      match read? text with
      | some s => .ok (some s)
      | none => .error .unreadable
  let fromFile := (settings.map toOverrides).getD ⟨none, none⟩
  let given := (commandLine.orElse environment).orElse fromFile
  let database := Database.ofEnvironment given.url given.part
  if database.part.isEmpty then .error .emptyPart
  else .ok ⟨database, (settings.map Settings.plugins).getD []⟩

/-- The registry with a plugin for each name, which keeps payloads as they are. -/
def Resolved.registry (r : Resolved) : Registry := .ofList (r.plugins.map Plugin.untyped)

end Settings

end PlanArchive
