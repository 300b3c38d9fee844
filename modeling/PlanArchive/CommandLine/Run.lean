import PlanArchive.Archive.Delete
import PlanArchive.Archive.Read
import PlanArchive.CommandLine.Command
import PlanArchive.CommandLine.View

/-!
# Running a command

The commands that look at or change the plans of an archive. A command yields the text that it
writes, also before it fails, and an exit code: looking up a plan that is not stored ends with 1.
The commands that set up a deployment need no archive: one checks the settings before they are
written, the other makes the database ready.
-/

namespace PlanArchive.CommandLine

/-- Why a command failed. -/
inductive Failure where
  | badPlanId (text : String)
  | badGroupId (text : String)
  | badFilters (cause : ArchiveError)
  | listing (cause : ArchiveError)
  | reading (id : Uuid) (cause : ArchiveError)
  | lookup (id : Uuid) (cause : ArchiveError)
  | deletion (id : Uuid) (cause : ArchiveError)
  /-- The settings file is there already. -/
  | settingsExist (path : String)
  | settings (fault : Settings.Fault)
  | database (cause : DatabaseError)
deriving DecidableEq

namespace Failure

/-- What was being done, the error of the archive, and after it the errors behind it, each of which
is named in the one before already. -/
def causes (doing : String) (cause : ArchiveError) : String :=
  let behind := match cause.source? with
    | none => []
    | some e => e.message :: e.cause?.toList
  ": ".intercalate (doing :: cause.message :: behind)

/-- The wording of the failure. -/
def message : Failure → String
  | .badPlanId text => "invalid plan ID: " ++ text
  | .badGroupId text => "invalid group ID: " ++ text
  | .badFilters cause => causes "invalid search filters" cause
  | .listing cause => causes "failed to list plans" cause
  | .reading id cause => causes ("failed to read plan " ++ id.toText) cause
  | .lookup id cause => causes ("failed to look up plan " ++ id.toText) cause
  | .deletion id cause => causes ("failed to delete plan " ++ id.toText) cause
  | .settingsExist path =>
    "config file already exists at " ++ path ++ "\nUse --force to overwrite."
  | .settings fault => fault.message
  | .database cause => cause.message

end Failure

/-- What a command did: the text it wrote, and its exit code or why it failed. -/
structure Outcome where
  output : String
  result : Except Failure Nat

namespace Outcome

/-- A command that wrote a text and succeeded. -/
def done (output : String) : Outcome := ⟨output, .ok 0⟩

/-- A command that failed before it wrote anything. -/
def failed (failure : Failure) : Outcome := ⟨"", .error failure⟩

/-- The outcome of a result that a command only has to write. -/
def ofExcept : Except Failure Outcome → Outcome
  | .ok outcome => outcome
  | .error failure => failed failure

end Outcome

/-! ## Commands over an archive -/

/-- The identifiers that texts denote. -/
def parseIds (fault : String → Failure) (texts : List String) : Except Failure (List Uuid) :=
  texts.mapM fun text =>
    match Uuid.parse? text with
    | some id => .ok id
    | none => .error (fault text)

/-- The identifier of the plan that a word names. -/
def parsePlanId (text : String) : Except Failure Uuid :=
  match Uuid.parse? text with
  | some id => .ok id
  | none => .error (.badPlanId text)

/-- Writes the entries of a listing up to the first error. -/
def writeListing : List PlanSummary → List (Except ArchiveError PlanSummary) → Outcome
  | [], [] => .done emptyListing
  | written, [] => .done (listingText written)
  | written, .ok s :: rest => writeListing (written ++ [s]) rest
  | written, .error e :: _ => ⟨listingText written, .error (.listing e)⟩

variable {σ : Type} [DocumentStore σ]

/-- Writes the plans that filters select. -/
def runSearch (a : Archive) (s : σ) (ids groups : List String) (statuses : List Status) :
    Except Failure Outcome := do
  let ids ← parseIds .badPlanId ids
  let groups ← parseIds .badGroupId groups
  match a.search s ⟨ids, groups, statuses⟩ with
  | .error e => .error (.badFilters e)
  | .ok entries => return writeListing [] entries

/-- Writes the tree of a plan. -/
def runShow (a : Archive) (s : σ) (text : String) : Except Failure Outcome := do
  let id ← parsePlanId text
  match a.read s id with
  | .error e => .error (.reading id e)
  | .ok p => return .done (planText p)

/-- Writes whether a plan is stored. -/
def runExists (a : Archive) (s : σ) (text : String) : Except Failure Outcome := do
  let id ← parsePlanId text
  match a.hasPlan id s with
  | .error e => .error (.lookup id e)
  | .ok true => return .done ("Plan " ++ id.toText ++ " exists.\n")
  | .ok false => return ⟨"Plan " ++ id.toText ++ " not found.\n", .ok 1⟩

/-- Deletes a plan. -/
def runDelete (a : Archive) (s : σ) (text : String) : Outcome × σ :=
  match parsePlanId text with
  | .error failure => (.failed failure, s)
  | .ok id =>
    match (a.delete id).run s with
    | (.error e, s) => (.failed (.deletion id e), s)
    | (.ok (), s) => (.done ("Plan " ++ id.toText ++ " deleted.\n"), s)

/-- Runs a command that is about the plans of an archive; `none` when it is about none. -/
def run? (a : Archive) (s : σ) : Command → Option (Outcome × σ)
  | .list limit => some (writeListing [] (a.list s limit), s)
  | .search ids groups statuses => some (.ofExcept (runSearch a s ids groups statuses), s)
  | .show planId => some (.ofExcept (runShow a s planId), s)
  | .exists planId => some (.ofExcept (runExists a s planId), s)
  | .delete planId => some (runDelete a s planId)
  | .init .. => none
  | .dbInit => none

/-! ## Commands that set up a deployment -/

/-- The text written once the settings are in their file. -/
def initText (path : String) (s : Settings) : String :=
  "Config written to " ++ path ++ "\n"
    ++ "  database.url = " ++ s.url ++ "\n"
    ++ "  storage.partition_key = " ++ s.part ++ "\n"
    ++ "  plugins.names = " ++ Text.quotedList s.plugins ++ "\n\n"
    ++ "Next: run \x60planvault db-init\x60 to create and migrate the database.\n"

/-- Checks settings before they are written to a file, which may be there already. The outcome is
that of writing them. -/
def runInit (path : String) (present : Bool) (s : Settings) (force : Bool) : Outcome :=
  if present && !force then .failed (.settingsExist path)
  else if s.part.isEmpty then .failed (.settings .emptyPart)
  else .done (initText path s)

/-- Makes the database ready, on a server that does not answer. -/
def runDbInit (resolved : Except Settings.Fault Settings.Resolved) : Outcome :=
  match resolved with
  | .error fault => .failed (.settings fault)
  | .ok resolved =>
    ⟨"Initializing planvault database...\n", .error (.database resolved.database.ensureError)⟩

end PlanArchive.CommandLine
