import PlanArchive.Store.Basic
import PlanArchive.Text.Quoted

/-!
# The database behind an archive

Where the documents of a deployment are kept: the address of a database and the partition of the
deployment in it. The name of the database is what follows the last slash of the address; the
database through which it is created has the same address up to there. Nothing here connects to a
server. The module says what is known before one answers, and what a closed pool answers.
-/

namespace PlanArchive

/-- Where the documents of a deployment are kept. -/
structure Database where
  url : String
  /-- The partition key of every document. -/
  part : String
deriving DecidableEq, Repr

namespace Database

/-- The address that is used when none is given. -/
def defaultUrl : String := "postgresql://localhost:5432/planvault"

/-- The partition key that is used when none is given. -/
def defaultPart : String := "planvault"

/-- The database that an environment names, each part with its default. -/
def ofEnvironment (url part : Option String) : Database :=
  ⟨url.getD defaultUrl, part.getD defaultPart⟩

/-! ## The parts of an address -/

/-- A text split at its last slash; `none` when it has none. -/
def splitAtLastSlash : List Char → Option (List Char × List Char)
  | [] => none
  | c :: rest =>
    match splitAtLastSlash rest with
    | some (before, after) => some (c :: before, after)
    | none => if c = '/' then some ([], rest) else none

theorem splitAtLastSlash_eq_none {chars : List Char} (noSlash : '/' ∉ chars) :
    splitAtLastSlash chars = none := by
  induction chars with
  | nil => rfl
  | cons c rest inductionHypothesis =>
    obtain ⟨here, there⟩ := not_or.mp (mt List.mem_cons.mpr noSlash)
    simp [splitAtLastSlash, inductionHypothesis there, Ne.symm here]

/-- A slash with none after it is the last one. -/
theorem splitAtLastSlash_append (before : List Char) {after : List Char}
    (noSlash : '/' ∉ after) :
    splitAtLastSlash (before ++ '/' :: after) = some (before, after) := by
  induction before with
  | nil => simp [splitAtLastSlash, splitAtLastSlash_eq_none noSlash]
  | cons c rest inductionHypothesis => simp [splitAtLastSlash, inductionHypothesis]

/-- The characters after the last slash of an address, or all of them. -/
def lastSegment (chars : List Char) : List Char :=
  match splitAtLastSlash chars with
  | some (_, after) => after
  | none => chars

/-- The name of the database, if the address ends in one. A segment with a colon is a host. -/
def name? (d : Database) : Option String :=
  let segment := lastSegment d.url.toList
  if segment.isEmpty || segment.contains ':' then none else some (String.ofList segment)

/-- The name of the database that exists on every server. -/
def maintenanceName : String := "postgres"

/-- The address of the maintenance database of the same server. -/
def maintenanceUrl (d : Database) : String :=
  match splitAtLastSlash d.url.toList with
  | some (before, _) => String.ofList before ++ "/" ++ maintenanceName
  | none => d.url

end Database

/-! ## Failures -/

/-- Why a database could not be made ready. -/
inductive DatabaseError where
  /-- The address names no database. -/
  | nameless
  /-- The name is not one that may stand in a statement. -/
  | badName (name : String)
  /-- No connection to this address. -/
  | unreachable (url : String)
  | migrationFailed
  | lookupFailed (collection : Collection)
  | countFailed (collection : Collection)
deriving DecidableEq, Repr

namespace DatabaseError

/-- The wording of the error. -/
def message : DatabaseError → String
  | .nameless => "could not determine database name from URL"
  | .badName name => "database name " ++ Text.quoted name ++ " contains invalid characters"
  | .unreachable url => "failed to connect to database at " ++ url
  | .migrationFailed => "failed to run database migrations"
  | .lookupFailed collection => "failed to look up table for " ++ collection.name
  | .countFailed collection => "failed to count documents in " ++ collection.name

end DatabaseError

namespace Database

/-- A character of a plain identifier: a letter or digit of ASCII, or an underscore. -/
def isNameChar (c : Char) : Bool := c.isAlphanum || c == '_'

/-- The name of the database, if it may stand in a statement. A statement that creates a database
takes no parameters, so that only a plain identifier is accepted. -/
def checkedName (d : Database) : Except DatabaseError String :=
  match d.name? with
  | none => .error .nameless
  | some name => if name.toList.all isNameChar then .ok name else .error (.badName name)

/-- The error of making sure that the database exists, on a server that does not answer. -/
def ensureError (d : Database) : DatabaseError :=
  match d.checkedName with
  | .error e => e
  | .ok _ => .unreachable d.maintenanceUrl

/-- The error of opening a pool of connections, on a server that does not answer. -/
def openError (d : Database) : DatabaseError := .unreachable d.url

/-- The migrations of a database whose pool is closed. -/
def migrateClosed : Except DatabaseError Unit := .error .migrationFailed

/-- The check that every collection has its table, on a closed pool: it fails at the first. -/
def verifyClosed : Except DatabaseError Unit :=
  Collection.all.forM fun c => .error (.lookupFailed c)

/-- The number of documents in each collection, on a closed pool: it fails at the first. -/
def countClosed : Except DatabaseError (List Nat) :=
  Collection.all.mapM fun c => .error (.countFailed c)

end Database

end PlanArchive
