import PlanArchive.Document.Basic

/-!
# The archive and its errors

An archive keeps the plans of one partition of a document store and decodes the payloads of their
actions by a registry of plugins. The store itself is not part of the archive: operations take it
and hand it back. Every error of a store call says which operation failed on which entity.
-/

namespace PlanArchive

/-- What the archive was asked to do when an error arose. -/
inductive Operation where
  | create | read | update | delete | list | search | exists
deriving DecidableEq, Repr

namespace Operation

/-- Every operation. -/
def all : List Operation := [.create, .read, .update, .delete, .list, .search, .exists]

/-- The word for an operation. -/
def name : Operation → String
  | .create => "create"
  | .read => "read"
  | .update => "update"
  | .delete => "delete"
  | .list => "list"
  | .search => "search"
  | .exists => "exists"

/-- The operation of a word. -/
def ofName? (name : String) : Option Operation := all.find? fun o => o.name == name

end Operation

/-- Why an input is refused before the store is asked for anything. -/
inductive Rejection where
  /-- An entity has the nil identifier. -/
  | nilId (kind : EntityKind)
  /-- An identifier occurs a second time in the plan, at this entity. -/
  | repeatedId (kind : EntityKind) (id : Uuid)
  /-- An entity has no document. -/
  | unencodable (kind : EntityKind) (id : Uuid) (cause : FieldError)
  /-- A list of identifiers to search for holds the nil one. -/
  | nilFilter (list : String)
  /-- A list to search for holds a value twice. -/
  | repeatedFilter (list value : String)
deriving DecidableEq

namespace Rejection

/-- The wording of the rejection. -/
def message : Rejection → String
  | .nilId kind => kind.name ++ " ID must not be nil"
  | .repeatedId kind id =>
    kind.name ++ " " ++ id.toText ++ " appears more than once in the plan"
  | .unencodable kind id cause => kind.name ++ " " ++ id.toText ++ ": " ++ cause.message
  | .nilFilter list => list ++ " contains the nil ID"
  | .repeatedFilter list value => list ++ " contains " ++ value ++ " more than once"

end Rejection

/-- Why a stored document is no entity of the plan that it is read for. -/
inductive DecodeFault where
  | field (error : FieldError)
  /-- The document belongs to another plan. -/
  | foreign (stored expected : Uuid)
deriving DecidableEq

namespace DecodeFault

/-- The wording of the fault. -/
def message : DecodeFault → String
  | .field error => error.message
  | .foreign stored expected =>
    "belongs to plan " ++ stored.toText ++ ", not " ++ expected.toText

end DecodeFault

/-- Why an operation of the archive failed. -/
inductive ArchiveError where
  /-- The input was refused before any call of the store. -/
  | validation (cause : Rejection)
  /-- A document is missing. -/
  | notFound (kind : EntityKind) (id : Uuid)
  /-- The identifier of a new entity is taken. -/
  | alreadyExists (kind : EntityKind) (id : Uuid)
  /-- A version token is stale. -/
  | conflict (operation : Operation) (kind : EntityKind) (id : Uuid)
  /-- A stored document does not decode. -/
  | decode (operation : Operation) (kind : EntityKind) (id : Uuid) (fault : DecodeFault)
  /-- A store call failed for another reason. -/
  | transport (operation : Operation) (kind : EntityKind) (id : Uuid) (source : StoreError)
  /-- A query failed in the store. -/
  | query (operation : Operation) (source : StoreError)
deriving DecidableEq

namespace ArchiveError

/-- The name of the kind of error, by which programs tell errors apart. -/
def kind : ArchiveError → String
  | .validation _ => "Validation"
  | .notFound .. => "NotFound"
  | .alreadyExists .. => "AlreadyExists"
  | .conflict .. => "Conflict"
  | .decode .. => "Decode"
  | .transport .. => "Transport"
  | .query .. => "Query"

/-- An operation and an entity as an error names them. -/
def place (operation : Operation) (kind : EntityKind) (id : Uuid) : String :=
  operation.name ++ " " ++ kind.name ++ " " ++ id.toText

/-- The wording of the error. -/
def message : ArchiveError → String
  | .validation cause => "validation failed: " ++ cause.message
  | .notFound kind id => kind.name ++ " " ++ id.toText ++ " not found"
  | .alreadyExists kind id => kind.name ++ " " ++ id.toText ++ " already exists"
  | .conflict operation kind id => place operation kind id ++ ": version token is stale"
  | .decode operation kind id fault =>
    place operation kind id ++ ": cannot decode: " ++ fault.message
  | .transport operation kind id source =>
    place operation kind id ++ ": store call failed: " ++ source.message
  | .query operation source =>
    operation.name ++ " plans: store query failed: " ++ source.message

/-- The error of the store behind an error, when there is one. -/
def source? : ArchiveError → Option StoreError
  | .transport _ _ _ source => some source
  | .query _ source => some source
  | _ => none

/-- What a store error means for an operation on an entity. -/
def ofStore (operation : Operation) (kind : EntityKind) (id : Uuid) : StoreError → ArchiveError
  | .notFound .. => .notFound kind id
  | .preconditionFailed .. => .conflict operation kind id
  | .conflict .. => .alreadyExists kind id
  | source => .transport operation kind id source

/-- Whether a document was missing. -/
def isNotFound : ArchiveError → Bool
  | .notFound .. => true
  | _ => false

/-- Whether a version token was stale. -/
def isConflict : ArchiveError → Bool
  | .conflict .. => true
  | _ => false

/-- Whether an identifier was taken. -/
def isAlreadyExists : ArchiveError → Bool
  | .alreadyExists .. => true
  | _ => false

/-- Whether the input was refused. -/
def isValidation : ArchiveError → Bool
  | .validation _ => true
  | _ => false

end ArchiveError

/-- The plans of one partition, and the plugins that decode their payloads. -/
structure Archive where
  part : String
  registry : Registry

namespace Archive

/-- The archive as a message shows it. -/
def toText (a : Archive) : String :=
  "Vault \x7b partition_key: " ++ Text.quoted a.part ++ ", registry: " ++ a.registry.toText
    ++ " \x7d"

/-- The place of the document of an entity. -/
def key (a : Archive) (kind : EntityKind) (id : Uuid) : DocumentKey :=
  ⟨a.part, kind.collection, id⟩

/-- Refuses the nil identifier. -/
def rejectNil (kind : EntityKind) (id : Uuid) : Except ArchiveError Unit :=
  if id.isNil then .error (.validation (.nilId kind)) else .ok ()

variable {σ : Type} [DocumentStore σ]

/-- The document of an entity, parsed, and the token of its revision. -/
def fetch {δ : Type} (a : Archive) (parse : Json → Option δ) (operation : Operation)
    (kind : EntityKind) (id : Uuid) (s : σ) : Except ArchiveError (δ × VersionToken) :=
  match DocumentStore.read s (a.key kind id) with
  | .error e => .error (.ofStore operation kind id e)
  | .ok item =>
    match parse item.doc with
    | some d => .ok (d, item.token)
    | none =>
      .error (.decode operation kind id (.field (.json kind.collection.name .malformed)))

/-- Decodes a part of a document, naming its entity when that fails. -/
def decoded {α : Type} (operation : Operation) (kind : EntityKind) (id : Uuid)
    (result : Except FieldError α) : Except ArchiveError α :=
  match result with
  | .ok v => .ok v
  | .error e => .error (.decode operation kind id (.field e))

/-- Whether a plan is stored. -/
def hasPlan (a : Archive) (id : Uuid) (s : σ) : Except ArchiveError Bool :=
  match DocumentStore.read s (a.key .plan id) with
  | .ok _ => .ok true
  | .error e => if e.isNotFound then .ok false else .error (.ofStore .exists .plan id e)

end Archive

end PlanArchive
