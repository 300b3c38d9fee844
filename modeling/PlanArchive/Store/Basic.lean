import PlanArchive.Uuid
import PlanArchive.Version
import PlanArchive.Store.Query

/-!
# Document stores

A store keeps JSON documents in five collections, each document under a partition and an
identifier and with a version token. A write touches one document and is atomic; it can be made
conditional on a token. `DocumentStore` is what the archive asks of a store: every call answers
with a result or an error, and a write also with the store as it is afterwards, whether it
succeeded or not.
-/

namespace PlanArchive

/-- The collections of a store. -/
inductive Collection where
  | plans | blocks | checks | sequences | actions
deriving DecidableEq, Repr

namespace Collection

/-- Every collection, in the order in which they are set up. -/
def all : List Collection := [.plans, .blocks, .checks, .sequences, .actions]

/-- The name of a collection. -/
def name : Collection → String
  | .plans => "plans"
  | .blocks => "blocks"
  | .checks => "checks"
  | .sequences => "sequences"
  | .actions => "actions"

/-- The name of a collection in capitals. -/
def variant : Collection → String
  | .plans => "Plans"
  | .blocks => "Blocks"
  | .checks => "Checks"
  | .sequences => "Sequences"
  | .actions => "Actions"

/-- The collection of a name. -/
def ofName? (name : String) : Option Collection := all.find? fun c => c.name == name

end Collection

/-- The place of a document. -/
structure DocumentKey where
  part : String
  collection : Collection
  id : Uuid
deriving DecidableEq

/-- A stored document with the token of its revision. -/
structure Item where
  doc : Json
  token : VersionToken
deriving DecidableEq

/-- Why a store did not do what it was asked for. -/
inductive StoreError where
  /-- There is no such document. -/
  | notFound (collection : Collection) (id : Uuid)
  /-- The token is not that of the stored revision. -/
  | preconditionFailed (collection : Collection) (id : Uuid)
  /-- The identifier is taken. -/
  | conflict (collection : Collection) (id : Uuid)
  /-- A patch addresses something else than a top-level field. -/
  | invalidPatch (path : String)
  /-- The database failed. -/
  | database (reason : String)
  /-- The store refuses the call. -/
  | unavailable (reason : String)
deriving DecidableEq

namespace StoreError

/-- The name of the kind of error, by which programs tell errors apart. -/
def kind : StoreError → String
  | .notFound .. => "NotFound"
  | .preconditionFailed .. => "PreconditionFailed"
  | .conflict .. => "Conflict"
  | .invalidPatch _ => "InvalidPatch"
  | .database _ => "Database"
  | .unavailable _ => "Unavailable"

/-- A document as an error names it. -/
def documentText (collection : Collection) (id : Uuid) : String :=
  collection.name ++ " document " ++ id.toText

/-- The wording of the error. -/
def message : StoreError → String
  | .notFound collection id => documentText collection id ++ " not found"
  | .preconditionFailed collection id =>
    documentText collection id ++ " was modified concurrently (version token mismatch)"
  | .conflict collection id => documentText collection id ++ " already exists"
  | .invalidPatch path =>
    "invalid patch path " ++ Text.quoted path ++ ": only top-level fields can be replaced"
  | .database reason => "database error: " ++ reason
  | .unavailable reason => "store unavailable: " ++ reason

/-- The error of the database behind a store error, when there is one. -/
def cause? : StoreError → Option String
  | .database reason => some reason
  | _ => none

/-- Whether the document was not there. -/
def isNotFound : StoreError → Bool
  | .notFound .. => true
  | _ => false

/-- Whether the token was stale. -/
def isPreconditionFailed : StoreError → Bool
  | .preconditionFailed .. => true
  | _ => false

/-- Whether the identifier was taken. -/
def isConflict : StoreError → Bool
  | .conflict .. => true
  | _ => false

end StoreError

/-- Replaces the field of a document that a path addresses, or adds it. -/
structure Patch where
  path : String
  value : Json
deriving DecidableEq

namespace Patch

/-- Replaces the top-level field of a name. -/
def field (name : String) (value : Json) : Patch := ⟨"/" ++ name, value⟩

/-- The name of the field that a path addresses: a slash and a name without a slash. -/
def target (patch : Patch) : Except StoreError String :=
  match patch.path.toList with
  | '/' :: name =>
    if name.isEmpty || name.contains '/' then .error (.invalidPatch patch.path)
    else .ok (String.ofList name)
  | _ => .error (.invalidPatch patch.path)

/-- Collects the fields that patches set onto those collected before; of two patches of one field
the later counts. -/
def collectOnto (fields : List (String × Json)) :
    List Patch → Except StoreError (List (String × Json))
  | [] => .ok fields
  | patch :: rest => do
    let name ← patch.target
    collectOnto (Json.putField name patch.value fields) rest

/-- The fields that some patches set. -/
def collect (patches : List Patch) : Except StoreError (List (String × Json)) :=
  collectOnto [] patches

/-- Sets fields of a document, one after the other. -/
def apply (fields doc : List (String × Json)) : List (String × Json) :=
  fields.foldl (fun doc field => Json.putField field.1 field.2 doc) doc

end Patch

/-- What a write comes to: its result, and the store afterwards. -/
abbrev Written (σ α : Type) := Except StoreError α × σ

/-- What the archive asks of a store. -/
class DocumentStore (σ : Type) where
  /-- The document at a place. -/
  read : σ → DocumentKey → Except StoreError Item
  /-- The documents of a collection in one partition that a query selects. -/
  query : σ → String → Collection → Query → Except StoreError (List Item)
  /-- Stores a document at a free place. -/
  create : σ → DocumentKey → Json → Written σ VersionToken
  /-- Stores a document in place of another. -/
  replace : σ → DocumentKey → Json → Option VersionToken → Written σ VersionToken
  /-- Sets top-level fields of a document. -/
  patch : σ → DocumentKey → List Patch → Option VersionToken → Written σ VersionToken
  /-- Removes a document. -/
  delete : σ → DocumentKey → Option VersionToken → Written σ Unit

end PlanArchive
