import PlanArchive.Archive.Basic
import PlanArchive.Plan.Entities

/-!
# Creating plans

A plan is encoded completely before the first write. Its documents are then written one at a time,
children before parents and the plan's own last, so that a plan's document is only ever stored when
its whole tree is. A create that is cut short leaves a prefix of the documents behind; another one
takes over those of the same plan and finishes. The tokens of everything written are recorded on
the plan either way.
-/

namespace PlanArchive

/-- A document that waits to be written. -/
structure PendingDocument where
  kind : EntityKind
  id : Uuid
  doc : Json
deriving DecidableEq

namespace PendingDocument

/-- The entity of a document. -/
def entity (p : PendingDocument) : EntityRef := (p.kind, p.id)

/-- The document of an entity, if it has one. -/
def ofEncoded {δ : Type} (kind : EntityKind) (id : Uuid) (toJson : δ → Json)
    (encoded : Except FieldError δ) : Except ArchiveError PendingDocument :=
  match encoded with
  | .ok d => .ok ⟨kind, id, toJson d⟩
  | .error e => .error (.validation (.unencodable kind id e))

end PendingDocument

/-- What an operation on an entity in memory comes to: its result, the entity and the store
afterwards. -/
structure Stored (σ α : Type) where
  result : Except ArchiveError Unit
  entity : α
  store : σ

/-- The outcome with the entity seen as another value. -/
def Stored.map {σ α β : Type} (f : α → β) (stored : Stored σ α) : Stored σ β :=
  ⟨stored.result, f stored.entity, stored.store⟩

namespace Archive

/-! ## The documents of a plan -/

/-- The documents of actions, numbered by their place in the list. -/
def actionDocuments (a : Archive) (planId : Uuid) (actions : List Action) :
    Except ArchiveError (List PendingDocument) :=
  actions.zipIdx.mapM fun (action, position) =>
    PendingDocument.ofEncoded .action action.id ActionDocument.toJson
      (ActionDocument.encode a.part planId position action)

/-- The documents of checks: their actions and their own. -/
def checksDocuments (a : Archive) (planId : Uuid) (c : Checks) :
    Except ArchiveError (List PendingDocument) := do
  let actions ← a.actionDocuments planId c.actions
  let own ← PendingDocument.ofEncoded .checks c.id ChecksDocument.toJson
    (ChecksDocument.encode a.part planId c)
  return actions ++ [own]

/-- The documents of a sequence: its actions and its own. -/
def sequenceDocuments (a : Archive) (planId : Uuid) (position : Nat) (s : Sequence) :
    Except ArchiveError (List PendingDocument) := do
  let actions ← a.actionDocuments planId s.actions
  let own ← PendingDocument.ofEncoded .sequence s.id SequenceDocument.toJson
    (SequenceDocument.encode a.part planId position s)
  return actions ++ [own]

/-- The documents of a block: checks, sequences and its own. -/
def blockDocuments (a : Archive) (planId : Uuid) (position : Nat) (b : Block) :
    Except ArchiveError (List PendingDocument) := do
  let checks ← b.checks.present.mapM (a.checksDocuments planId)
  let sequences ← b.sequences.zipIdx.mapM fun (s, position) =>
    a.sequenceDocuments planId position s
  let own ← PendingDocument.ofEncoded .block b.id BlockDocument.toJson
    (BlockDocument.encode a.part planId position b)
  return checks.flatten ++ sequences.flatten ++ [own]

/-- Every document of a plan in the order in which they are written. -/
def documents (a : Archive) (p : Plan) : Except ArchiveError (List PendingDocument) := do
  let checks ← p.checks.present.mapM (a.checksDocuments p.id)
  let blocks ← p.blocks.zipIdx.mapM fun (b, position) => a.blockDocuments p.id position b
  let own ← PendingDocument.ofEncoded .plan p.id PlanDocument.toJson (PlanDocument.encode a.part p)
  return checks.flatten ++ blocks.flatten ++ [own]

/-! ## Validation -/

/-- Every entity needs an identifier of its own that is not nil. -/
def checkIds (seen : List Uuid) : List EntityRef → Except ArchiveError Unit
  | [] => .ok ()
  | (kind, id) :: rest => do
    rejectNil kind id
    if id ∈ seen then .error (.validation (.repeatedId kind id))
    else checkIds (id :: seen) rest

/-- The documents of a plan that may be stored. -/
def validated (a : Archive) (p : Plan) : Except ArchiveError (List PendingDocument) := do
  rejectNil .plan p.id
  checkIds [] p.entities
  a.documents p

/-! ## Writing -/

variable {σ : Type} [DocumentStore σ]

/-- The plan that a stored child names as its owner. -/
def owner? (doc : Json) : Option Uuid := Field.id? doc Field.planId

/-- Takes over a stored child. One of the same plan was left by a create that was cut short; one of
another plan is in the way. -/
def takeOver (a : Archive) (planId : Uuid) (p : PendingDocument) (s : σ) :
    Except ArchiveError VersionToken × σ :=
  match DocumentStore.read s (a.key p.kind p.id) with
  | .error e => (.error (.ofStore .create p.kind p.id e), s)
  | .ok existing =>
    if owner? existing.doc = some planId then
      match DocumentStore.replace s (a.key p.kind p.id) p.doc (some existing.token) with
      | (.ok token, s) => (.ok token, s)
      | (.error e, s) => (.error (.ofStore .create p.kind p.id e), s)
    else (.error (.alreadyExists p.kind p.id), s)

/-- Writes one document. -/
def writeDocument (a : Archive) (planId : Uuid) (p : PendingDocument) (s : σ) :
    Except ArchiveError VersionToken × σ :=
  match DocumentStore.create s (a.key p.kind p.id) p.doc with
  | (.ok token, s) => (.ok token, s)
  | (.error e, s) =>
    if e.isConflict && p.kind != .plan then a.takeOver planId p s
    else (.error (.ofStore .create p.kind p.id e), s)

/-- What writing documents one after the other came to. -/
structure Commit (σ : Type) where
  /-- Why the writing ended before the last document, if it did. -/
  failure : Option ArchiveError
  /-- The tokens of the documents that were written. -/
  tokens : List (Uuid × VersionToken)
  store : σ

/-- Writes documents in order up to the first failure. -/
def commit (a : Archive) (planId : Uuid) : List PendingDocument → σ → Commit σ
  | [], s => ⟨none, [], s⟩
  | p :: rest, s =>
    match a.writeDocument planId p s with
    | (.error e, s) => ⟨some e, [], s⟩
    | (.ok token, s) =>
      let later := commit a planId rest s
      { later with tokens := (p.id, token) :: later.tokens }

/-- Records the tokens of written documents on their entities. -/
def recordTokens (tokens : List (Uuid × VersionToken)) (p : Plan) : Plan :=
  p.mapStates fun _ id state =>
    match tokens.lookup id with
    | some token => { state with token := some token }
    | none => state

/-- Stores a new plan with its whole tree. -/
def create (a : Archive) (p : Plan) (s : σ) : Stored σ Plan :=
  match a.validated p with
  | .error e => ⟨.error e, p, s⟩
  | .ok documents =>
    match a.hasPlan p.id s with
    | .error e => ⟨.error e, p, s⟩
    | .ok true => ⟨.error (.alreadyExists .plan p.id), p, s⟩
    | .ok false =>
      let commit := a.commit p.id documents s
      let result := match commit.failure with
        | some e => .error e
        | none => .ok ()
      ⟨result, recordTokens commit.tokens p, commit.store⟩

end Archive

end PlanArchive
