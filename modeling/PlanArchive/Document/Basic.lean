import PlanArchive.Document.Attempt
import PlanArchive.Store.Basic

/-!
# Documents

The stored form of each kind of entity. A document is flat: it refers to the children of its entity
by identifier and, but for a plan's, names the plan that owns it. Every field is always written,
and a document is read only if every field is there and has its type; other fields do not matter.

`encode` takes an entity to its document and `decode` a document to its entity, which then has no
children.
-/

namespace PlanArchive

namespace EntityKind

/-- The collection that the documents of a kind are stored in. -/
def collection : EntityKind → Collection
  | .plan => .plans
  | .block => .blocks
  | .checks => .checks
  | .sequence => .sequences
  | .action => .actions

end EntityKind

namespace Field

/-! ## Names that more than one part of the archive uses -/

def id : String := "id"
def planId : String := "planID"
def groupId : String := "groupID"
def position : String := "pos"
def status : String := "stateStatus"
def start : String := "stateStart"
def finish : String := "stateEnd"
def submitTime : String := "submitTime"
def reason : String := "reason"

/-- The field that refers to the checks in a slot. -/
def checks : Slot → String
  | .bypass => "bypassChecks"
  | .pre => "preChecks"
  | .post => "postChecks"
  | .cont => "contChecks"
  | .deferred => "deferredChecks"

end Field

/-! ## Parts that documents share -/

/-- The state of an entity in its document. -/
structure StateRecord where
  status : Int64
  start : Int64
  finish : Int64
deriving DecidableEq

namespace StateRecord

/-- The stored form of a state; its token is not part of it. -/
def encode (s : State) : Except FieldError StateRecord := do
  let start ← Field.encodeInstant Field.start s.start
  let finish ← Field.encodeInstant Field.finish s.finish
  return ⟨s.status.code, start, finish⟩

/-- The state that is stored, read from a revision. -/
def decode (r : StateRecord) (token : VersionToken) : Except FieldError State :=
  match Status.ofCode? r.status with
  | none => .error (.unknownStatus r.status)
  | some status =>
    .ok ⟨status, Field.decodeInstant r.start, Field.decodeInstant r.finish, some token⟩

/-- The fields of a state. -/
def fields (r : StateRecord) : List (String × Json) :=
  [(Field.status, .ofInt64 r.status), (Field.start, .ofInt64 r.start),
    (Field.finish, .ofInt64 r.finish)]

/-- The state in a document. -/
def ofJson? (doc : Json) : Option StateRecord := do
  let status ← Field.int? doc Field.status
  let start ← Field.int? doc Field.start
  let finish ← Field.int? doc Field.finish
  return ⟨status, start, finish⟩

end StateRecord

/-- References to checks, one text for each slot. -/
abbrev CheckRefs := Slots String

namespace CheckRefs

/-- The references to the checks in the slots. -/
def encode (checks : Slots (Option Checks)) : CheckRefs :=
  checks.map fun c => Field.encodeId (c.map Checks.id)

/-- The identifiers that are referred to. -/
def decode (refs : CheckRefs) : Except FieldError (Slots (Option Uuid)) :=
  refs.mapM fun slot text => Field.decodeId (Field.checks slot) text

/-- The fields of the references. -/
def fields (refs : CheckRefs) : List (String × Json) :=
  refs.entries.map fun entry => (Field.checks entry.1, .str entry.2)

/-- The references in a document. -/
def ofJson? (doc : Json) : Option CheckRefs := do
  let bypass ← Field.text? doc (Field.checks .bypass)
  let pre ← Field.text? doc (Field.checks .pre)
  let post ← Field.text? doc (Field.checks .post)
  let cont ← Field.text? doc (Field.checks .cont)
  let deferred ← Field.text? doc (Field.checks .deferred)
  return ⟨bypass, pre, post, cont, deferred⟩

end CheckRefs

/-! ## Plans -/

/-- The document of a plan. -/
structure PlanDocument where
  part : String
  id : Uuid
  groupId : String
  name : String
  descr : String
  /-- Two hexadecimal digits for each byte. -/
  metadata : String
  checks : CheckRefs
  blocks : List Uuid
  state : StateRecord
  submitTime : Int64
  reason : Int64
deriving DecidableEq

namespace PlanDocument

/-- The document of a plan in a partition. -/
def encode (part : String) (p : Plan) : Except FieldError PlanDocument := do
  let state ← StateRecord.encode p.state
  let submitTime ← Field.encodeInstant Field.submitTime p.submitTime
  return {
    part := part
    id := p.id
    groupId := Field.encodeId p.groupId
    name := p.name
    descr := p.descr
    metadata := Hex.encode p.metadata
    checks := CheckRefs.encode p.checks
    blocks := p.blocks.map Block.id
    state := state
    submitTime := submitTime
    reason := p.reason.code }

/-- The plan of a document, without checks and blocks. -/
def decode (d : PlanDocument) (token : VersionToken) : Except FieldError Plan := do
  let groupId ← Field.decodeId Field.groupId d.groupId
  let metadata ← (Hex.decode d.metadata).mapError .badMetadata
  let state ← d.state.decode token
  match FailureReason.ofCode? d.reason with
  | none => .error (.unknownReason d.reason)
  | some reason => return {
      id := d.id
      groupId := groupId
      name := d.name
      descr := d.descr
      metadata := metadata
      checks := .fill none
      blocks := []
      state := state
      submitTime := Field.decodeInstant d.submitTime
      reason := reason }

/-- The document as a JSON value. -/
def toJson (d : PlanDocument) : Json :=
  .obj ([("partitionKey", .str d.part), (Field.id, .str d.id.toText),
      (Field.groupId, .str d.groupId), ("name", .str d.name), ("descr", .str d.descr),
      ("meta", .str d.metadata)]
    ++ d.checks.fields ++ [("blocks", Field.ofIds d.blocks)] ++ d.state.fields
    ++ [(Field.submitTime, .ofInt64 d.submitTime), (Field.reason, .ofInt64 d.reason)])

/-- The document that a JSON value is. -/
def ofJson? (v : Json) : Option PlanDocument := do
  let part ← Field.text? v "partitionKey"
  let id ← Field.id? v Field.id
  let groupId ← Field.text? v Field.groupId
  let name ← Field.text? v "name"
  let descr ← Field.text? v "descr"
  let metadata ← Field.text? v "meta"
  let checks ← CheckRefs.ofJson? v
  let blocks ← Field.ids? v "blocks"
  let state ← StateRecord.ofJson? v
  let submitTime ← Field.int? v Field.submitTime
  let reason ← Field.int? v Field.reason
  return ⟨part, id, groupId, name, descr, metadata, checks, blocks, state, submitTime, reason⟩

end PlanDocument

/-! ## Blocks -/

/-- The document of a block. -/
structure BlockDocument where
  part : String
  id : Uuid
  planId : Uuid
  key : String
  name : String
  descr : String
  position : Int64
  entranceDelay : Int64
  exitDelay : Int64
  checks : CheckRefs
  sequences : List Uuid
  concurrency : Int64
  toleratedFailures : Int64
  state : StateRecord
deriving DecidableEq

namespace BlockDocument

/-- The document of a block of a plan, at its index among the plan's blocks. -/
def encode (part : String) (planId : Uuid) (position : Nat) (b : Block) :
    Except FieldError BlockDocument := do
  let position ← Field.encodePosition position
  let entranceDelay ← Field.encodeSpan "entranceDelay" b.entranceDelay
  let exitDelay ← Field.encodeSpan "exitDelay" b.exitDelay
  let state ← StateRecord.encode b.state
  return {
    part := part
    id := b.id
    planId := planId
    key := Field.encodeId b.key
    name := b.name
    descr := b.descr
    position := position
    entranceDelay := entranceDelay
    exitDelay := exitDelay
    checks := CheckRefs.encode b.checks
    sequences := b.sequences.map Sequence.id
    concurrency := Field.ofUInt32 b.concurrency
    toleratedFailures := Field.ofInt32 b.toleratedFailures
    state := state }

/-- The block of a document, without checks and sequences. -/
def decode (d : BlockDocument) (token : VersionToken) : Except FieldError Block := do
  let key ← Field.decodeId "key" d.key
  let entranceDelay ← Field.decodeSpan "entranceDelay" d.entranceDelay
  let exitDelay ← Field.decodeSpan "exitDelay" d.exitDelay
  let concurrency ← Field.toUInt32 "concurrency" d.concurrency
  let toleratedFailures ← Field.toInt32 "toleratedFailures" d.toleratedFailures
  let state ← d.state.decode token
  return {
    id := d.id
    key := key
    name := d.name
    descr := d.descr
    entranceDelay := entranceDelay
    exitDelay := exitDelay
    concurrency := concurrency
    toleratedFailures := toleratedFailures
    checks := .fill none
    sequences := []
    state := state }

/-- The document as a JSON value. -/
def toJson (d : BlockDocument) : Json :=
  .obj ([("partitionKey", .str d.part), (Field.id, .str d.id.toText),
      (Field.planId, .str d.planId.toText), ("key", .str d.key), ("name", .str d.name),
      ("descr", .str d.descr), (Field.position, .ofInt64 d.position),
      ("entranceDelay", .ofInt64 d.entranceDelay), ("exitDelay", .ofInt64 d.exitDelay)]
    ++ d.checks.fields
    ++ [("sequences", Field.ofIds d.sequences), ("concurrency", .ofInt64 d.concurrency),
      ("toleratedFailures", .ofInt64 d.toleratedFailures)]
    ++ d.state.fields)

/-- The document that a JSON value is. -/
def ofJson? (v : Json) : Option BlockDocument := do
  let part ← Field.text? v "partitionKey"
  let id ← Field.id? v Field.id
  let planId ← Field.id? v Field.planId
  let key ← Field.text? v "key"
  let name ← Field.text? v "name"
  let descr ← Field.text? v "descr"
  let position ← Field.int? v Field.position
  let entranceDelay ← Field.int? v "entranceDelay"
  let exitDelay ← Field.int? v "exitDelay"
  let checks ← CheckRefs.ofJson? v
  let sequences ← Field.ids? v "sequences"
  let concurrency ← Field.int? v "concurrency"
  let toleratedFailures ← Field.int? v "toleratedFailures"
  let state ← StateRecord.ofJson? v
  return ⟨part, id, planId, key, name, descr, position, entranceDelay, exitDelay, checks,
    sequences, concurrency, toleratedFailures, state⟩

end BlockDocument

/-! ## Checks -/

/-- The document of checks. -/
structure ChecksDocument where
  part : String
  id : Uuid
  key : String
  planId : Uuid
  actions : List Uuid
  delay : Int64
  state : StateRecord
deriving DecidableEq

namespace ChecksDocument

/-- The document of checks of a plan. -/
def encode (part : String) (planId : Uuid) (c : Checks) : Except FieldError ChecksDocument := do
  let delay ← Field.encodeSpan "delay" c.delay
  let state ← StateRecord.encode c.state
  return {
    part := part
    id := c.id
    key := Field.encodeId c.key
    planId := planId
    actions := c.actions.map Action.id
    delay := delay
    state := state }

/-- The checks of a document, without actions. -/
def decode (d : ChecksDocument) (token : VersionToken) : Except FieldError Checks := do
  let key ← Field.decodeId "key" d.key
  let delay ← Field.decodeSpan "delay" d.delay
  let state ← d.state.decode token
  return ⟨d.id, key, delay, [], state⟩

/-- The document as a JSON value. -/
def toJson (d : ChecksDocument) : Json :=
  .obj ([("partitionKey", .str d.part), (Field.id, .str d.id.toText), ("key", .str d.key),
      (Field.planId, .str d.planId.toText), ("actions", Field.ofIds d.actions),
      ("delay", .ofInt64 d.delay)]
    ++ d.state.fields)

/-- The document that a JSON value is. -/
def ofJson? (v : Json) : Option ChecksDocument := do
  let part ← Field.text? v "partitionKey"
  let id ← Field.id? v Field.id
  let key ← Field.text? v "key"
  let planId ← Field.id? v Field.planId
  let actions ← Field.ids? v "actions"
  let delay ← Field.int? v "delay"
  let state ← StateRecord.ofJson? v
  return ⟨part, id, key, planId, actions, delay, state⟩

end ChecksDocument

/-! ## Sequences -/

/-- The document of a sequence. -/
structure SequenceDocument where
  part : String
  id : Uuid
  key : String
  planId : Uuid
  name : String
  descr : String
  position : Int64
  actions : List Uuid
  state : StateRecord
deriving DecidableEq

namespace SequenceDocument

/-- The document of a sequence of a plan, at its index among the block's sequences. -/
def encode (part : String) (planId : Uuid) (position : Nat) (s : Sequence) :
    Except FieldError SequenceDocument := do
  let position ← Field.encodePosition position
  let state ← StateRecord.encode s.state
  return {
    part := part
    id := s.id
    key := Field.encodeId s.key
    planId := planId
    name := s.name
    descr := s.descr
    position := position
    actions := s.actions.map Action.id
    state := state }

/-- The sequence of a document, without actions. -/
def decode (d : SequenceDocument) (token : VersionToken) : Except FieldError Sequence := do
  let key ← Field.decodeId "key" d.key
  let state ← d.state.decode token
  return ⟨d.id, key, d.name, d.descr, [], state⟩

/-- The document as a JSON value. -/
def toJson (d : SequenceDocument) : Json :=
  .obj ([("partitionKey", .str d.part), (Field.id, .str d.id.toText), ("key", .str d.key),
      (Field.planId, .str d.planId.toText), ("name", .str d.name), ("descr", .str d.descr),
      (Field.position, .ofInt64 d.position), ("actions", Field.ofIds d.actions)]
    ++ d.state.fields)

/-- The document that a JSON value is. -/
def ofJson? (v : Json) : Option SequenceDocument := do
  let part ← Field.text? v "partitionKey"
  let id ← Field.id? v Field.id
  let key ← Field.text? v "key"
  let planId ← Field.id? v Field.planId
  let name ← Field.text? v "name"
  let descr ← Field.text? v "descr"
  let position ← Field.int? v Field.position
  let actions ← Field.ids? v "actions"
  let state ← StateRecord.ofJson? v
  return ⟨part, id, key, planId, name, descr, position, actions, state⟩

end SequenceDocument

/-! ## Actions -/

/-- The document of an action. -/
structure ActionDocument where
  part : String
  id : Uuid
  key : String
  planId : Uuid
  name : String
  descr : String
  position : Int64
  plugin : String
  timeout : Int64
  retries : Int64
  /-- The text of the request, empty when there is none. -/
  request : String
  /-- One text for each attempt, oldest first. -/
  attempts : List String
  state : StateRecord
deriving DecidableEq

namespace ActionDocument

/-- The document of an action of a plan, at its index among its siblings. -/
def encode (part : String) (planId : Uuid) (position : Nat) (a : Action) :
    Except FieldError ActionDocument := do
  let request ← Action.encodeRequest a.request
  let position ← Field.encodePosition position
  let timeout ← Field.encodeSpan "timeout" a.timeout
  let attempts ← a.attempts.mapM Attempt.encode
  let state ← StateRecord.encode a.state
  return {
    part := part
    id := a.id
    key := Field.encodeId a.key
    planId := planId
    name := a.name
    descr := a.descr
    position := position
    plugin := a.plugin
    timeout := timeout
    retries := Field.ofUInt32 a.retries
    request := request
    attempts := attempts.map AttemptRecord.toText
    state := state }

/-- The action of a document, its payloads decoded by the plugin that it names. -/
def decode (d : ActionDocument) (token : VersionToken) (registry : Registry) :
    Except FieldError Action :=
  match registry.lookup? d.plugin with
  | none => .error (.unknownPlugin d.plugin)
  | some plugin => do
    let request ← Action.decodeRequest plugin d.request
    let attempts ← d.attempts.mapM (Attempt.decode plugin)
    let key ← Field.decodeId "key" d.key
    let timeout ← Field.decodeSpan "timeout" d.timeout
    let retries ← Field.toUInt32 "retries" d.retries
    let state ← d.state.decode token
    return {
      id := d.id
      key := key
      name := d.name
      descr := d.descr
      plugin := d.plugin
      timeout := timeout
      retries := retries
      request := request
      attempts := attempts
      state := state }

/-- The document as a JSON value. -/
def toJson (d : ActionDocument) : Json :=
  .obj ([("partitionKey", .str d.part), (Field.id, .str d.id.toText), ("key", .str d.key),
      (Field.planId, .str d.planId.toText), ("name", .str d.name), ("descr", .str d.descr),
      (Field.position, .ofInt64 d.position), ("plugin", .str d.plugin),
      ("timeout", .ofInt64 d.timeout), ("retries", .ofInt64 d.retries),
      ("req", .str d.request), ("attempts", Field.ofTexts d.attempts)]
    ++ d.state.fields)

/-- The document that a JSON value is. -/
def ofJson? (v : Json) : Option ActionDocument := do
  let part ← Field.text? v "partitionKey"
  let id ← Field.id? v Field.id
  let key ← Field.text? v "key"
  let planId ← Field.id? v Field.planId
  let name ← Field.text? v "name"
  let descr ← Field.text? v "descr"
  let position ← Field.int? v Field.position
  let plugin ← Field.text? v "plugin"
  let timeout ← Field.int? v "timeout"
  let retries ← Field.int? v "retries"
  let request ← Field.text? v "req"
  let attempts ← Field.texts? v "attempts"
  let state ← StateRecord.ofJson? v
  return ⟨part, id, key, planId, name, descr, position, plugin, timeout, retries, request,
    attempts, state⟩

end ActionDocument

end PlanArchive
