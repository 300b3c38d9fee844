import PlanArchive.Document.Basic
import PlanArchive.Proofs.Text.Spelling

/-!
# Documents read back

A document that is laid out as a JSON value is read from that value as it was
(`PlanDocument.ofJson?_toJson` and its like). Nothing here looks at entities: what a field means
for an entity is the subject of the encodings.
-/

namespace PlanArchive

namespace Field

/-! ## Single fields -/

theorem text?_of {doc : Json} {name s : String} (found : doc.field? name = some (.str s)) :
    text? doc name = some s := by
  simp [text?, found, Json.text?]

theorem int?_of {doc : Json} {name : String} {n : Int64}
    (found : doc.field? name = some (.ofInt64 n)) : int? doc name = some n := by
  simp [int?, found]

theorem id?_of {doc : Json} {name : String} {id : Uuid}
    (found : doc.field? name = some (.str id.toText)) : id? doc name = some id := by
  simp [id?, text?_of found]

/-- Reading back each item that was written reads back the list. -/
theorem mapM_map_of_inverse {α β : Type} {write : α → β} {read : β → Option α}
    (inverse : ∀ x, read (write x) = some x) (items : List α) :
    (items.map write).mapM read = some items := by
  rw [List.mapM_map]
  induction items with
  | nil => rfl
  | cons item rest inductionHypothesis => simp [List.mapM_cons, inverse, inductionHypothesis]

theorem texts?_of {doc : Json} {name : String} {texts : List String}
    (found : doc.field? name = some (ofTexts texts)) : texts? doc name = some texts := by
  have each : (texts.map Json.str).mapM Json.text? = some texts := by
    apply mapM_map_of_inverse
    exact fun _ => rfl
  simp [texts?, found, ofTexts, Json.items?, -List.mapM_map, each]

theorem ids?_of {doc : Json} {name : String} {ids : List Uuid}
    (found : doc.field? name = some (ofIds ids)) : ids? doc name = some ids := by
  have texts : texts? doc name = some (ids.map Uuid.toText) := by
    apply texts?_of
    rw [found, ofIds, ofTexts, List.map_map]
    rfl
  have each : (ids.map Uuid.toText).mapM Uuid.parse? = some ids :=
    mapM_map_of_inverse Uuid.parse?_toText ids
  simp [ids?, texts, -List.mapM_map, each]

end Field

theorem StateRecord.ofJson?_of {doc : Json} {r : StateRecord}
    (status : doc.field? Field.status = some (.ofInt64 r.status))
    (start : doc.field? Field.start = some (.ofInt64 r.start))
    (finish : doc.field? Field.finish = some (.ofInt64 r.finish)) : ofJson? doc = some r := by
  simp [ofJson?, Field.int?_of status, Field.int?_of start, Field.int?_of finish]

/-! ## Whole documents -/

/-- Reading the document of a plan that was laid out gives it back. -/
@[simp] theorem PlanDocument.ofJson?_toJson (d : PlanDocument) :
    PlanDocument.ofJson? d.toJson = some d := by
  have part : Field.text? d.toJson "partitionKey" = some d.part := Field.text?_of rfl
  have id : Field.id? d.toJson Field.id = some d.id := Field.id?_of rfl
  have groupId : Field.text? d.toJson Field.groupId = some d.groupId := Field.text?_of rfl
  have name : Field.text? d.toJson "name" = some d.name := Field.text?_of rfl
  have descr : Field.text? d.toJson "descr" = some d.descr := Field.text?_of rfl
  have metadata : Field.text? d.toJson "meta" = some d.metadata := Field.text?_of rfl
  have checks : CheckRefs.ofJson? d.toJson = some d.checks := rfl
  have blocks : Field.ids? d.toJson "blocks" = some d.blocks := Field.ids?_of rfl
  have state : StateRecord.ofJson? d.toJson = some d.state :=
    StateRecord.ofJson?_of rfl rfl rfl
  have submitTime : Field.int? d.toJson Field.submitTime = some d.submitTime := Field.int?_of rfl
  have reason : Field.int? d.toJson Field.reason = some d.reason := Field.int?_of rfl
  simp [PlanDocument.ofJson?, part, id, groupId, name, descr, metadata, checks, blocks, state,
    submitTime, reason]

/-- Reading the document of a block that was laid out gives it back. -/
@[simp] theorem BlockDocument.ofJson?_toJson (d : BlockDocument) :
    BlockDocument.ofJson? d.toJson = some d := by
  have part : Field.text? d.toJson "partitionKey" = some d.part := Field.text?_of rfl
  have id : Field.id? d.toJson Field.id = some d.id := Field.id?_of rfl
  have planId : Field.id? d.toJson Field.planId = some d.planId := Field.id?_of rfl
  have key : Field.text? d.toJson "key" = some d.key := Field.text?_of rfl
  have name : Field.text? d.toJson "name" = some d.name := Field.text?_of rfl
  have descr : Field.text? d.toJson "descr" = some d.descr := Field.text?_of rfl
  have position : Field.int? d.toJson Field.position = some d.position := Field.int?_of rfl
  have entranceDelay : Field.int? d.toJson "entranceDelay" = some d.entranceDelay :=
    Field.int?_of rfl
  have exitDelay : Field.int? d.toJson "exitDelay" = some d.exitDelay := Field.int?_of rfl
  have checks : CheckRefs.ofJson? d.toJson = some d.checks := rfl
  have sequences : Field.ids? d.toJson "sequences" = some d.sequences := Field.ids?_of rfl
  have concurrency : Field.int? d.toJson "concurrency" = some d.concurrency := Field.int?_of rfl
  have toleratedFailures : Field.int? d.toJson "toleratedFailures" = some d.toleratedFailures :=
    Field.int?_of rfl
  have state : StateRecord.ofJson? d.toJson = some d.state :=
    StateRecord.ofJson?_of rfl rfl rfl
  simp [BlockDocument.ofJson?, part, id, planId, key, name, descr, position, entranceDelay,
    exitDelay, checks, sequences, concurrency, toleratedFailures, state]

/-- Reading the document of checks that was laid out gives it back. -/
@[simp] theorem ChecksDocument.ofJson?_toJson (d : ChecksDocument) :
    ChecksDocument.ofJson? d.toJson = some d := by
  have part : Field.text? d.toJson "partitionKey" = some d.part := Field.text?_of rfl
  have id : Field.id? d.toJson Field.id = some d.id := Field.id?_of rfl
  have key : Field.text? d.toJson "key" = some d.key := Field.text?_of rfl
  have planId : Field.id? d.toJson Field.planId = some d.planId := Field.id?_of rfl
  have actions : Field.ids? d.toJson "actions" = some d.actions := Field.ids?_of rfl
  have delay : Field.int? d.toJson "delay" = some d.delay := Field.int?_of rfl
  have state : StateRecord.ofJson? d.toJson = some d.state :=
    StateRecord.ofJson?_of rfl rfl rfl
  simp [ChecksDocument.ofJson?, part, id, key, planId, actions, delay, state]

/-- Reading the document of a sequence that was laid out gives it back. -/
@[simp] theorem SequenceDocument.ofJson?_toJson (d : SequenceDocument) :
    SequenceDocument.ofJson? d.toJson = some d := by
  have part : Field.text? d.toJson "partitionKey" = some d.part := Field.text?_of rfl
  have id : Field.id? d.toJson Field.id = some d.id := Field.id?_of rfl
  have key : Field.text? d.toJson "key" = some d.key := Field.text?_of rfl
  have planId : Field.id? d.toJson Field.planId = some d.planId := Field.id?_of rfl
  have name : Field.text? d.toJson "name" = some d.name := Field.text?_of rfl
  have descr : Field.text? d.toJson "descr" = some d.descr := Field.text?_of rfl
  have position : Field.int? d.toJson Field.position = some d.position := Field.int?_of rfl
  have actions : Field.ids? d.toJson "actions" = some d.actions := Field.ids?_of rfl
  have state : StateRecord.ofJson? d.toJson = some d.state :=
    StateRecord.ofJson?_of rfl rfl rfl
  simp [SequenceDocument.ofJson?, part, id, key, planId, name, descr, position, actions, state]

/-- Reading the document of an action that was laid out gives it back. -/
@[simp] theorem ActionDocument.ofJson?_toJson (d : ActionDocument) :
    ActionDocument.ofJson? d.toJson = some d := by
  have part : Field.text? d.toJson "partitionKey" = some d.part := Field.text?_of rfl
  have id : Field.id? d.toJson Field.id = some d.id := Field.id?_of rfl
  have key : Field.text? d.toJson "key" = some d.key := Field.text?_of rfl
  have planId : Field.id? d.toJson Field.planId = some d.planId := Field.id?_of rfl
  have name : Field.text? d.toJson "name" = some d.name := Field.text?_of rfl
  have descr : Field.text? d.toJson "descr" = some d.descr := Field.text?_of rfl
  have position : Field.int? d.toJson Field.position = some d.position := Field.int?_of rfl
  have plugin : Field.text? d.toJson "plugin" = some d.plugin := Field.text?_of rfl
  have timeout : Field.int? d.toJson "timeout" = some d.timeout := Field.int?_of rfl
  have retries : Field.int? d.toJson "retries" = some d.retries := Field.int?_of rfl
  have request : Field.text? d.toJson "req" = some d.request := Field.text?_of rfl
  have attempts : Field.texts? d.toJson "attempts" = some d.attempts := Field.texts?_of rfl
  have state : StateRecord.ofJson? d.toJson = some d.state :=
    StateRecord.ofJson?_of rfl rfl rfl
  simp [ActionDocument.ofJson?, part, id, key, planId, name, descr, position, plugin, timeout,
    retries, request, attempts, state]

end PlanArchive
