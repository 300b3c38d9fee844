import PlanArchive.Archive.Change

/-!
# Deleting plans

A plan is deleted from the leaves up, its own document last, so that a document that is gone means
that all below it is gone too; a delete that was cut short is finished by another one. Payloads are
not decoded, so that a plan can be deleted when its plugins are no longer registered.

When the plan's document is missing, children that name the plan may be left from a create that
never came to its end. They are found by the plan that they name.
-/

namespace PlanArchive

namespace Archive

variable {σ : Type} [DocumentStore σ]

/-- The document of an entity, or nothing when it is gone. -/
def fetchExisting {δ : Type} (a : Archive) (parse : Json → Option δ) (kind : EntityKind)
    (id : Uuid) : Change σ (Option (δ × VersionToken)) :=
  Change.looking fun s =>
    match a.fetch parse .delete kind id s with
    | .ok found => .ok (some found)
    | .error e => if e.isNotFound then .ok none else .error e

/-- Removes a document. One that is gone counts as removed. -/
def remove (a : Archive) (kind : EntityKind) (id : Uuid) (demanded : Option VersionToken) :
    Change σ Unit := fun s =>
  match DocumentStore.delete s (a.key kind id) demanded with
  | (.ok (), s) => (.ok (), s)
  | (.error e, s) =>
    if e.isNotFound then (.ok (), s) else (.error (.ofStore .delete kind id e), s)

/-- Removes actions. -/
def removeActions (a : Archive) (ids : List Uuid) : Change σ Unit :=
  Change.each (fun id => a.remove .action id none) ids

/-- Deletes checks with their actions. -/
def deleteChecks (a : Archive) (id : Uuid) : Change σ Unit := do
  match ← a.fetchExisting ChecksDocument.ofJson? .checks id with
  | none => return ()
  | some (d, _) =>
    a.removeActions d.actions
    a.remove .checks id none

/-- Deletes the checks in the slots of a plan or a block. -/
def deleteSlots (a : Archive) (ownerKind : EntityKind) (ownerId : Uuid) (refs : CheckRefs) :
    Change σ Unit := do
  let ids ← Change.looking fun _ => decoded .delete ownerKind ownerId refs.decode
  Change.each a.deleteChecks ids.present

/-- Deletes a block: its checks, the actions of all its sequences, the sequences, and the block. -/
def deleteBlock (a : Archive) (id : Uuid) : Change σ Unit := do
  match ← a.fetchExisting BlockDocument.ofJson? .block id with
  | none => return ()
  | some (d, _) =>
    a.deleteSlots .block id d.checks
    let sequences ← Change.collect
      (fun id => a.fetchExisting SequenceDocument.ofJson? .sequence id) d.sequences
    Change.each (fun (q, _) => a.removeActions q.actions) sequences
    Change.each (fun (q, _) => a.remove .sequence q.id none) sequences
    a.remove .block id none

/-- Selects the children of a plan by the plan that they name. -/
def childrenOf (planId : Uuid) : Query :=
  (Query.orderedBy Field.position).and ⟨Field.planId, .texts [planId.toText]⟩

/-- The children of one kind that name a plan. -/
def childrenOfKind (a : Archive) (planId : Uuid) (kind : EntityKind) (s : σ) :
    Except ArchiveError (List Item) :=
  match DocumentStore.query s a.part kind.collection (childrenOf planId) with
  | .ok items => .ok items
  | .error e => .error (.query .delete e)

/-- Removes a child that a query found. One whose document has no identifier is left. -/
def removeItem (a : Archive) (kind : EntityKind) (item : Item) : Change σ Unit :=
  match Field.id? item.doc Field.id with
  | some id => a.remove kind id none
  | none => Change.done ()

/-- Removes the children of one kind that name a plan. -/
def sweepKind (a : Archive) (planId : Uuid) (kind : EntityKind) : Change σ Unit := do
  let items ← Change.looking (a.childrenOfKind planId kind)
  Change.each (a.removeItem kind) items

/-- Removes every child that names a plan, children before parents. -/
def sweep (a : Archive) (planId : Uuid) : Change σ Unit :=
  Change.each (a.sweepKind planId) [.action, .checks, .sequence, .block]

/-- Deletes a plan with its whole tree. A plan that is not stored counts as deleted. -/
def delete (a : Archive) (id : Uuid) : Change σ Unit := do
  Change.looking fun _ => rejectNil .plan id
  match ← a.fetchExisting PlanDocument.ofJson? .plan id with
  | none => a.sweep id
  | some (d, token) =>
    Change.each a.deleteBlock d.blocks
    a.deleteSlots .plan id d.checks
    a.remove .plan id (some token)

end Archive

end PlanArchive
