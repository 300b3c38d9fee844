import PlanArchive.Archive.Basic

/-!
# Reading plans

A plan is read from its document down: a document before its children, checks in the order of
their slots before blocks or sequences, lists in order. Reading ends at the first document that is
missing, does not decode or belongs to another plan. Nothing here changes the store.
-/

namespace PlanArchive

namespace Archive

variable {σ : Type} [DocumentStore σ]

/-- A child must belong to the plan that it is read for. -/
def checkOwner (kind : EntityKind) (id stored expected : Uuid) : Except ArchiveError Unit :=
  if stored = expected then .ok ()
  else .error (.decode .read kind id (.foreign stored expected))

/-- The action that a document stores. An error names the identifier in the document. -/
def decodeAction (a : Archive) (d : ActionDocument) (token : VersionToken) :
    Except ArchiveError Action :=
  decoded .read .action d.id (d.decode token a.registry)

/-- Reads an action of a plan. -/
def readAction (a : Archive) (s : σ) (planId id : Uuid) : Except ArchiveError Action := do
  let (d, token) ← a.fetch ActionDocument.ofJson? .read .action id s
  checkOwner .action id d.planId planId
  a.decodeAction d token

/-- Reads checks of a plan with their actions. -/
def readChecks (a : Archive) (s : σ) (planId id : Uuid) : Except ArchiveError Checks := do
  let (d, token) ← a.fetch ChecksDocument.ofJson? .read .checks id s
  checkOwner .checks id d.planId planId
  let checks ← decoded .read .checks id (d.decode token)
  let actions ← d.actions.mapM (a.readAction s planId)
  return { checks with actions := actions }

/-- Reads the checks in a slot, if it has any. -/
def readSlot (a : Archive) (s : σ) (planId : Uuid) :
    Option Uuid → Except ArchiveError (Option Checks)
  | none => .ok none
  | some id => (a.readChecks s planId id).map some

/-- Reads the checks in the slots of a plan or a block. All references are decoded first. -/
def readSlots (a : Archive) (s : σ) (planId : Uuid) (ownerKind : EntityKind) (ownerId : Uuid)
    (refs : CheckRefs) : Except ArchiveError (Slots (Option Checks)) := do
  let ids ← decoded .read ownerKind ownerId refs.decode
  ids.mapM fun _ => a.readSlot s planId

/-- Reads a sequence of a plan with its actions. -/
def readSequence (a : Archive) (s : σ) (planId id : Uuid) : Except ArchiveError Sequence := do
  let (d, token) ← a.fetch SequenceDocument.ofJson? .read .sequence id s
  checkOwner .sequence id d.planId planId
  let sequence ← decoded .read .sequence id (d.decode token)
  let actions ← d.actions.mapM (a.readAction s planId)
  return { sequence with actions := actions }

/-- Reads a block of a plan with all below it. -/
def readBlock (a : Archive) (s : σ) (planId id : Uuid) : Except ArchiveError Block := do
  let (d, token) ← a.fetch BlockDocument.ofJson? .read .block id s
  checkOwner .block id d.planId planId
  let block ← decoded .read .block id (d.decode token)
  let checks ← a.readSlots s planId .block id d.checks
  let sequences ← d.sequences.mapM (a.readSequence s planId)
  return { block with checks := checks, sequences := sequences }

/-- Reads a plan with its whole tree. -/
def read (a : Archive) (s : σ) (id : Uuid) : Except ArchiveError Plan := do
  let (d, token) ← a.fetch PlanDocument.ofJson? .read .plan id s
  let plan ← decoded .read .plan id (d.decode token)
  let checks ← a.readSlots s id .plan id d.checks
  let blocks ← d.blocks.mapM (a.readBlock s id)
  return { plan with checks := checks, blocks := blocks }

/-- The actions with these identifiers, in the order given, whatever plans they belong to. -/
def actions (a : Archive) (s : σ) (ids : List Uuid) : Except ArchiveError (List Action) :=
  ids.mapM fun id => do
    let (d, token) ← a.fetch ActionDocument.ofJson? .read .action id s
    a.decodeAction d token

end Archive

end PlanArchive
