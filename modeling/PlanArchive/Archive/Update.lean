import PlanArchive.Archive.Create
import PlanArchive.Plan.Path

/-!
# Updating states

After a plan was created only the states of its entities are written again, and for the plan itself
the failure reason and the submission time. An update demands the token that the entity has and
records the new one; an entity without a token is written whatever its revision is.
-/

namespace PlanArchive

namespace Archive

variable {σ : Type} [DocumentStore σ]

/-- The patches that write a state. -/
def statePatches (s : State) : Except FieldError (List Patch) := do
  let stored ← StateRecord.encode s
  return stored.fields.map fun field => Patch.field field.1 field.2

/-- Writes the state of an entity and more fields of its document. -/
def patchState (a : Archive) (kind : EntityKind) (id : Uuid) (state : State)
    (more : List Patch) (s : σ) : Stored σ State :=
  match rejectNil kind id with
  | .error e => ⟨.error e, state, s⟩
  | .ok () =>
    match statePatches state with
    | .error e => ⟨.error (.validation (.unencodable kind id e)), state, s⟩
    | .ok patches =>
      match DocumentStore.patch s (a.key kind id) (patches ++ more) state.token with
      | (.ok token, s) => ⟨.ok (), { state with token := some token }, s⟩
      | (.error e, s) => ⟨.error (.ofStore .update kind id e), state, s⟩

/-- Writes the state, the failure reason and the submission time of a plan. -/
def updatePlan (a : Archive) (p : Plan) (s : σ) : Stored σ Plan :=
  match Field.encodeInstant Field.submitTime p.submitTime with
  | .error e => ⟨.error (.validation (.unencodable .plan p.id e)), p, s⟩
  | .ok submitTime =>
    let more := [Patch.field Field.reason (.ofInt64 p.reason.code),
      Patch.field Field.submitTime (.ofInt64 submitTime)]
    let stored := a.patchState .plan p.id p.state more s
    ⟨stored.result, { p with state := stored.entity }, stored.store⟩

/-- Writes the state of a block. -/
def updateBlock (a : Archive) (b : Block) (s : σ) : Stored σ Block :=
  let stored := a.patchState .block b.id b.state [] s
  ⟨stored.result, { b with state := stored.entity }, stored.store⟩

/-- Writes the state of checks. -/
def updateChecks (a : Archive) (c : Checks) (s : σ) : Stored σ Checks :=
  let stored := a.patchState .checks c.id c.state [] s
  ⟨stored.result, { c with state := stored.entity }, stored.store⟩

/-- Writes the state of a sequence. -/
def updateSequence (a : Archive) (q : Sequence) (s : σ) : Stored σ Sequence :=
  let stored := a.patchState .sequence q.id q.state [] s
  ⟨stored.result, { q with state := stored.entity }, stored.store⟩

/-- Writes the state of an action. -/
def updateAction (a : Archive) (x : Action) (s : σ) : Stored σ Action :=
  let stored := a.patchState .action x.id x.state [] s
  ⟨stored.result, { x with state := stored.entity }, stored.store⟩

/-- Writes the state of an entity of any kind. -/
def update (a : Archive) (e : Entity) (s : σ) : Stored σ Entity :=
  match e with
  | .plan p => (a.updatePlan p s).map .plan
  | .block b => (a.updateBlock b s).map .block
  | .checks c => (a.updateChecks c s).map .checks
  | .sequence q => (a.updateSequence q s).map .sequence
  | .action x => (a.updateAction x s).map .action

end Archive

end PlanArchive
