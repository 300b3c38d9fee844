import PlanArchive.Plan.Basic

/-!
# Walking through a plan

The order in which the archive commits the entities of a plan: children before their parents,
checks in the order of their slots before blocks or sequences, lists in their own order, and the
plan last. `entities` names every entity, `states` shows its state, and `mapStates` replaces the
states; `withoutTokens` is the plan as a value, whatever revisions it was read from. Two plans are
the same when they have the same values and payloads.
-/

namespace PlanArchive

/-- An entity of a plan by kind and identifier. -/
abbrev EntityRef := EntityKind × Uuid

/-! ## The entities -/

/-- The actions of a list. -/
def Action.entitiesOf (actions : List Action) : List EntityRef :=
  actions.map fun a => (.action, a.id)

/-- The actions of the checks and the checks. -/
def Checks.entities (c : Checks) : List EntityRef :=
  Action.entitiesOf c.actions ++ [(.checks, c.id)]

/-- The actions of the sequence and the sequence. -/
def Sequence.entities (s : Sequence) : List EntityRef :=
  Action.entitiesOf s.actions ++ [(.sequence, s.id)]

/-- The checks, the sequences and the block. -/
def Block.entities (b : Block) : List EntityRef :=
  b.checks.present.flatMap Checks.entities ++ b.sequences.flatMap Sequence.entities
    ++ [(.block, b.id)]

/-- Every entity of the plan. -/
def Plan.entities (p : Plan) : List EntityRef :=
  p.checks.present.flatMap Checks.entities ++ p.blocks.flatMap Block.entities
    ++ [(.plan, p.id)]

/-! ## Their states -/

/-- An entity with its state. -/
structure EntityState where
  kind : EntityKind
  id : Uuid
  state : State
deriving DecidableEq, Repr

/-- The entity that a state belongs to. -/
def EntityState.entity (e : EntityState) : EntityRef := (e.kind, e.id)

/-- The states of the actions of a list. -/
def Action.statesOf : List Action → List EntityState
  | [] => []
  | a :: rest => ⟨.action, a.id, a.state⟩ :: statesOf rest

/-- The states of the checks and their actions. -/
def Checks.states (c : Checks) : List EntityState :=
  Action.statesOf c.actions ++ [⟨.checks, c.id, c.state⟩]

/-- The states of the sequence and its actions. -/
def Sequence.states (s : Sequence) : List EntityState :=
  Action.statesOf s.actions ++ [⟨.sequence, s.id, s.state⟩]

/-- The states of the block and all below it. -/
def Block.states (b : Block) : List EntityState :=
  (b.checks.present.map Checks.states).flatten ++ (b.sequences.map Sequence.states).flatten
    ++ [⟨.block, b.id, b.state⟩]

/-- The state of every entity of the plan. -/
def Plan.states (p : Plan) : List EntityState :=
  (p.checks.present.map Checks.states).flatten ++ (p.blocks.map Block.states).flatten
    ++ [⟨.plan, p.id, p.state⟩]

/-! ## Replacing states -/

/-- A change of the state of an entity. -/
abbrev StateChange := EntityKind → Uuid → State → State

/-- Changes the state of an action. -/
def Action.mapState (f : StateChange) (a : Action) : Action :=
  { a with state := f .action a.id a.state }

/-- Changes the states of the checks and their actions. -/
def Checks.mapStates (f : StateChange) (c : Checks) : Checks :=
  { c with actions := c.actions.map (Action.mapState f), state := f .checks c.id c.state }

/-- Changes the states of the sequence and its actions. -/
def Sequence.mapStates (f : StateChange) (s : Sequence) : Sequence :=
  { s with actions := s.actions.map (Action.mapState f), state := f .sequence s.id s.state }

/-- Changes the states of the block and all below it. -/
def Block.mapStates (f : StateChange) (b : Block) : Block :=
  { b with
    checks := b.checks.map (Option.map (Checks.mapStates f))
    sequences := b.sequences.map (Sequence.mapStates f)
    state := f .block b.id b.state }

/-- Changes the state of every entity of the plan. -/
def Plan.mapStates (f : StateChange) (p : Plan) : Plan :=
  { p with
    checks := p.checks.map (Option.map (Checks.mapStates f))
    blocks := p.blocks.map (Block.mapStates f)
    state := f .plan p.id p.state }

/-- The plan without any version token. -/
def Plan.withoutTokens (p : Plan) : Plan :=
  p.mapStates fun _ _ state => { state with token := none }

/-! ## Comparison -/

/-- Changes every action of the checks. -/
def Checks.mapActions (f : Action → Action) (c : Checks) : Checks :=
  { c with actions := c.actions.map f }

/-- Changes every action of the sequence. -/
def Sequence.mapActions (f : Action → Action) (s : Sequence) : Sequence :=
  { s with actions := s.actions.map f }

/-- Changes every action below the block. -/
def Block.mapActions (f : Action → Action) (b : Block) : Block :=
  { b with
    checks := b.checks.map (Option.map (Checks.mapActions f))
    sequences := b.sequences.map (Sequence.mapActions f) }

/-- Changes every action of the plan. -/
def Plan.mapActions (f : Action → Action) (p : Plan) : Plan :=
  { p with
    checks := p.checks.map (Option.map (Checks.mapActions f))
    blocks := p.blocks.map (Block.mapActions f) }

/-- The action with its payloads as they are compared. -/
def Action.comparable (a : Action) : Action :=
  { a with
    request := a.request.map Payload.comparable
    attempts := a.attempts.map fun attempt =>
      { attempt with response := attempt.response.map Payload.comparable } }

/-- The plan as it is compared: without tokens. -/
def Plan.comparable (p : Plan) : Plan := p.withoutTokens.mapActions Action.comparable

/-- Whether two plans are the same; their version tokens do not count. -/
def Plan.same (p q : Plan) : Bool := decide (p.comparable = q.comparable)

end PlanArchive
