import PlanArchive.Proofs.Plan.Sites

/-!
# Visiting the states of a plan

A visitor is called with one entity after the other and puts another state in place of the one it
is shown. What it does besides, what it remembers from earlier calls and whether it goes on are up
to its monad. `Plan.visitStates` follows the plan level by level; `Plan.states_visitStates` says
that this is a walk along the list of the states, one call for each of them in order, and that the
states of the plan that comes out are the answers. Replacing the states by a function is the visit
of a visitor without any effect (`Plan.visitStates_pure`).
-/

namespace PlanArchive

variable {m : Type → Type} [Monad m]

/-- What is called with every entity of a plan and its state. -/
abbrev Visitor (m : Type → Type) := EntityKind → Uuid → State → m State

/-! ## Visiting level by level -/

/-- Visits the state of an action. -/
def Action.visitState (visit : Visitor m) (x : Action) : m Action := do
  let state ← visit .action x.id x.state
  return { x with state := state }

/-- Visits the states of the actions of checks and then that of the checks. -/
def Checks.visitStates (visit : Visitor m) (c : Checks) : m Checks := do
  let actions ← c.actions.mapM (Action.visitState visit)
  let state ← visit .checks c.id c.state
  return { c with actions := actions, state := state }

/-- Visits the states of the checks in slots, slot by slot. -/
def Slots.visitStates (visit : Visitor m) (slots : Slots (Option Checks)) :
    m (Slots (Option Checks)) := do
  let bypass ← slots.bypass.mapM (Checks.visitStates visit)
  let pre ← slots.pre.mapM (Checks.visitStates visit)
  let post ← slots.post.mapM (Checks.visitStates visit)
  let cont ← slots.cont.mapM (Checks.visitStates visit)
  let deferred ← slots.deferred.mapM (Checks.visitStates visit)
  return ⟨bypass, pre, post, cont, deferred⟩

/-- Visits the states of the actions of a sequence and then that of the sequence. -/
def Sequence.visitStates (visit : Visitor m) (q : Sequence) : m Sequence := do
  let actions ← q.actions.mapM (Action.visitState visit)
  let state ← visit .sequence q.id q.state
  return { q with actions := actions, state := state }

/-- Visits all states below a block and then that of the block. -/
def Block.visitStates (visit : Visitor m) (b : Block) : m Block := do
  let checks ← b.checks.visitStates visit
  let sequences ← b.sequences.mapM (Sequence.visitStates visit)
  let state ← visit .block b.id b.state
  return { b with checks := checks, sequences := sequences, state := state }

/-- Visits all states below a plan and then that of the plan. -/
def Plan.visitStates (visit : Visitor m) (p : Plan) : m Plan := do
  let checks ← p.checks.visitStates visit
  let blocks ← p.blocks.mapM (Block.visitStates visit)
  let state ← visit .plan p.id p.state
  return { p with checks := checks, blocks := blocks, state := state }

/-! ## Visiting along a list -/

/-- Visits the state of one entity. -/
def EntityState.visit (visit : Visitor m) (x : EntityState) : m EntityState := do
  let state ← visit x.kind x.id x.state
  return { x with state := state }

variable [LawfulMonad m] {visit : Visitor m}

/-- Items that are visited one after the other are visited along the list of all their states. -/
theorem EntityState.flatten_visit {α : Type} {visitItem : α → m α}
    {statesOf : α → List EntityState}
    (each : ∀ x, statesOf <$> visitItem x = (statesOf x).mapM (EntityState.visit visit))
    (items : List α) :
    (fun visited => (visited.map statesOf).flatten) <$> items.mapM visitItem =
      (items.map statesOf).flatten.mapM (EntityState.visit visit) := by
  induction items with
  | nil => simp
  | cons x rest inductionHypothesis =>
    rw [List.mapM_cons, List.map_cons, List.flatten_cons, List.mapM_append, ← each,
      ← inductionHypothesis]
    simp only [map_eq_pure_bind, bind_assoc, pure_bind, List.map_cons, List.flatten_cons]

theorem Action.statesOf_visitState (actions : List Action) :
    statesOf <$> actions.mapM (visitState visit) =
      (statesOf actions).mapM (EntityState.visit visit) := by
  induction actions with
  | nil => simp [statesOf]
  | cons x rest inductionHypothesis =>
    rw [List.mapM_cons, statesOf, List.mapM_cons, ← inductionHypothesis]
    simp only [visitState, EntityState.visit, map_eq_pure_bind, bind_assoc, pure_bind, statesOf]

theorem Checks.states_visitStates (c : Checks) :
    states <$> c.visitStates visit = c.states.mapM (EntityState.visit visit) := by
  rw [states, List.mapM_append, ← Action.statesOf_visitState]
  simp only [visitStates, EntityState.visit, map_eq_pure_bind, bind_assoc, pure_bind, states,
    List.mapM_cons, List.mapM_nil]

theorem Sequence.states_visitStates (q : Sequence) :
    states <$> q.visitStates visit = q.states.mapM (EntityState.visit visit) := by
  rw [states, List.mapM_append, ← Action.statesOf_visitState]
  simp only [visitStates, EntityState.visit, map_eq_pure_bind, bind_assoc, pure_bind, states,
    List.mapM_cons, List.mapM_nil]

/-- The states of checks that may be missing. -/
def Checks.statesIn (c : Option Checks) : List EntityState := (c.map states).getD []

theorem Checks.statesIn_visitStates (c : Option Checks) :
    statesIn <$> c.mapM (visitStates visit) = (statesIn c).mapM (EntityState.visit visit) := by
  cases c with
  | none => simp [statesIn]
  | some c =>
    refine Eq.trans ?_ c.states_visitStates
    simp [statesIn]

theorem Slots.flatten_statesIn (checks : List (Option Checks)) :
    (checks.map Checks.statesIn).flatten = ((checks.filterMap id).map Checks.states).flatten := by
  induction checks with
  | nil => rfl
  | cons c rest inductionHypothesis =>
    cases c with
    | none => simpa [Checks.statesIn] using inductionHypothesis
    | some c => simpa [Checks.statesIn] using inductionHypothesis

theorem Slots.toList_visitStates (slots : Slots (Option Checks)) :
    toList <$> slots.visitStates visit =
      slots.toList.mapM fun c => c.mapM (Checks.visitStates visit) := by
  simp only [visitStates, toList, map_eq_pure_bind, bind_assoc, pure_bind, List.mapM_cons,
    List.mapM_nil]

theorem Slots.states_visitStates (slots : Slots (Option Checks)) :
    (fun visited => (visited.present.map Checks.states).flatten) <$> slots.visitStates visit =
      (slots.present.map Checks.states).flatten.mapM (EntityState.visit visit) := by
  simp only [present, ← flatten_statesIn]
  rw [← EntityState.flatten_visit Checks.statesIn_visitStates, ← toList_visitStates, ← comp_map]
  rfl

theorem Block.states_visitStates (b : Block) :
    states <$> b.visitStates visit = b.states.mapM (EntityState.visit visit) := by
  rw [states, List.mapM_append, List.mapM_append, ← Slots.states_visitStates,
    ← EntityState.flatten_visit Sequence.states_visitStates]
  simp only [visitStates, EntityState.visit, map_eq_pure_bind, bind_assoc, pure_bind, states,
    List.mapM_cons, List.mapM_nil]

/-- A visit of a plan calls the visitor with one of its states after the other and leaves what it
answers in their places. -/
theorem Plan.states_visitStates (p : Plan) :
    states <$> p.visitStates visit = p.states.mapM (EntityState.visit visit) := by
  rw [states, List.mapM_append, List.mapM_append, ← Slots.states_visitStates,
    ← EntityState.flatten_visit Block.states_visitStates]
  simp only [visitStates, EntityState.visit, map_eq_pure_bind, bind_assoc, pure_bind, states,
    List.mapM_cons, List.mapM_nil]

/-! ## Visitors without effects -/

/-- A visitor that answers with a function of what it is shown. -/
def StateChange.visitor (f : StateChange) : Visitor m := fun kind id state => pure (f kind id state)

theorem Action.visitState_pure (f : StateChange) (x : Action) :
    x.visitState (m := m) f.visitor = pure (x.mapState f) := by
  simp [visitState, StateChange.visitor, mapState]

theorem Checks.visitStates_pure (f : StateChange) (c : Checks) :
    c.visitStates (m := m) f.visitor = pure (c.mapStates f) := by
  have each : Action.visitState (m := m) f.visitor = fun x => pure (x.mapState f) :=
    funext (Action.visitState_pure f)
  simp [visitStates, each, StateChange.visitor, mapStates]

theorem Sequence.visitStates_pure (f : StateChange) (q : Sequence) :
    q.visitStates (m := m) f.visitor = pure (q.mapStates f) := by
  have each : Action.visitState (m := m) f.visitor = fun x => pure (x.mapState f) :=
    funext (Action.visitState_pure f)
  simp [visitStates, each, StateChange.visitor, mapStates]

theorem Slots.visitStates_pure (f : StateChange) (slots : Slots (Option Checks)) :
    slots.visitStates (m := m) f.visitor = pure (slots.map (Option.map (Checks.mapStates f))) := by
  have each : ∀ c : Option Checks,
      c.mapM (Checks.visitStates (m := m) f.visitor) = pure (c.map (Checks.mapStates f)) := by
    intro c
    cases c with
    | none => simp
    | some c => simp [Checks.visitStates_pure]
  simp [visitStates, each, map]

theorem Block.visitStates_pure (f : StateChange) (b : Block) :
    b.visitStates (m := m) f.visitor = pure (b.mapStates f) := by
  have each : Sequence.visitStates (m := m) f.visitor = fun q => pure (q.mapStates f) :=
    funext (Sequence.visitStates_pure f)
  simp [visitStates, each, Slots.visitStates_pure, StateChange.visitor, mapStates]

/-- Replacing the states of a plan is the visit of a visitor without effects. -/
theorem Plan.visitStates_pure (f : StateChange) (p : Plan) :
    p.visitStates (m := m) f.visitor = pure (p.mapStates f) := by
  have each : Block.visitStates (m := m) f.visitor = fun b => pure (b.mapStates f) :=
    funext (Block.visitStates_pure f)
  simp [visitStates, each, Slots.visitStates_pure, StateChange.visitor, mapStates]

/-! ## Calls of a visitor with a memory -/

section

variable {μ : Type}

/-- A visitor with a memory whose calls are recorded in front of it. -/
def Visitor.recorded (visit : Visitor (StateM μ)) : Visitor (StateM (List EntityRef × μ)) :=
  fun kind id state (calls, memory) =>
    let (state, memory) := (visit kind id state).run memory
    (state, calls ++ [(kind, id)], memory)

theorem EntityState.calls_mapM_visit (visit : Visitor (StateM μ)) (states : List EntityState)
    (calls : List EntityRef) (memory : μ) :
    ((states.mapM (EntityState.visit visit.recorded)).run (calls, memory)).2.1 =
      calls ++ states.map entity := by
  induction states generalizing calls memory with
  | nil =>
    rw [List.map_nil, List.append_nil]
    rfl
  | cons x rest inductionHypothesis =>
    rw [List.mapM_cons, List.map_cons, ← List.singleton_append, ← List.append_assoc]
    exact inductionHypothesis (calls ++ [x.entity]) ((visit x.kind x.id x.state).run memory).2

/-- Whatever a visitor does, it is called with the entities of the plan, one after the other. -/
theorem Plan.calls_visitStates (visit : Visitor (StateM μ)) (p : Plan) (calls : List EntityRef)
    (memory : μ) :
    ((p.visitStates visit.recorded).run (calls, memory)).2.1 = calls ++ p.entities := by
  have alongList : states <$> p.visitStates visit.recorded =
      p.states.mapM (EntityState.visit visit.recorded) := p.states_visitStates
  have walked := congrArg (fun walk => (StateT.run walk (calls, memory)).2.1) alongList
  rw [← map_entity_states]
  exact walked.trans (EntityState.calls_mapM_visit visit p.states calls memory)

end

end PlanArchive
