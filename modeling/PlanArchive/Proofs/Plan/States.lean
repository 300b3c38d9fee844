import PlanArchive.Plan.Entities

/-!
# Replaced states

Replacing the states of a plan twice is replacing them once (`Plan.mapStates_mapStates`), and it
matters only what happens to the states of the entities that the plan has (`Plan.mapStates_congr`).
The list of the states has one for every entity, in the same order (`Plan.map_entity_states`), and
replacing the states replaces those in the list (`Plan.states_mapStates`).
-/

namespace PlanArchive

variable {f g : StateChange}

/-! ## Two changes -/

theorem Action.map_mapState_mapState (f g : StateChange) (actions : List Action) :
    (actions.map (mapState f)).map (mapState g) =
      actions.map (mapState fun kind id state => g kind id (f kind id state)) := by
  rw [List.map_map]
  rfl

theorem Checks.mapStates_mapStates (f g : StateChange) (c : Checks) :
    (c.mapStates f).mapStates g = c.mapStates fun kind id state => g kind id (f kind id state) := by
  simp only [mapStates, Action.map_mapState_mapState]

theorem Sequence.mapStates_mapStates (f g : StateChange) (q : Sequence) :
    (q.mapStates f).mapStates g = q.mapStates fun kind id state => g kind id (f kind id state) := by
  simp only [mapStates, Action.map_mapState_mapState]

theorem Slots.mapStates_mapStates (f g : StateChange) (slots : Slots (Option Checks)) :
    (slots.map (Option.map (Checks.mapStates f))).map (Option.map (Checks.mapStates g)) =
      slots.map (Option.map
        (Checks.mapStates fun kind id state => g kind id (f kind id state))) := by
  have each : ∀ c : Option Checks, (c.map (Checks.mapStates f)).map (Checks.mapStates g) =
      c.map (Checks.mapStates fun kind id state => g kind id (f kind id state)) := by
    intro c
    cases c with
    | none => rfl
    | some c => simp [Checks.mapStates_mapStates]
  simp only [map, each]

theorem Block.mapStates_mapStates (f g : StateChange) (b : Block) :
    (b.mapStates f).mapStates g = b.mapStates fun kind id state => g kind id (f kind id state) := by
  have sequences : (b.sequences.map (Sequence.mapStates f)).map (Sequence.mapStates g) =
      b.sequences.map (Sequence.mapStates fun kind id state => g kind id (f kind id state)) := by
    rw [List.map_map]
    exact List.map_congr_left fun q _ => Sequence.mapStates_mapStates f g q
  simp only [mapStates, Slots.mapStates_mapStates, sequences]

/-- Of two changes the second is made to what the first comes to. -/
theorem Plan.mapStates_mapStates (f g : StateChange) (p : Plan) :
    (p.mapStates f).mapStates g = p.mapStates fun kind id state => g kind id (f kind id state) := by
  have blocks : (p.blocks.map (Block.mapStates f)).map (Block.mapStates g) =
      p.blocks.map (Block.mapStates fun kind id state => g kind id (f kind id state)) := by
    rw [List.map_map]
    exact List.map_congr_left fun b _ => Block.mapStates_mapStates f g b
  simp only [mapStates, Slots.mapStates_mapStates, blocks]

/-! ## No change -/

theorem Action.map_mapState_id (actions : List Action) :
    actions.map (mapState fun _ _ state => state) = actions :=
  List.map_id actions

theorem Checks.mapStates_id (c : Checks) : c.mapStates (fun _ _ state => state) = c := by
  rw [mapStates, Action.map_mapState_id]

theorem Sequence.mapStates_id (q : Sequence) : q.mapStates (fun _ _ state => state) = q := by
  rw [mapStates, Action.map_mapState_id]

theorem Slots.mapStates_id (slots : Slots (Option Checks)) :
    slots.map (Option.map (Checks.mapStates fun _ _ state => state)) = slots := by
  have same : (Checks.mapStates fun _ _ state => state) = id := funext Checks.mapStates_id
  simp [same, map]

theorem Block.mapStates_id (b : Block) : b.mapStates (fun _ _ state => state) = b := by
  have sequences : b.sequences.map (Sequence.mapStates fun _ _ state => state) = b.sequences := by
    rw [funext Sequence.mapStates_id, List.map_id']
  rw [mapStates, Slots.mapStates_id, sequences]

/-- Replacing each state by itself changes nothing. -/
theorem Plan.mapStates_id (p : Plan) : p.mapStates (fun _ _ state => state) = p := by
  have blocks : p.blocks.map (Block.mapStates fun _ _ state => state) = p.blocks := by
    rw [funext Block.mapStates_id, List.map_id']
  rw [mapStates, Slots.mapStates_id, blocks]

/-! ## Equal changes -/

/-- Two changes that do the same to the states of some entities. -/
def AgreeOn (f g : StateChange) (entities : List EntityRef) : Prop :=
  ∀ e ∈ entities, f e.1 e.2 = g e.1 e.2

theorem AgreeOn.left {entities others : List EntityRef} (agree : AgreeOn f g (entities ++ others)) :
    AgreeOn f g entities :=
  fun e member => agree e (List.mem_append_left _ member)

theorem AgreeOn.right {entities others : List EntityRef}
    (agree : AgreeOn f g (others ++ entities)) : AgreeOn f g entities :=
  fun e member => agree e (List.mem_append_right _ member)

theorem AgreeOn.of_flatMap {α : Type} {items : List α} {entities : α → List EntityRef}
    (agree : AgreeOn f g (items.flatMap entities)) {x : α} (member : x ∈ items) :
    AgreeOn f g (entities x) :=
  fun e below => agree e (List.mem_flatMap.mpr ⟨x, member, below⟩)

theorem Action.map_mapState_congr {actions : List Action}
    (agree : AgreeOn f g (entitiesOf actions)) :
    actions.map (mapState f) = actions.map (mapState g) := by
  apply List.map_congr_left
  intro x member
  rw [mapState, mapState, agree _ (List.mem_map.mpr ⟨x, member, rfl⟩)]

theorem Checks.mapStates_congr {c : Checks} (agree : AgreeOn f g c.entities) :
    c.mapStates f = c.mapStates g := by
  rw [mapStates, mapStates, Action.map_mapState_congr agree.left,
    agree.right _ List.mem_cons_self]

theorem Sequence.mapStates_congr {q : Sequence} (agree : AgreeOn f g q.entities) :
    q.mapStates f = q.mapStates g := by
  rw [mapStates, mapStates, Action.map_mapState_congr agree.left,
    agree.right _ List.mem_cons_self]

theorem Slots.mapStates_congr {slots : Slots (Option Checks)}
    (agree : AgreeOn f g (slots.present.flatMap Checks.entities)) :
    slots.map (Option.map (Checks.mapStates f)) = slots.map (Option.map (Checks.mapStates g)) := by
  have each : ∀ c ∈ slots.toList,
      c.map (Checks.mapStates f) = c.map (Checks.mapStates g) := by
    intro c member
    cases c with
    | none => rfl
    | some c =>
      have present : c ∈ slots.present := by simpa [Slots.present] using member
      rw [Option.map_some, Option.map_some, Checks.mapStates_congr (agree.of_flatMap present)]
  simp only [toList, List.forall_mem_cons] at each
  obtain ⟨bypass, pre, post, cont, deferred, -⟩ := each
  simp only [map, bypass, pre, post, cont, deferred]

theorem Block.mapStates_congr {b : Block} (agree : AgreeOn f g b.entities) :
    b.mapStates f = b.mapStates g := by
  have sequences : b.sequences.map (Sequence.mapStates f) =
      b.sequences.map (Sequence.mapStates g) :=
    List.map_congr_left fun _ member =>
      Sequence.mapStates_congr (agree.left.right.of_flatMap member)
  rw [mapStates, mapStates, Slots.mapStates_congr agree.left.left, sequences,
    agree.right _ List.mem_cons_self]

/-- Changes that agree on the entities of a plan make the same plan of it. -/
theorem Plan.mapStates_congr {p : Plan} (agree : AgreeOn f g p.entities) :
    p.mapStates f = p.mapStates g := by
  have blocks : p.blocks.map (Block.mapStates f) = p.blocks.map (Block.mapStates g) :=
    List.map_congr_left fun _ member => Block.mapStates_congr (agree.left.right.of_flatMap member)
  rw [mapStates, mapStates, Slots.mapStates_congr agree.left.left, blocks,
    agree.right _ List.mem_cons_self]

/-! ## Lists of states -/

/-- The entity with its state changed. -/
def EntityState.change (f : StateChange) (x : EntityState) : EntityState :=
  { x with state := f x.kind x.id x.state }

theorem Action.map_entity_statesOf (actions : List Action) :
    (statesOf actions).map EntityState.entity = entitiesOf actions := by
  induction actions with
  | nil => rfl
  | cons x rest inductionHypothesis =>
    rw [statesOf, List.map_cons, inductionHypothesis]
    rfl

theorem Checks.map_entity_states (c : Checks) :
    c.states.map EntityState.entity = c.entities := by
  rw [states, List.map_append, Action.map_entity_statesOf]
  rfl

theorem Sequence.map_entity_states (q : Sequence) :
    q.states.map EntityState.entity = q.entities := by
  rw [states, List.map_append, Action.map_entity_statesOf]
  rfl

/-- States that are listed item by item are those of entities listed in the same way. -/
theorem EntityState.map_entity_flatten {α : Type} {statesOf : α → List EntityState}
    {entitiesOf : α → List EntityRef} (each : ∀ x, (statesOf x).map entity = entitiesOf x)
    (items : List α) : (items.map statesOf).flatten.map entity = items.flatMap entitiesOf := by
  rw [List.map_flatten, List.map_map, List.flatMap_def]
  exact congrArg List.flatten (List.map_congr_left fun x _ => each x)

theorem Block.map_entity_states (b : Block) : b.states.map EntityState.entity = b.entities := by
  rw [states, List.map_append, List.map_append,
    EntityState.map_entity_flatten Checks.map_entity_states,
    EntityState.map_entity_flatten Sequence.map_entity_states]
  rfl

/-- The states of a plan are those of its entities, in order. -/
theorem Plan.map_entity_states (p : Plan) : p.states.map EntityState.entity = p.entities := by
  rw [states, List.map_append, List.map_append,
    EntityState.map_entity_flatten Checks.map_entity_states,
    EntityState.map_entity_flatten Block.map_entity_states]
  rfl

theorem Action.statesOf_map (f : StateChange) (actions : List Action) :
    statesOf (actions.map (mapState f)) = (statesOf actions).map (EntityState.change f) := by
  induction actions with
  | nil => rfl
  | cons x rest inductionHypothesis =>
    rw [List.map_cons, statesOf, statesOf, List.map_cons, inductionHypothesis]
    rfl

theorem Checks.states_mapStates (f : StateChange) (c : Checks) :
    (c.mapStates f).states = c.states.map (EntityState.change f) := by
  rw [states, states, List.map_append, ← Action.statesOf_map]
  rfl

theorem Sequence.states_mapStates (f : StateChange) (q : Sequence) :
    (q.mapStates f).states = q.states.map (EntityState.change f) := by
  rw [states, states, List.map_append, ← Action.statesOf_map]
  rfl

/-- Replacing the states of items replaces those in the list of all states. -/
theorem EntityState.flatten_change {α : Type} {f : StateChange} {changed : α → α}
    {statesOf : α → List EntityState}
    (each : ∀ x, statesOf (changed x) = (statesOf x).map (change f)) (items : List α) :
    ((items.map changed).map statesOf).flatten =
      (items.map statesOf).flatten.map (change f) := by
  rw [List.map_flatten, List.map_map, List.map_map]
  exact congrArg List.flatten (List.map_congr_left fun x _ => each x)

theorem Block.states_mapStates (f : StateChange) (b : Block) :
    (b.mapStates f).states = b.states.map (EntityState.change f) := by
  rw [states, states, mapStates, Slots.present_map, List.map_append, List.map_append,
    EntityState.flatten_change (Checks.states_mapStates f),
    EntityState.flatten_change (Sequence.states_mapStates f)]
  rfl

/-- Replacing the states of a plan replaces those in the list of its states. -/
theorem Plan.states_mapStates (f : StateChange) (p : Plan) :
    (p.mapStates f).states = p.states.map (EntityState.change f) := by
  rw [states, states, mapStates, Slots.present_map, List.map_append, List.map_append,
    EntityState.flatten_change (Checks.states_mapStates f),
    EntityState.flatten_change (Block.states_mapStates f)]
  rfl

/-- Replacing states does not change which entities there are. -/
theorem Plan.entities_mapStates (f : StateChange) (p : Plan) :
    (p.mapStates f).entities = p.entities := by
  rw [← map_entity_states, ← map_entity_states, states_mapStates, List.map_map]
  rfl

end PlanArchive
