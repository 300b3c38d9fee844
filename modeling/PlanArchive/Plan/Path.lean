import PlanArchive.Plan.Basic

/-!
# Entities inside a plan

A path leads from a plan to one of its entities: the empty path to the plan itself, and every step
to checks in a slot, or to a block, sequence or action by its index. `Plan.focus?` gives the entity
at a path together with the plan that has another entity in its place.
-/

namespace PlanArchive

/-- An entity of any kind. -/
inductive Entity where
  | plan (p : Plan)
  | block (b : Block)
  | checks (c : Checks)
  | sequence (s : Sequence)
  | action (a : Action)
deriving DecidableEq

namespace Entity

/-- The kind of an entity. -/
def kind : Entity → EntityKind
  | .plan _ => .plan
  | .block _ => .block
  | .checks _ => .checks
  | .sequence _ => .sequence
  | .action _ => .action

/-- The identifier of an entity. -/
def id : Entity → Uuid
  | .plan p => p.id
  | .block b => b.id
  | .checks c => c.id
  | .sequence s => s.id
  | .action a => a.id

/-- The state of an entity. -/
def state : Entity → State
  | .plan p => p.state
  | .block b => b.state
  | .checks c => c.state
  | .sequence s => s.state
  | .action a => a.state

/-- The entity with another state. -/
def withState (state : State) : Entity → Entity
  | .plan p => .plan { p with state := state }
  | .block b => .block { b with state := state }
  | .checks c => .checks { c with state := state }
  | .sequence s => .sequence { s with state := state }
  | .action a => .action { a with state := state }

/-- The entity with another identifier. -/
def withId (id : Uuid) : Entity → Entity
  | .plan p => .plan { p with id := id }
  | .block b => .block { b with id := id }
  | .checks c => .checks { c with id := id }
  | .sequence s => .sequence { s with id := id }
  | .action a => .action { a with id := id }

end Entity

/-- One step of a path. -/
inductive PathStep where
  | checks (slot : Slot)
  | block (index : Nat)
  | sequence (index : Nat)
  | action (index : Nat)
deriving DecidableEq

namespace PathStep

/-- Reads the words of a path two at a time. -/
def ofWords? : List String → Option (List PathStep)
  | [] => some []
  | word :: place :: rest => do
    let step ← match word with
      | "checks" => (Slot.ofName? place).map .checks
      | "blocks" => place.toNat?.map .block
      | "sequences" => place.toNat?.map .sequence
      | "actions" => place.toNat?.map .action
      | _ => none
    return step :: (← ofWords? rest)
  | [_] => none

/-- Reads a path whose words are joined by points. -/
def parse? (text : String) : Option (List PathStep) :=
  if text.isEmpty then some [] else ofWords? (text.splitOn ".")

end PathStep

/-- An entity inside a value, and the value with another entity in its place. -/
structure Focus (α : Type) where
  entity : Entity
  put : Entity → α

namespace Focus

/-- The focus inside a larger value. -/
def map {α β : Type} (f : α → β) (focus : Focus α) : Focus β :=
  ⟨focus.entity, fun e => f (focus.put e)⟩

/-- The focus inside an item of a list. -/
def inList? {α : Type} (items : List α) (index : Nat) (inItem : α → Option (Focus α)) :
    Option (Focus (List α)) := do
  let item ← items[index]?
  return (← inItem item).map fun item => items.set index item

end Focus

namespace Action

/-- An action of a list. -/
def focusIn? (actions : List Action) : List PathStep → Option (Focus (List Action))
  | [.action index] => Focus.inList? actions index fun a =>
    some ⟨.action a, fun | .action a => a | _ => a⟩
  | _ => none

end Action

namespace Checks

/-- The checks themselves or one of their actions. -/
def focus? (c : Checks) : List PathStep → Option (Focus Checks)
  | [] => some ⟨.checks c, fun | .checks c => c | _ => c⟩
  | path => (Action.focusIn? c.actions path).map (Focus.map fun actions =>
    { c with actions := actions })

/-- Checks in a slot, or one of their actions. -/
def focusIn? (slots : Slots (Option Checks)) (slot : Slot) (path : List PathStep) :
    Option (Focus (Slots (Option Checks))) := do
  let c ← slots.get slot
  return (← c.focus? path).map fun c => slots.set slot (some c)

end Checks

namespace Sequence

/-- The sequence itself or one of its actions. -/
def focus? (s : Sequence) : List PathStep → Option (Focus Sequence)
  | [] => some ⟨.sequence s, fun | .sequence s => s | _ => s⟩
  | path => (Action.focusIn? s.actions path).map (Focus.map fun actions =>
    { s with actions := actions })

end Sequence

namespace Block

/-- The block itself or an entity below it. -/
def focus? (b : Block) : List PathStep → Option (Focus Block)
  | [] => some ⟨.block b, fun | .block b => b | _ => b⟩
  | .checks slot :: path => (Checks.focusIn? b.checks slot path).map (Focus.map fun checks =>
    { b with checks := checks })
  | .sequence index :: path =>
    (Focus.inList? b.sequences index fun s => s.focus? path).map (Focus.map fun sequences =>
      { b with sequences := sequences })
  | _ => none

end Block

namespace Plan

/-- The plan itself or an entity below it. -/
def focus? (p : Plan) : List PathStep → Option (Focus Plan)
  | [] => some ⟨.plan p, fun | .plan p => p | _ => p⟩
  | .checks slot :: path => (Checks.focusIn? p.checks slot path).map (Focus.map fun checks =>
    { p with checks := checks })
  | .block index :: path =>
    (Focus.inList? p.blocks index fun b => b.focus? path).map (Focus.map fun blocks =>
      { p with blocks := blocks })
  | _ => none

end Plan

end PlanArchive
