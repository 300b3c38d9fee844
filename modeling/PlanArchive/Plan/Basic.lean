import PlanArchive.Uuid
import PlanArchive.Version
import PlanArchive.Payload
import PlanArchive.Plan.Status
import PlanArchive.Time.Span

/-!
# Plans

A plan is a tree of five kinds of entity. The plan has optional checks in five slots and an ordered
list of blocks; a block has checks of its own and an ordered list of sequences; checks and
sequences have ordered lists of actions. Every entity has an identifier and a state, and the state
holds the version token of the revision it was read or written as.

An empty slot and checks without actions are two different things.
-/

namespace PlanArchive

/-- The kinds of entity in a plan. -/
inductive EntityKind where
  | plan | block | checks | sequence | action
deriving DecidableEq, Repr

namespace EntityKind

/-- Every kind. -/
def all : List EntityKind := [.plan, .block, .checks, .sequence, .action]

/-- The word for a kind. -/
def name : EntityKind → String
  | .plan => "plan"
  | .block => "block"
  | .checks => "checks"
  | .sequence => "sequence"
  | .action => "action"

/-- The kind of a word. -/
def ofName? (name : String) : Option EntityKind := all.find? fun k => k.name == name

end EntityKind

/-- The life-cycle state of an entity. -/
structure State where
  status : Status
  start : Option Instant
  finish : Option Instant
  /-- The revision that this state was read or written as. -/
  token : Option VersionToken
deriving DecidableEq, Repr

namespace State

/-- The state of an entity that nothing has happened to. -/
def initial : State := ⟨.notStarted, none, none, none⟩

instance : Inhabited State := ⟨initial⟩

end State

/-- The places in which a plan or a block can have checks. -/
inductive Slot where
  | bypass | pre | post | cont | deferred
deriving DecidableEq, Repr

namespace Slot

/-- Every slot, in the order in which checks are committed and resolved. -/
def all : List Slot := [.bypass, .pre, .post, .cont, .deferred]

/-- The word for a slot. -/
def name : Slot → String
  | .bypass => "bypass"
  | .pre => "pre"
  | .post => "post"
  | .cont => "cont"
  | .deferred => "deferred"

/-- The slot of a word. -/
def ofName? (name : String) : Option Slot := all.find? fun s => s.name == name

end Slot

/-- One value for each slot. -/
structure Slots (α : Type) where
  bypass : α
  pre : α
  post : α
  cont : α
  deferred : α
deriving DecidableEq, Repr

namespace Slots

/-- The same value in every slot. -/
def fill {α : Type} (value : α) : Slots α := ⟨value, value, value, value, value⟩

/-- The value in a slot. -/
def get {α : Type} (slots : Slots α) : Slot → α
  | .bypass => slots.bypass
  | .pre => slots.pre
  | .post => slots.post
  | .cont => slots.cont
  | .deferred => slots.deferred

/-- The slots with the value of one replaced. -/
def set {α : Type} (slots : Slots α) (slot : Slot) (value : α) : Slots α :=
  match slot with
  | .bypass => { slots with bypass := value }
  | .pre => { slots with pre := value }
  | .post => { slots with post := value }
  | .cont => { slots with cont := value }
  | .deferred => { slots with deferred := value }

/-- Applies a function to every value. -/
def map {α β : Type} (f : α → β) (slots : Slots α) : Slots β :=
  ⟨f slots.bypass, f slots.pre, f slots.post, f slots.cont, f slots.deferred⟩

/-- Applies a function that can fail to every value, slot by slot. -/
def mapM {α β ε : Type} (f : Slot → α → Except ε β) (slots : Slots α) : Except ε (Slots β) := do
  let bypass ← f .bypass slots.bypass
  let pre ← f .pre slots.pre
  let post ← f .post slots.post
  let cont ← f .cont slots.cont
  let deferred ← f .deferred slots.deferred
  return ⟨bypass, pre, post, cont, deferred⟩

/-- The values in the order of the slots. -/
def toList {α : Type} (slots : Slots α) : List α :=
  [slots.bypass, slots.pre, slots.post, slots.cont, slots.deferred]

/-- The values with their slots, in order. -/
def entries {α : Type} (slots : Slots α) : List (Slot × α) :=
  Slot.all.map fun slot => (slot, slots.get slot)

/-- The values that are present, in the order of the slots. -/
def present {α : Type} (slots : Slots (Option α)) : List α := slots.toList.filterMap id

theorem present_map {α β : Type} (g : α → β) (slots : Slots (Option α)) :
    (slots.map (Option.map g)).present = slots.present.map g := by
  have toList : (slots.map (Option.map g)).toList = slots.toList.map (Option.map g) := rfl
  rw [present, present, toList, List.filterMap_map, List.map_filterMap]
  rfl

end Slots

/-- The failure that an attempt ended with. -/
structure AttemptError where
  code : Int64
  message : String
  /-- Retrying cannot help. -/
  permanent : Bool
deriving DecidableEq, Repr

namespace AttemptError

/-- The failure as a user sees it. -/
def toText (e : AttemptError) : String :=
  "code " ++ toString e.code.toInt ++ ": " ++ e.message ++
    (if e.permanent then " (permanent)" else "")

end AttemptError

/-- One execution of an action. -/
structure Attempt where
  response : Option Payload
  error : Option AttemptError
  start : Option Instant
  finish : Option Instant
deriving DecidableEq

/-- One call of a plugin. -/
structure Action where
  id : Uuid
  /-- A correlation key of the caller's. -/
  key : Option Uuid
  name : String
  descr : String
  /-- The name of the plugin that runs the action and decodes its payloads. -/
  plugin : String
  timeout : Span
  retries : UInt32
  request : Option Payload
  /-- The executions so far, oldest first. -/
  attempts : List Attempt
  state : State
deriving DecidableEq

/-- A group of actions that gate or monitor a plan or a block. -/
structure Checks where
  id : Uuid
  key : Option Uuid
  /-- How long to wait before the checks run. -/
  delay : Span
  actions : List Action
  state : State
deriving DecidableEq

/-- Actions that run one after another. -/
structure Sequence where
  id : Uuid
  key : Option Uuid
  name : String
  descr : String
  actions : List Action
  state : State
deriving DecidableEq

/-- A unit of work: sequences that run with bounded concurrency. -/
structure Block where
  id : Uuid
  key : Option Uuid
  name : String
  descr : String
  entranceDelay : Span
  exitDelay : Span
  concurrency : UInt32
  toleratedFailures : Int32
  checks : Slots (Option Checks)
  sequences : List Sequence
  state : State
deriving DecidableEq

/-- The root of a workflow. -/
structure Plan where
  id : Uuid
  groupId : Option Uuid
  name : String
  descr : String
  /-- Bytes that only the caller understands. -/
  metadata : List UInt8
  checks : Slots (Option Checks)
  blocks : List Block
  state : State
  submitTime : Option Instant
  reason : FailureReason
deriving DecidableEq

end PlanArchive
