import PlanArchive.Archive.Basic
import PlanArchive.Plan.Entities
import PlanArchive.Store.Contents
import PlanArchive.Proofs.Document.Layout

/-!
# Stored trees

A document refers to the documents of the children of its entity. `Below` says which entities are
reached from one entity over such references, in the contents of a store as they are; a missing
document ends the way. `CompleteTree` says that a stored plan has all below it: every document that
is reached is there, carries its own identifier and names the plan, and none is referred to twice.

`LaidOut` is the form in which the archive leaves its partition: every document is one that the
archive laid out for the entity of its place. Only writes by other programs can break it.
-/

namespace PlanArchive

/-- Each kind of entity has a collection of its own. -/
theorem EntityKind.collection_injective {first second : EntityKind}
    (same : first.collection = second.collection) : first = second := by
  cases first <;> cases second <;> first | rfl | cases same

theorem EntityKind.collection_eq_plans {kind : EntityKind} :
    kind.collection = .plans ↔ kind = .plan :=
  ⟨@collection_injective kind .plan, congrArg collection⟩

/-- How far above the actions the entities of a kind stand. -/
def EntityKind.level : EntityKind → Nat
  | .plan => 3
  | .block => 2
  | .checks => 1
  | .sequence => 1
  | .action => 0

/-! ## Documents of any kind -/

/-- A document of any kind. -/
inductive Document where
  | plan (d : PlanDocument)
  | block (d : BlockDocument)
  | checks (d : ChecksDocument)
  | sequence (d : SequenceDocument)
  | action (d : ActionDocument)

/-- What a document says about its place in a tree. -/
structure Node where
  id : Uuid
  /-- The plan that the document belongs to; that of a plan belongs to itself. -/
  owner : Uuid
  /-- The entities that the document refers to, in order. -/
  children : List EntityRef
deriving DecidableEq, Repr

/-- The checks that are referred to; none when a reference is no identifier. -/
def CheckRefs.ids (refs : CheckRefs) : List Uuid :=
  match decode refs with
  | .ok ids => ids.present
  | .error _ => []

namespace Document

/-- The kind of entity that a document is about. -/
def kind : Document → EntityKind
  | .plan _ => .plan
  | .block _ => .block
  | .checks _ => .checks
  | .sequence _ => .sequence
  | .action _ => .action

/-- The references to checks in slots. -/
def refs : Document → CheckRefs
  | .plan d => d.checks
  | .block d => d.checks
  | .checks _ => .fill ""
  | .sequence _ => .fill ""
  | .action _ => .fill ""

/-- The place of a document in a tree. -/
def node : Document → Node
  | .plan d =>
    ⟨d.id, d.id, (CheckRefs.ids d.checks).map (.checks, ·) ++ d.blocks.map (.block, ·)⟩
  | .block d =>
    ⟨d.id, d.planId, (CheckRefs.ids d.checks).map (.checks, ·) ++ d.sequences.map (.sequence, ·)⟩
  | .checks d => ⟨d.id, d.planId, d.actions.map (.action, ·)⟩
  | .sequence d => ⟨d.id, d.planId, d.actions.map (.action, ·)⟩
  | .action d => ⟨d.id, d.planId, []⟩

/-- The entity that a document is about. -/
def entity (d : Document) : EntityRef := (d.kind, d.node.id)

/-- The document as a JSON value. -/
def toJson : Document → Json
  | .plan d => d.toJson
  | .block d => d.toJson
  | .checks d => d.toJson
  | .sequence d => d.toJson
  | .action d => d.toJson

/-- The document of a kind that a JSON value is. -/
def ofJson? (kind : EntityKind) (v : Json) : Option Document :=
  match kind with
  | .plan => (PlanDocument.ofJson? v).map .plan
  | .block => (BlockDocument.ofJson? v).map .block
  | .checks => (ChecksDocument.ofJson? v).map .checks
  | .sequence => (SequenceDocument.ofJson? v).map .sequence
  | .action => (ActionDocument.ofJson? v).map .action

/-- Every document but that of a plan has its own identifier and that of its plan in fields of the
same names. -/
theorem child_fields (d : Document) (isChild : d.kind ≠ .plan) :
    Field.id? d.toJson Field.id = some d.node.id ∧
      Field.text? d.toJson Field.planId = some d.node.owner.toText := by
  cases d with
  | plan d => exact absurd rfl isChild
  | block d => exact ⟨Field.id?_of rfl, Field.text?_of rfl⟩
  | checks d => exact ⟨Field.id?_of rfl, Field.text?_of rfl⟩
  | sequence d => exact ⟨Field.id?_of rfl, Field.text?_of rfl⟩
  | action d => exact ⟨Field.id?_of rfl, Field.text?_of rfl⟩

/-- A document refers to entities of lower levels only. -/
theorem level_lt_of_mem_children {d : Document} {child : EntityRef}
    (refers : child ∈ d.node.children) : child.1.level < d.kind.level := by
  cases d <;> simp only [node, List.mem_append, List.mem_map, List.not_mem_nil] at refers
  case plan => rcases refers with ⟨_, _, rfl⟩ | ⟨_, _, rfl⟩ <;> simp [EntityKind.level, kind]
  case block => rcases refers with ⟨_, _, rfl⟩ | ⟨_, _, rfl⟩ <;> simp [EntityKind.level, kind]
  case checks =>
    obtain ⟨_, _, rfl⟩ := refers
    simp [EntityKind.level, kind]
  case sequence =>
    obtain ⟨_, _, rfl⟩ := refers
    simp [EntityKind.level, kind]

@[simp] theorem ofJson?_toJson (d : Document) : ofJson? d.kind d.toJson = some d := by
  cases d <;> simp [ofJson?, kind, toJson]

theorem exists_of_bind {α β : Type} {first : Option α} {next : α → Option β} {b : β}
    (made : first >>= next = some b) : ∃ a, first = some a ∧ next a = some b :=
  Option.bind_eq_some_iff.mp made

/-- What is parsed as a document of a kind is one, and has its identifier from its own field. -/
theorem fields_of_ofJson? {kind : EntityKind} {v : Json} {d : Document}
    (parsed : ofJson? kind v = some d) :
    d.kind = kind ∧ Field.id? v Field.id = some d.node.id := by
  cases kind <;>
    obtain ⟨fields, read, rfl⟩ := Option.map_eq_some_iff.mp parsed <;>
    refine ⟨rfl, ?_⟩ <;>
    -- One read after the other, each with its result; the identifier is among them.
    repeat obtain ⟨_, _, read⟩ := exists_of_bind read
  all_goals
    cases read
    assumption

end Document

namespace Archive

variable {a : Archive} {c d : Contents} {root e : EntityRef} {n : Node} {id : Uuid}

/-- The document that is stored for an entity. -/
def document? (a : Archive) (c : Contents) (e : EntityRef) : Option Document :=
  (c.find? (a.key e.1 e.2)).bind fun item => Document.ofJson? e.1 item.doc

/-- What the document that is stored for an entity says about its place. -/
def node? (a : Archive) (c : Contents) (e : EntityRef) : Option Node :=
  (a.document? c e).map Document.node

/-- The entities that are reached from one over the references of stored documents. -/
inductive Below (a : Archive) (c : Contents) (root : EntityRef) : EntityRef → Prop
  | root : Below a c root root
  | child {parent child : EntityRef} {n : Node} (above : Below a c root parent)
      (stored : a.node? c parent = some n) (refers : child ∈ n.children) : Below a c root child

/-- The tree of a plan is stored completely. -/
structure CompleteTree (a : Archive) (c : Contents) (id : Uuid) : Prop where
  /-- Every document of the tree is there, under its own identifier, and names the plan. -/
  present : ∀ e, a.Below c (.plan, id) e → ∃ n, a.node? c e = some n ∧ n.id = e.2 ∧ n.owner = id
  /-- No document refers to another one twice. -/
  distinct : ∀ e n, a.Below c (.plan, id) e → a.node? c e = some n → n.children.Nodup
  /-- No two documents of the tree refer to the same one. -/
  single : ∀ e f m n child, a.Below c (.plan, id) e → a.Below c (.plan, id) f →
    a.node? c e = some m → a.node? c f = some n → child ∈ m.children → child ∈ n.children → e = f

/-! ## Trees depend on their own documents only -/

theorem Below.congr (same : ∀ e, a.Below c root e → a.node? d e = a.node? c e) :
    a.Below d root e ↔ a.Below c root e := by
  constructor
  · intro below
    induction below with
    | root => exact .root
    | child _ stored refers inductionHypothesis =>
      rw [same _ inductionHypothesis] at stored
      exact .child inductionHypothesis stored refers
  · intro below
    induction below with
    | root => exact .root
    | child above stored refers inductionHypothesis =>
      rw [← same _ above] at stored
      exact .child inductionHypothesis stored refers

/-- Below an entity the same documents are stored in other contents. -/
def SameBelow (a : Archive) (c d : Contents) (root : EntityRef) : Prop :=
  ∀ e, a.Below c root e → d.find? (a.key e.1 e.2) = c.find? (a.key e.1 e.2)

/-- A complete tree stays complete when none of its documents changes its place. -/
theorem CompleteTree.congr (complete : a.CompleteTree c id)
    (same : ∀ e, a.Below c (.plan, id) e → a.node? d e = a.node? c e) :
    a.CompleteTree d id where
  present := by
    intro e below
    have old := (Below.congr same).mp below
    rw [same e old]
    exact complete.present e old
  distinct := by
    intro e n below stored
    have old := (Below.congr same).mp below
    rw [same e old] at stored
    exact complete.distinct e n old stored
  single := by
    intro e f m n child belowFirst belowSecond storedFirst storedSecond
    have oldFirst := (Below.congr same).mp belowFirst
    have oldSecond := (Below.congr same).mp belowSecond
    rw [same e oldFirst] at storedFirst
    rw [same f oldSecond] at storedSecond
    exact complete.single e f m n child oldFirst oldSecond storedFirst storedSecond

/-! ## Documents as the archive lays them out -/

/-- A value is a document that the archive lays out for an entity: one with an identifier that is
not nil and with references that can be read. -/
def IsDocumentOf (v : Json) (e : EntityRef) : Prop :=
  ∃ d : Document, v = d.toJson ∧ d.entity = e ∧ e.2.isNil = false ∧
    ∃ ids, CheckRefs.decode d.refs = .ok ids

/-- Every document in the partition is laid out for the entity of its place. -/
def LaidOut (a : Archive) (c : Contents) : Prop :=
  ∀ e item, c.find? (a.key e.1 e.2) = some item → IsDocumentOf item.doc e

/-- Every document below an entity is laid out for the entity of its place. -/
def LaidOutBelow (a : Archive) (c : Contents) (root : EntityRef) : Prop :=
  ∀ e item, a.Below c root e → c.find? (a.key e.1 e.2) = some item → IsDocumentOf item.doc e

theorem LaidOut.below (laidOut : a.LaidOut c) (root : EntityRef) : a.LaidOutBelow c root :=
  fun e item _ => laidOut e item

theorem document?_of_find? {item : Item} {doc : Document}
    (stored : c.find? (a.key e.1 e.2) = some item) (laidOut : item.doc = doc.toJson)
    (isEntity : doc.entity = e) : a.document? c e = some doc := by
  subst isEntity
  simp only [document?, stored, Option.bind_some, laidOut]
  exact doc.ofJson?_toJson

theorem node?_eq_none (missing : c.find? (a.key e.1 e.2) = none) : a.node? c e = none := by
  simp [node?, document?, missing]

/-- Where there is a node there is a document. -/
theorem stored_of_node? (isNode : a.node? c e = some n) : c.find? (a.key e.1 e.2) ≠ none := by
  intro missing
  rw [node?_eq_none missing] at isNode
  cases isNode

theorem node?_congr (same : d.find? (a.key e.1 e.2) = c.find? (a.key e.1 e.2)) :
    a.node? d e = a.node? c e := by
  rw [node?, node?, document?, document?, same]

/-- In a laid out partition a document that is there carries its own identifier. -/
theorem LaidOut.node?_isSome (laidOut : a.LaidOut c)
    (stored : c.find? (a.key e.1 e.2) ≠ none) : ∃ n, a.node? c e = some n ∧ n.id = e.2 := by
  obtain ⟨item, found⟩ := Option.ne_none_iff_exists'.mp stored
  obtain ⟨doc, isLaidOut, isEntity, _⟩ := laidOut e item found
  refine ⟨doc.node, ?_, congrArg Prod.snd isEntity⟩
  rw [node?, document?_of_find? found isLaidOut isEntity]
  rfl

theorem LaidOut.notNil (laidOut : a.LaidOut c) (stored : c.find? (a.key e.1 e.2) ≠ none) :
    e.2.isNil = false := by
  obtain ⟨item, found⟩ := Option.ne_none_iff_exists'.mp stored
  obtain ⟨_, _, _, notNil, _⟩ := laidOut e item found
  exact notNil

theorem SameBelow.node? (same : a.SameBelow c d root) (below : a.Below c root e) :
    a.node? d e = a.node? c e :=
  node?_congr (same e below)

theorem SameBelow.below_iff (same : a.SameBelow c d root) :
    a.Below d root e ↔ a.Below c root e :=
  Below.congr fun _ => same.node?

theorem SameBelow.trans {b : Contents} (first : a.SameBelow b c root)
    (second : a.SameBelow c d root) : a.SameBelow b d root := by
  intro e below
  exact (second e (first.below_iff.mpr below)).trans (first e below)

theorem SameBelow.complete (same : a.SameBelow c d (.plan, id)) (complete : a.CompleteTree c id) :
    a.CompleteTree d id :=
  complete.congr fun _ => same.node?

/-! ## Putting documents -/

theorem key_injective {e f : EntityRef} (same : a.key e.1 e.2 = a.key f.1 f.2) : e = f := by
  simp only [key, DocumentKey.mk.injEq, true_and] at same
  exact Prod.ext (EntityKind.collection_injective same.1) same.2

theorem find?_put_of_ne {f : EntityRef} (item : Item) (different : f ≠ e) :
    (c.put (a.key e.1 e.2) item).find? (a.key f.1 f.2) = c.find? (a.key f.1 f.2) := by
  rw [Contents.find?_put, if_neg fun same => different (key_injective same)]

/-- A document that is laid out for its place keeps the partition laid out. -/
theorem LaidOut.put {item : Item} (laidOut : a.LaidOut c) (isDocument : IsDocumentOf item.doc e) :
    a.LaidOut (c.put (a.key e.1 e.2) item) := by
  intro f other stored
  by_cases same : f = e
  · subst same
    rw [Contents.find?_put, if_pos rfl] at stored
    cases stored
    exact isDocument
  · rw [find?_put_of_ne item same] at stored
    exact laidOut f other stored

theorem node?_of_find? {item : Item} {doc : Document}
    (stored : c.find? (a.key e.1 e.2) = some item) (laidOut : item.doc = doc.toJson)
    (isEntity : doc.entity = e) : a.node? c e = some doc.node := by
  rw [node?, document?_of_find? stored laidOut isEntity]
  rfl

end Archive

end PlanArchive
