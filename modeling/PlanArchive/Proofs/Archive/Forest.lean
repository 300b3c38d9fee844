import PlanArchive.Proofs.Archive.Documents
import PlanArchive.Proofs.Archive.Tree

/-!
# The documents of a plan form a tree

`Forest` is the property of a list of documents that the levels of a plan build up: every document
is laid out for its entity and names the plan, and every entity is referred to exactly once, by a
document of the list or as one of the roots. The documents of every subtree are one, too
(`exists_forest_of_subtree`). A plan whose documents all have their nodes has its complete tree
(`complete_of_forest`).
-/

namespace PlanArchive

namespace PendingDocument

/-- The entities that a document refers to. -/
def children (p : PendingDocument) : List EntityRef :=
  match Document.ofJson? p.kind p.doc with
  | some d => d.node.children
  | none => []

/-- The document that waits to be written for an entity. -/
def ofDocument (d : Document) : PendingDocument := ⟨d.kind, d.node.id, d.toJson⟩

@[simp] theorem children_ofDocument (d : Document) : (ofDocument d).children = d.node.children := by
  simp [children, ofDocument]

end PendingDocument

/-- Documents of one plan in which every entity is referred to once, the roots from outside. -/
structure Forest (planId : Uuid) (roots : List EntityRef) (docs : List PendingDocument) : Prop where
  /-- Every document is laid out for its entity and names the plan. -/
  laidOut : ∀ p ∈ docs, ∃ d, p = .ofDocument d ∧ d.node.owner = planId ∧
    ∃ ids, CheckRefs.decode d.refs = .ok ids
  /-- The entities that are referred to are those that have documents. -/
  once : (docs.flatMap PendingDocument.children ++ roots).Perm
    (docs.map PendingDocument.entity)

namespace Forest

variable {planId : Uuid} {roots otherRoots : List EntityRef} {docs others : List PendingDocument}

theorem nil : Forest planId [] [] := ⟨by simp, .nil⟩

theorem append (forest : Forest planId roots docs) (other : Forest planId otherRoots others) :
    Forest planId (roots ++ otherRoots) (docs ++ others) where
  laidOut := by
    intro p member
    rcases List.mem_append.mp member with first | second
    · exact forest.laidOut p first
    · exact other.laidOut p second
  once := by
    have both := forest.once.append other.once
    rw [List.map_append, List.flatMap_append]
    refine .trans ?_ both
    rw [List.append_assoc, List.append_assoc]
    refine .append_left _ ?_
    rw [← List.append_assoc, ← List.append_assoc]
    exact .append_right _ List.perm_append_comm

/-- A document above a forest whose roots are the entities that it refers to. -/
theorem node {d : Document} (forest : Forest planId d.node.children docs)
    (owned : d.node.owner = planId) (readable : ∃ ids, CheckRefs.decode d.refs = .ok ids) :
    Forest planId [d.entity] (docs ++ [.ofDocument d]) where
  laidOut := by
    intro p member
    rcases List.mem_append.mp member with below | isRoot
    · exact forest.laidOut p below
    · exact ⟨d, List.mem_singleton.mp isRoot, owned, readable⟩
  once := by
    rw [List.flatMap_append, List.map_append, List.flatMap_singleton,
      PendingDocument.children_ofDocument]
    exact forest.once.append_right _

/-- Forests of the items of a list, each with its own root. -/
theorem flatMap {α β ε : Type} {step : α → Except ε β} {root : α → EntityRef} {items : List α}
    {results : List β} (docsOf : β → List PendingDocument)
    (each : ∀ x ∈ items, ∀ y, step x = .ok y → Forest planId [root x] (docsOf y))
    (mapped : items.mapM step = .ok results) :
    Forest planId (items.map root) (results.flatMap docsOf) := by
  induction items generalizing results with
  | nil =>
    cases mapped
    exact nil
  | cons x rest inductionHypothesis =>
    simp only [List.mapM_cons, Except.bind_eq_ok, pure, Except.pure, Except.ok.injEq] at mapped
    obtain ⟨y, stepped, others, restMapped, rfl⟩ := mapped
    have first := each x List.mem_cons_self y stepped
    have later := inductionHypothesis (fun z member => each z (List.mem_cons_of_mem _ member))
      restMapped
    exact first.append later

theorem flatMap_numbered {α β ε : Type} {step : α × Nat → Except ε β} {root : α → EntityRef}
    {items : List α} {results : List β} (docsOf : β → List PendingDocument)
    (each : ∀ x ∈ items, ∀ position y, step (x, position) = .ok y →
      Forest planId [root x] (docsOf y))
    (mapped : items.zipIdx.mapM step = .ok results) :
    Forest planId (items.map root) (results.flatMap docsOf) := by
  rw [← List.map_zipIdx_fst root items]
  apply flatMap docsOf _ mapped
  intro x member y stepped
  have isItem : x.1 ∈ items := by
    rw [← List.zipIdx_map_fst 0 items]
    exact List.mem_map.mpr ⟨x, member, rfl⟩
  exact each x.1 isItem x.2 y stepped

end Forest

theorem CheckRefs.ids_encode {checks : Slots (Option Checks)}
    (notNil : ∀ c ∈ checks.present, c.id.isNil = false) :
    ids (encode checks) = checks.present.map Checks.id := by
  rw [ids, decode_encode notNil]
  exact Slots.present_map Checks.id checks

/-- Different items contribute different values to a list without repetitions. -/
theorem List.apart_of_flatMap_nodup {α β : Type} {f : α → List β} {items : List α}
    (distinct : (items.flatMap f).Nodup) {x y : α} (xMember : x ∈ items) (yMember : y ∈ items)
    (different : x ≠ y) {u v : β} (ofX : u ∈ f x) (ofY : v ∈ f y) : u ≠ v := by
  have ⟨_, apart⟩ := List.pairwise_flatMap.mp distinct
  have forward : items.Pairwise fun x y => x ≠ y → ∀ u ∈ f x, ∀ v ∈ f y, u ≠ v := by
    apply apart.imp
    intro x y separate _
    exact separate
  have backward : items.Pairwise (flip fun x y => x ≠ y → ∀ u ∈ f x, ∀ v ∈ f y, u ≠ v) := by
    apply apart.imp
    intro x y separate _ u ofY v ofX
    exact (separate v ofX u ofY).symm
  exact List.Pairwise.forall_of_forall_of_flip (fun _ _ itself => absurd rfl itself) forward
    backward xMember yMember different u ofX v ofY

namespace Archive

variable {a : Archive} {planId : Uuid} {docs : List PendingDocument}

/-! ## Level by level -/

theorem forest_of_actionDocuments {actions : List Action}
    (encoded : a.actionDocuments planId actions = .ok docs) :
    Forest planId (actions.map fun x => (.action, x.id)) docs := by
  have each : ∀ x ∈ actions, ∀ position p, PendingDocument.ofEncoded .action x.id
      ActionDocument.toJson (ActionDocument.encode a.part planId position x) = .ok p →
      Forest planId [(.action, x.id)] [p] := by
    intro x _ position p made
    obtain ⟨d, isEncoded, rfl⟩ := ofEncoded_eq_ok.mp made
    obtain ⟨sameId, samePlan⟩ := ActionDocument.references_of_encode isEncoded
    have leaf := Forest.nil.node (d := .action d) samePlan ⟨_, rfl⟩
    rw [← sameId]
    exact leaf
  have forest := Forest.flatMap_numbered ([·]) each encoded
  rwa [List.flatMap_singleton'] at forest

theorem forest_of_checksDocuments {c : Checks} (encoded : a.checksDocuments planId c = .ok docs) :
    Forest planId [(.checks, c.id)] docs := by
  obtain ⟨actions, d, actionsEncoded, isEncoded, rfl⟩ := checksDocuments_eq_ok encoded
  obtain ⟨sameId, samePlan, sameActions⟩ := ChecksDocument.references_of_encode isEncoded
  have below : Forest planId (Document.checks d).node.children actions := by
    have forest := forest_of_actionDocuments actionsEncoded
    simpa [Document.node, sameActions, Function.comp_def] using forest
  have forest := below.node samePlan ⟨_, rfl⟩
  rw [← sameId]
  exact forest

theorem forest_of_sequenceDocuments {position : Nat} {q : Sequence}
    (encoded : a.sequenceDocuments planId position q = .ok docs) :
    Forest planId [(.sequence, q.id)] docs := by
  obtain ⟨actions, d, actionsEncoded, isEncoded, rfl⟩ := sequenceDocuments_eq_ok encoded
  obtain ⟨sameId, samePlan, sameActions⟩ := SequenceDocument.references_of_encode isEncoded
  have below : Forest planId (Document.sequence d).node.children actions := by
    have forest := forest_of_actionDocuments actionsEncoded
    simpa [Document.node, sameActions, Function.comp_def] using forest
  have forest := below.node samePlan ⟨_, rfl⟩
  rw [← sameId]
  exact forest

theorem forest_of_slots {checks : List Checks} {lists : List (List PendingDocument)}
    (encoded : checks.mapM (a.checksDocuments planId) = .ok lists) :
    Forest planId (checks.map fun c => (.checks, c.id)) lists.flatten := by
  have forest := Forest.flatMap id (fun _ _ _ made => forest_of_checksDocuments made) encoded
  rwa [List.flatMap_id] at forest

theorem forest_of_blockDocuments {position : Nat} {b : Block}
    (notNil : ∀ c ∈ b.checks.present, c.id.isNil = false)
    (encoded : a.blockDocuments planId position b = .ok docs) :
    Forest planId [(.block, b.id)] docs := by
  obtain ⟨checks, sequences, d, checksEncoded, sequencesEncoded, isEncoded, rfl⟩ :=
    blockDocuments_eq_ok encoded
  obtain ⟨sameId, samePlan, sameChecks, sameSequences⟩ :=
    BlockDocument.references_of_encode isEncoded
  have sequenceForest := Forest.flatMap_numbered id
    (fun _ _ _ _ made => forest_of_sequenceDocuments made) sequencesEncoded
  rw [List.flatMap_id] at sequenceForest
  have below : Forest planId (Document.block d).node.children
      (checks.flatten ++ sequences.flatten) := by
    have forest := (forest_of_slots checksEncoded).append sequenceForest
    simpa [Document.node, sameChecks, sameSequences, CheckRefs.ids_encode notNil,
      Function.comp_def] using forest
  have forest := below.node samePlan ⟨_, by
    simp only [Document.refs, sameChecks]
    exact CheckRefs.decode_encode notNil⟩
  rw [← sameId]
  exact forest

/-- The documents of a plan are a forest whose one root is the plan. -/
theorem forest_of_documents {p : Plan} (notNil : ∀ e ∈ p.entities, e.2.isNil = false)
    (encoded : a.documents p = .ok docs) : Forest p.id [(.plan, p.id)] docs := by
  obtain ⟨checks, blocks, d, checksEncoded, blocksEncoded, isEncoded, rfl⟩ :=
    documents_eq_ok encoded
  obtain ⟨sameId, sameChecks, sameBlocks⟩ := PlanDocument.references_of_encode isEncoded
  have checksNotNil : ∀ c ∈ p.checks.present, c.id.isNil = false :=
    fun c present => notNil _ (Plan.checks_mem_entities present)
  have blockForest := Forest.flatMap_numbered id (fun b member _ _ made =>
    forest_of_blockDocuments (fun c present => notNil _ (Plan.mem_entities_of_block member
      (Block.checks_mem_entities present))) made) blocksEncoded
  rw [List.flatMap_id] at blockForest
  have below : Forest p.id (Document.plan d).node.children
      (checks.flatten ++ blocks.flatten) := by
    have forest := (forest_of_slots checksEncoded).append blockForest
    simpa [Document.node, sameChecks, sameBlocks, CheckRefs.ids_encode checksNotNil,
      Function.comp_def] using forest
  have forest := below.node sameId ⟨_, by
    simp only [Document.refs, sameChecks]
    exact CheckRefs.decode_encode checksNotNil⟩
  rw [← sameId] at forest ⊢
  exact forest

/-! ## Subtrees -/

/-- An entity of a plan and all entities of the tree of which it is the root. Actions, which have
nothing below them, are left out. -/
inductive Subtree (p : Plan) : EntityRef → List EntityRef → Prop
  | plan : Subtree p (.plan, p.id) p.entities
  | checks {c : Checks} (present : c ∈ p.checks.present) : Subtree p (.checks, c.id) c.entities
  | block {b : Block} (isBlock : b ∈ p.blocks) : Subtree p (.block, b.id) b.entities
  | blockChecks {b : Block} {c : Checks} (isBlock : b ∈ p.blocks)
      (present : c ∈ b.checks.present) : Subtree p (.checks, c.id) c.entities
  | sequence {b : Block} {q : Sequence} (isBlock : b ∈ p.blocks)
      (isSequence : q ∈ b.sequences) : Subtree p (.sequence, q.id) q.entities

theorem exists_blockDocuments {p : Plan} (encoded : a.documents p = .ok docs) {b : Block}
    (isBlock : b ∈ p.blocks) :
    ∃ position own, a.blockDocuments p.id position b = .ok own ∧ own ⊆ docs := by
  obtain ⟨_, blocks, _, _, blocksEncoded, _, rfl⟩ := documents_eq_ok encoded
  obtain ⟨position, own, isOwn, ownEncoded⟩ := Except.mem_of_numbered blocksEncoded isBlock
  refine ⟨position, own, ownEncoded, ?_⟩
  intro q member
  exact List.mem_append_left _ (List.mem_append_right _ (List.mem_flatten.mpr ⟨own, isOwn, member⟩))

/-- The documents of a subtree are a forest, with the root of the subtree. -/
theorem exists_forest_of_subtree {p : Plan} (notNil : ∀ e ∈ p.entities, e.2.isNil = false)
    (encoded : a.documents p = .ok docs) {root : EntityRef} {below : List EntityRef}
    (subtree : Subtree p root below) :
    ∃ own, own ⊆ docs ∧ Forest p.id [root] own ∧ own.map PendingDocument.entity = below := by
  cases subtree with
  | plan =>
    exact ⟨docs, List.Subset.refl _, forest_of_documents notNil encoded,
      entities_of_documents encoded⟩
  | checks present =>
    obtain ⟨checks, _, _, checksEncoded, _, _, rfl⟩ := documents_eq_ok encoded
    obtain ⟨own, isOwn, ownEncoded⟩ := Except.mem_of_mapM checksEncoded present
    refine ⟨own, ?_, forest_of_checksDocuments ownEncoded, entities_of_checksDocuments ownEncoded⟩
    intro q member
    exact List.mem_append_left _
      (List.mem_append_left _ (List.mem_flatten.mpr ⟨own, isOwn, member⟩))
  | block isBlock =>
    obtain ⟨_, own, ownEncoded, isPart⟩ := exists_blockDocuments encoded isBlock
    refine ⟨own, isPart, forest_of_blockDocuments ?_ ownEncoded,
      entities_of_blockDocuments ownEncoded⟩
    exact fun c present =>
      notNil _ (Plan.mem_entities_of_block isBlock (Block.checks_mem_entities present))
  | blockChecks isBlock present =>
    obtain ⟨_, ofBlock, blockEncoded, isPart⟩ := exists_blockDocuments encoded isBlock
    obtain ⟨checks, _, _, checksEncoded, _, _, rfl⟩ := blockDocuments_eq_ok blockEncoded
    obtain ⟨own, isOwn, ownEncoded⟩ := Except.mem_of_mapM checksEncoded present
    refine ⟨own, ?_, forest_of_checksDocuments ownEncoded, entities_of_checksDocuments ownEncoded⟩
    intro q member
    exact isPart (List.mem_append_left _
      (List.mem_append_left _ (List.mem_flatten.mpr ⟨own, isOwn, member⟩)))
  | sequence isBlock isSequence =>
    obtain ⟨_, ofBlock, blockEncoded, isPart⟩ := exists_blockDocuments encoded isBlock
    obtain ⟨_, sequences, _, _, sequencesEncoded, _, rfl⟩ := blockDocuments_eq_ok blockEncoded
    obtain ⟨_, own, isOwn, ownEncoded⟩ := Except.mem_of_numbered sequencesEncoded isSequence
    refine ⟨own, ?_, forest_of_sequenceDocuments ownEncoded,
      entities_of_sequenceDocuments ownEncoded⟩
    intro q member
    exact isPart (List.mem_append_left _
      (List.mem_append_right _ (List.mem_flatten.mpr ⟨own, isOwn, member⟩)))

/-! ## Stored forests -/

variable {c : Contents}

/-- The documents are stored, each at its place. -/
def StoredIn (a : Archive) (c : Contents) (docs : List PendingDocument) : Prop :=
  ∀ p ∈ docs, ∃ token, c.find? (a.key p.kind p.id) = some ⟨p.doc, token⟩

/-- Where the documents belong, others are stored that stand in their places of the tree. -/
def NodesIn (a : Archive) (planId : Uuid) (c : Contents) (docs : List PendingDocument) : Prop :=
  ∀ p ∈ docs, ∃ n, a.node? c p.entity = some n ∧ n.id = p.id ∧ n.owner = planId ∧
    n.children = p.children

theorem nodesIn_of_storedIn {roots : List EntityRef} (forest : Forest planId roots docs)
    (stored : a.StoredIn c docs) : a.NodesIn planId c docs := by
  intro p member
  obtain ⟨d, rfl, owned, _⟩ := forest.laidOut p member
  obtain ⟨token, found⟩ := stored _ member
  have parsed : a.document? c d.entity = some d := document?_of_find? found rfl rfl
  refine ⟨d.node, ?_, rfl, owned, (PendingDocument.children_ofDocument d).symm⟩
  exact (congrArg (Option.map Document.node) parsed).trans rfl

theorem mem_of_below {root e : EntityRef} (forest : Forest planId [root] docs)
    (nodes : a.NodesIn planId c docs) (below : a.Below c root e) :
    ∃ p ∈ docs, p.entity = e := by
  induction below with
  | root =>
    have isRoot : root ∈ docs.flatMap PendingDocument.children ++ [root] :=
      List.mem_append_right _ List.mem_cons_self
    exact List.mem_map.mp (forest.once.mem_iff.mp isRoot)
  | @child parent child n _ found refers inductionHypothesis =>
    obtain ⟨p, member, rfl⟩ := inductionHypothesis
    obtain ⟨m, isNode, _, _, children⟩ := nodes p member
    have same : m = n := Option.some.inj (isNode.symm.trans found)
    rw [← same, children] at refers
    have isChild : child ∈ docs.flatMap PendingDocument.children ++ [root] :=
      List.mem_append_left _ (List.mem_flatMap.mpr ⟨p, member, refers⟩)
    exact List.mem_map.mp (forest.once.mem_iff.mp isChild)

/-- From the one root of a forest all its entities are reached, and no others. -/
theorem below_iff_of_forest {root e : EntityRef} (forest : Forest planId [root] docs)
    (nodes : a.NodesIn planId c docs) :
    a.Below c root e ↔ e ∈ docs.map PendingDocument.entity := by
  constructor
  · intro below
    exact List.mem_map.mpr (mem_of_below forest nodes below)
  -- Whatever refers to an entity stands on a higher level, and the root on the highest.
  · intro member
    induction distance : EntityKind.plan.level - e.1.level using Nat.strongRecOn generalizing e with
    | ind n inductionHypothesis =>
      rcases List.mem_append.mp (forest.once.mem_iff.mpr member) with isChild | isRoot
      · obtain ⟨p, isAbove, refers⟩ := List.mem_flatMap.mp isChild
        obtain ⟨m, isNode, _, _, children⟩ := nodes p isAbove
        have lower : e.1.level < p.kind.level := by
          obtain ⟨d, rfl, _⟩ := forest.laidOut p isAbove
          rw [PendingDocument.children_ofDocument] at refers
          exact Document.level_lt_of_mem_children refers
        have bounded : p.kind.level ≤ EntityKind.plan.level := by
          cases p.kind <;> decide
        have above : a.Below c root p.entity :=
          inductionHypothesis (EntityKind.plan.level - p.kind.level) (by omega)
            (List.mem_map.mpr ⟨p, isAbove, rfl⟩) rfl
        exact .child above isNode (children ▸ refers)
      · rw [List.mem_singleton.mp isRoot]
        exact .root

/-- A plan whose documents form a forest has its complete tree where they have their nodes. -/
theorem complete_of_forest (forest : Forest planId [(.plan, planId)] docs)
    (distinct : (docs.map PendingDocument.entity).Nodup) (nodes : a.NodesIn planId c docs) :
    a.CompleteTree c planId := by
  have referredOnce : (docs.flatMap PendingDocument.children).Nodup := by
    have all := forest.once.nodup_iff.mpr distinct
    exact (List.nodup_append.mp all).1
  have ⟨eachDistinct, _⟩ := List.pairwise_flatMap.mp referredOnce
  have located : ∀ e n, a.Below c (.plan, planId) e → a.node? c e = some n →
      ∃ p ∈ docs, p.entity = e ∧ n.children = p.children := by
    intro e n below found
    obtain ⟨p, member, rfl⟩ := mem_of_below forest nodes below
    obtain ⟨m, isNode, _, _, children⟩ := nodes p member
    rw [found] at isNode
    cases isNode
    exact ⟨p, member, rfl, children⟩
  constructor
  · intro e below
    obtain ⟨p, member, rfl⟩ := mem_of_below forest nodes below
    obtain ⟨n, isNode, sameId, owned, _⟩ := nodes p member
    exact ⟨n, isNode, sameId, owned⟩
  · intro e n below found
    obtain ⟨p, member, rfl, children⟩ := located e n below found
    rw [children]
    exact eachDistinct p member
  · intro e f m n child belowFirst belowSecond foundFirst foundSecond ofFirst ofSecond
    obtain ⟨p, isFirst, rfl, firstChildren⟩ := located e m belowFirst foundFirst
    obtain ⟨q, isSecond, rfl, secondChildren⟩ := located f n belowSecond foundSecond
    rw [firstChildren] at ofFirst
    rw [secondChildren] at ofSecond
    by_cases same : p = q
    · rw [same]
    · exact absurd rfl
        (List.apart_of_flatMap_nodup referredOnce isFirst isSecond same ofFirst ofSecond)

end Archive

end PlanArchive
