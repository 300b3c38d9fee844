import PlanArchive.Proofs.Archive.Commit
import PlanArchive.Proofs.Archive.Deletion
import PlanArchive.Proofs.Archive.Forest
import PlanArchive.Proofs.Archive.Patching
import PlanArchive.Proofs.Archive.RoundTrip

/-!
# What the operations do to complete trees

In a laid out partition the complete tree of a plan is out of reach of what is done to other plans.
A creation writes to places that are free or hold a child of its own plan (`Writes.keeps_tree`),
and a deletion removes what is below its plan or names it (`delete_keeps_tree`), which a document of
the other tree does not unless the deleted plan refers to documents that are not its own.
-/

namespace PlanArchive

/-- A document that waits to be written is laid out for a plan. -/
def PendingDocument.LaidOutFor (planId : Uuid) (p : PendingDocument) : Prop :=
  ∃ d, p = .ofDocument d ∧ d.node.owner = planId ∧ d.node.id.isNil = false ∧
    ∃ ids, CheckRefs.decode d.refs = .ok ids

theorem PendingDocument.LaidOutFor.isDocumentOf {planId : Uuid} {p : PendingDocument}
    (laidOut : p.LaidOutFor planId) : Archive.IsDocumentOf p.doc p.entity := by
  obtain ⟨d, rfl, _, notNil, readable⟩ := laidOut
  exact ⟨d, rfl, rfl, notNil, readable⟩

/-- A child that is laid out for a plan has its identifier and that of the plan in its fields. -/
theorem PendingDocument.LaidOutFor.child_fields {planId : Uuid} {p : PendingDocument}
    (laidOut : p.LaidOutFor planId) (isChild : p.kind ≠ .plan) :
    Field.id? p.doc Field.id = some p.id ∧
      Field.text? p.doc Field.planId = some planId.toText := by
  obtain ⟨d, rfl, rfl, _⟩ := laidOut
  exact d.child_fields isChild

theorem PendingDocument.LaidOutFor.owner {planId : Uuid} {p : PendingDocument}
    (laidOut : p.LaidOutFor planId) (isChild : p.kind ≠ .plan) :
    Archive.owner? p.doc = some planId := by
  simp [Archive.owner?, Field.id?, (laidOut.child_fields isChild).2]

/-- The document of a plan is laid out for that plan only. -/
theorem PendingDocument.LaidOutFor.id_eq {planId : Uuid} {p : PendingDocument}
    (laidOut : p.LaidOutFor planId) (isPlan : p.kind = .plan) : p.id = planId := by
  obtain ⟨d, rfl, owned, _⟩ := laidOut
  cases d with
  | plan d => exact owned
  | _ => cases isPlan

namespace Archive

variable {a : Archive} {c d : Contents} {planId id : Uuid} {e : EntityRef} {s : MemoryStore}
  {docs : List PendingDocument} {written : List WrittenDocument}

/-- A document of a complete tree that is there names the plan of the tree. -/
theorem CompleteTree.owner {n : Node} (complete : a.CompleteTree c id)
    (below : a.Below c (.plan, id) e) (isNode : a.node? c e = some n) : n.owner = id := by
  obtain ⟨m, isAlso, _, owned⟩ := complete.present e below
  rw [← owned, Option.some.inj (isAlso.symm.trans isNode)]

/-- Every document below a plan names the plan. -/
def OwnTree (a : Archive) (c : Contents) (id : Uuid) : Prop :=
  ∀ e n, a.Below c (.plan, id) e → a.node? c e = some n → n.owner = id

theorem CompleteTree.ownTree (complete : a.CompleteTree c id) : a.OwnTree c id :=
  fun _ _ below isNode => complete.owner below isNode

/-- Below a plan that is not stored there is nothing that could name another plan. -/
theorem ownTree_of_gone (gone : a.Gone c (.plan, id)) : a.OwnTree c id := by
  intro e n below isNode
  have isRoot : e = (.plan, id) := by
    clear isNode
    induction below with
    | root => rfl
    | child _ stored _ inductionHypothesis =>
      rw [inductionHypothesis] at stored
      exact absurd gone (stored_of_node? stored)
  rw [isRoot] at isNode
  exact absurd gone (stored_of_node? isNode)

/-! ## Creating -/

/-- A child whose document names a plan as its owner, in any spelling. -/
def Owned (a : Archive) (c : Contents) (planId : Uuid) (e : EntityRef) : Prop :=
  e.1 ≠ .plan ∧ ∃ item, c.find? (a.key e.1 e.2) = some item ∧ owner? item.doc = some planId

theorem Marked.owned (marked : a.Marked c id e) : a.Owned c id e := by
  obtain ⟨isChild, item, stored, text⟩ := marked
  exact ⟨isChild, item, stored, by simp [owner?, Field.id?, text]⟩

/-- What is stored at an open place belongs to the plan that is being created. -/
theorem Open.owner {p : PendingDocument} {n : Node} (isOpen : a.Open planId c p)
    (laidOut : a.LaidOut c) (isNode : a.node? c p.entity = some n) : n.owner = planId := by
  rcases isOpen with free | ⟨isChild, item, found, owner⟩
  · exact absurd free (stored_of_node? isNode)
  · obtain ⟨m, isAlso, _, text⟩ := laidOut.child_fields isChild found
    have named : owner? item.doc = some m.owner := by simp [owner?, Field.id?, text]
    have same : m = n := Option.some.inj (isAlso.symm.trans isNode)
    exact same ▸ Option.some.inj (named.symm.trans owner)

/-- Writing documents of a plan leaves the documents of all other plans as they are. -/
theorem Writes.keeps_others (writes : a.Writes planId c written d) (laidOut : a.LaidOut c)
    (documents : ∀ w ∈ written, w.1.LaidOutFor planId) :
    a.LaidOut d ∧ ∀ e n, a.node? c e = some n → n.owner ≠ planId →
      d.find? (a.key e.1 e.2) = c.find? (a.key e.1 e.2) := by
  induction writes with
  | nil c => exact ⟨laidOut, fun _ _ _ _ => rfl⟩
  | @cons c d p token rest isOpen later inductionHypothesis =>
    have ⟨isDocument, restDocuments⟩ := List.forall_mem_cons.mp documents
    have stillLaidOut : a.LaidOut (c.put (a.place p) ⟨p.doc, token⟩) :=
      LaidOut.put (e := p.entity) laidOut isDocument.isDocumentOf
    obtain ⟨endLaidOut, keeps⟩ := inductionHypothesis stillLaidOut restDocuments
    refine ⟨endLaidOut, ?_⟩
    intro e n isNode other
    have different : e ≠ p.entity := by
      rintro rfl
      exact other (isOpen.owner laidOut isNode)
    have untouched : (c.put (a.place p) ⟨p.doc, token⟩).find? (a.key e.1 e.2) =
        c.find? (a.key e.1 e.2) := find?_put_of_ne _ different
    rw [← node?_congr untouched] at isNode
    exact (keeps e n isNode other).trans untouched

/-- Writing documents of a plan leaves the complete trees of all other plans as they are. -/
theorem Writes.keeps_tree (writes : a.Writes planId c written d) (laidOut : a.LaidOut c)
    (documents : ∀ w ∈ written, w.1.LaidOutFor planId) (other : id ≠ planId)
    (complete : a.CompleteTree c id) : a.SameBelow c d (.plan, id) := by
  intro e below
  obtain ⟨n, isNode, _, owned⟩ := complete.present e below
  exact (writes.keeps_others laidOut documents).2 e n isNode (owned ▸ other)

/-- After documents of a plan were written every node is an old one or that of a document that was
written. -/
theorem Writes.node?_cases {n : Node} (writes : a.Writes planId c written d)
    (documents : ∀ w ∈ written, w.1.LaidOutFor planId) (isNode : a.node? d e = some n) :
    a.node? c e = some n ∨ n.owner = planId ∧
      ∃ w ∈ written, w.1.entity = e ∧ w.1.children = n.children := by
  induction writes with
  | nil => exact .inl isNode
  | @cons c d p token rest isOpen later inductionHypothesis =>
    have ⟨isDocument, restDocuments⟩ := List.forall_mem_cons.mp documents
    rcases inductionHypothesis restDocuments isNode with earlier | ⟨owned, w, inRest, isOne⟩
    · by_cases same : p.entity = e
      · obtain ⟨doc, rfl, owned, _⟩ := isDocument
        have found := Contents.find?_put c (a.place (.ofDocument doc))
          ⟨(PendingDocument.ofDocument doc).doc, token⟩ (a.place (.ofDocument doc))
        rw [if_pos rfl] at found
        subst same
        have isOwn := earlier.symm.trans (node?_of_find? (e := doc.entity) found rfl rfl)
        rw [Option.some.inj isOwn]
        exact .inr ⟨owned, _, List.mem_cons_self, rfl, PendingDocument.children_ofDocument doc⟩
      · have untouched : (c.put (a.place p) ⟨p.doc, token⟩).find? (a.key e.1 e.2) =
            c.find? (a.key e.1 e.2) := find?_put_of_ne _ (Ne.symm same)
        exact .inl ((node?_congr untouched).symm.trans earlier)
    · exact .inr ⟨owned, w, List.mem_cons_of_mem _ inRest, isOne⟩

/-- Writing documents of a plan neither takes children from other plans nor gives any to them. -/
theorem Writes.names_iff (writes : a.Writes planId c written d) (laidOut : a.LaidOut c)
    (documents : ∀ w ∈ written, w.1.LaidOutFor planId) (other : id ≠ planId) :
    a.Names d id e ↔ a.Names c id e := by
  constructor
  · rintro ⟨isChild, n, isNode, rfl⟩
    rcases writes.node?_cases documents isNode with earlier | ⟨owned, _⟩
    · exact ⟨isChild, n, earlier, rfl⟩
    · exact absurd owned other
  · rintro ⟨isChild, n, isNode, rfl⟩
    have same := (writes.keeps_others laidOut documents).2 e n isNode other
    exact ⟨isChild, n, (node?_congr same).trans isNode, rfl⟩

/-- The documents of a plan that passed validation are laid out for it. -/
theorem laidOutFor_of_validated {p : Plan} (valid : a.validated p = .ok docs)
    {q : PendingDocument} (member : q ∈ docs) : q.LaidOutFor p.id := by
  obtain ⟨encoded, notNil, _⟩ := validated_eq_ok valid
  obtain ⟨d, isDocument, owned, readable⟩ := (forest_of_documents notNil encoded).laidOut q member
  have isEntity : q.entity ∈ p.entities := entity_mem_of_validated valid member
  rw [isDocument] at isEntity
  exact ⟨d, isDocument, owned, notNil _ isEntity, readable⟩

/-- The documents of a plan refer to its entities. -/
theorem mem_entities_of_children {p : Plan} (valid : a.validated p = .ok docs)
    {q : PendingDocument} (member : q ∈ docs) (refers : e ∈ q.children) : e ∈ p.entities := by
  obtain ⟨encoded, notNil, _⟩ := validated_eq_ok valid
  rw [← entities_of_documents encoded, ← (forest_of_documents notNil encoded).once.mem_iff]
  exact List.mem_append_left _ (List.mem_flatMap.mpr ⟨q, member, refers⟩)

/-- The document of a plan is the last of its documents: those before some other are children. -/
theorem children_of_isPrefix {p : Plan} (valid : a.validated p = .ok docs)
    {initial : List PendingDocument} (isPrefix : initial <+: docs) (notAll : initial ≠ docs) :
    ∀ q ∈ initial, q.kind ≠ .plan := by
  obtain ⟨encoded, _, distinct⟩ := validated_eq_ok valid
  have entities := entities_of_documents encoded
  obtain ⟨checks, blocks, own, _, _, _, rfl⟩ := documents_eq_ok encoded
  rcases List.prefix_concat_iff.mp isPrefix with all | fewer
  · exact absurd all notAll
  · intro q member isPlan
    have earlier : q ∈ checks.flatten ++ blocks.flatten := fewer.subset member
    have isEntity : q.entity ∈ p.entities :=
      entity_mem_of_validated valid (List.mem_append_left _ earlier)
    have sameId : q.id = p.id := by
      apply Plan.eq_id_of_mem_entities
      rw [← isPlan]
      exact isEntity
    rw [← entities, List.map_append, List.map_append, List.nodup_append] at distinct
    apply distinct.2.2 q.id (List.mem_map.mpr ⟨q.entity, List.mem_map.mpr ⟨q, earlier, rfl⟩, rfl⟩)
      p.id List.mem_cons_self
    exact sameId

/-- The document of a plan that was not stored is only there when all of the plan's documents were
written. -/
theorem Writes.all_of_stored {p : Plan} (valid : a.validated p = .ok docs)
    (writes : a.Writes p.id c written d) (isPrefix : written.map Prod.fst <+: docs)
    (absent : a.Gone c (.plan, p.id)) (stored : ¬ a.Gone d (.plan, p.id)) :
    written.map Prod.fst = docs := by
  by_cases all : written.map Prod.fst = docs
  · exact all
  · exfalso
    apply stored
    have untouched : ∀ w ∈ written, a.key .plan p.id ≠ a.place w.1 := by
      intro w member same
      have isOwn : (EntityKind.plan, p.id) = w.1.entity := key_injective same
      exact children_of_isPrefix valid isPrefix all w.1 (List.mem_map.mpr ⟨w, member, rfl⟩)
        (congrArg Prod.fst isOwn).symm
    rw [Gone, writes.find?_of_ne untouched]
    exact absent

theorem Writes.storedIn {p : Plan} (valid : a.validated p = .ok docs)
    (writes : a.Writes p.id c written d) (all : written.map Prod.fst = docs) :
    a.StoredIn d docs := by
  obtain ⟨encoded, _, distinct⟩ := validated_eq_ok valid
  have ids : (written.map fun w => w.1.id) = p.entities.map Prod.snd := by
    rw [← entities_of_documents encoded, ← all, List.map_map, List.map_map]
    rfl
  intro q member
  rw [← all] at member
  obtain ⟨w, isWritten, rfl⟩ := List.mem_map.mp member
  exact ⟨w.2, writes.find?_of_mem (ids ▸ distinct) isWritten⟩

/-- A plan whose documents were all written is stored with its complete tree. -/
theorem Writes.complete {p : Plan} (valid : a.validated p = .ok docs)
    (writes : a.Writes p.id c written d) (all : written.map Prod.fst = docs) :
    a.CompleteTree d p.id := by
  obtain ⟨encoded, notNil, distinct⟩ := validated_eq_ok valid
  have forest := forest_of_documents notNil encoded
  have nodes := nodesIn_of_storedIn forest (writes.storedIn valid all)
  have entitiesDistinct : (docs.map PendingDocument.entity).Nodup := by
    rw [entities_of_documents encoded]
    exact List.Pairwise.of_map Prod.snd (fun _ _ different same => different (same ▸ rfl)) distinct
  exact complete_of_forest forest entitiesDistinct nodes

/-- A plan that a creation has stored has the entities of the plan below it. -/
theorem Writes.below_iff {p : Plan} (valid : a.validated p = .ok docs)
    (writes : a.Writes p.id c written d) (all : written.map Prod.fst = docs) :
    a.Below d (.plan, p.id) e ↔ e ∈ p.entities := by
  obtain ⟨encoded, notNil, _⟩ := validated_eq_ok valid
  have forest := forest_of_documents notNil encoded
  rw [← entities_of_documents encoded]
  exact below_iff_of_forest forest (nodesIn_of_storedIn forest (writes.storedIn valid all))

/-- Places of other entities than those of the plan keep what they hold. -/
theorem Writes.find?_of_notMem {p : Plan} (valid : a.validated p = .ok docs)
    (writes : a.Writes p.id c written d) (isPrefix : written.map Prod.fst <+: docs)
    (foreign : e ∉ p.entities) : d.find? (a.key e.1 e.2) = c.find? (a.key e.1 e.2) := by
  apply writes.find?_of_ne
  intro w member same
  have isDocument : w.1 ∈ docs := isPrefix.subset (List.mem_map.mpr ⟨w, member, rfl⟩)
  have sameEntity : e = w.1.entity := key_injective same
  exact foreign (sameEntity ▸ entity_mem_of_validated valid isDocument)

/-! ## Deleting -/

/-- The documents of another plan are not doomed when a plan is deleted below which every document
names it. -/
theorem Doomed.owner {n : Node} (doomed : a.Doomed c id e) (own : a.OwnTree c id)
    (isNode : a.node? c e = some n) : n.owner = id := by
  rcases doomed with ⟨_, below⟩ | ⟨_, _, m, isAlso, owned⟩
  · exact own e n below isNode
  · rw [← owned, Option.some.inj (isAlso.symm.trans isNode)]

/-- A child of another plan is not doomed either, and no child changes the plan that it names. -/
theorem delete_names_iff {other : Uuid} (laidOut : a.LaidOut s.contents)
    (own : a.OwnTree s.contents id) (different : other ≠ id) :
    a.Names (a.delete id s).2.contents other e ↔ a.Names s.contents other e := by
  rcases delete_only id laidOut (a.key e.1 e.2) with same | ⟨gone, f, doomed, isKey⟩
  · rw [Names, Names, node?_congr same]
  · constructor
    · intro ⟨_, n, isNode, _⟩
      exact absurd gone (stored_of_node? isNode)
    · intro ⟨_, n, isNode, named⟩
      rw [← key_injective isKey] at doomed
      exact absurd (named.symm.trans (doomed.owner own isNode)) different

/-- Deleting a plan leaves the complete trees of all other plans as they are when every document
below it names it, whether the deletion comes to its end or not. -/
theorem delete_keeps_tree {other : Uuid} (laidOut : a.LaidOut s.contents)
    (own : a.OwnTree s.contents id) (different : other ≠ id)
    (complete : a.CompleteTree s.contents other) :
    a.SameBelow s.contents (a.delete id s).2.contents (.plan, other) := by
  intro e below
  rcases delete_only id laidOut (a.key e.1 e.2) with same | ⟨_, f, doomed, isKey⟩
  · exact same
  · exfalso
    obtain ⟨n, isNode, _, owned⟩ := complete.present e below
    rw [← key_injective isKey] at doomed
    exact different (owned.symm.trans (doomed.owner own isNode))

end Archive

end PlanArchive
