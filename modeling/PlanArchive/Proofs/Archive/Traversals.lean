import PlanArchive.Proofs.Archive.Forest
import PlanArchive.Proofs.Archive.RoundTrip
import PlanArchive.Proofs.Plan.Visiting

/-!
# One order for every traversal

The entities of a plan, the visit of their states and the documents that are written for it come
from three traversals of their own. All three go through `Plan.sites`: each visited entity and each
document is that of the site at the same place (`traversals_agree`). A document is that of its site
also in what it says: whose it is, at which index of its parent's list, and which children it refers
to in which slot.
-/

namespace PlanArchive

/-! ## What the document of a site says -/

/-- The index in the list of the parent that a step leads to; none for a slot. -/
def PathStep.index? : PathStep → Option Nat
  | .checks _ => none
  | .block index => some index
  | .sequence index => some index
  | .action index => some index

/-- The index of the entity of a site in the list of its parent. -/
def Site.index? (s : Site) : Option Nat := s.path.getLast?.bind PathStep.index?

namespace Entity

/-- The checks that an entity has in slots. -/
def slots : Entity → Slots (Option Checks)
  | .plan p => p.checks
  | .block b => b.checks
  | _ => .fill none

/-- The identifiers of the children that an entity has in its list. -/
def listed : Entity → List Uuid
  | .plan p => p.blocks.map Block.id
  | .block b => b.sequences.map Sequence.id
  | .checks c => c.actions.map Action.id
  | .sequence q => q.actions.map Action.id
  | .action _ => []

end Entity

namespace Document

/-- The index that a document has a field for. -/
def position? : Document → Option Int64
  | .plan _ => none
  | .block d => some d.position
  | .checks _ => none
  | .sequence d => some d.position
  | .action d => some d.position

/-- The list of children that a document has a field for. -/
def listed : Document → List Uuid
  | .plan d => d.blocks
  | .block d => d.sequences
  | .checks d => d.actions
  | .sequence d => d.actions
  | .action _ => []

/-- A document of a plan is that of the entity at a site. -/
structure IsOf (d : Document) (planId : Uuid) (s : Site) : Prop where
  entity : d.entity = s.ref
  owner : d.node.owner = planId
  position : d.position?.map Int64.toInt = s.index?.map Int.ofNat
  slots : ∀ slot, d.refs.get slot = Field.encodeId ((s.entity.slots.get slot).map Checks.id)
  listed : d.listed = s.entity.listed

theorem IsOf.below {d : Document} {planId : Uuid} {s : Site} (isOf : d.IsOf planId s)
    (notRoot : s.path ≠ []) (step : PathStep) : d.IsOf planId (s.below step) where
  entity := isOf.entity
  owner := isOf.owner
  position := by
    rw [isOf.position, Site.index?, Site.index?, Site.below, List.getLast?_cons_of_ne_nil notRoot]
  slots := isOf.slots
  listed := isOf.listed

end Document

theorem CheckRefs.get_encode (checks : Slots (Option Checks)) (slot : Slot) :
    (encode checks).get slot = Field.encodeId ((checks.get slot).map Checks.id) := by
  cases slot <;> rfl

/-- Documents that are those of sites, one for each, in order. -/
def Described (planId : Uuid) (sites : List Site) (docs : List PendingDocument) : Prop :=
  List.Forall₂ (fun s q => ∃ d, q = .ofDocument d ∧ d.IsOf planId s) sites docs

namespace Described

variable {planId : Uuid} {sites others : List Site} {docs more : List PendingDocument}

theorem append (described : Described planId sites docs) (rest : Described planId others more) :
    Described planId (sites ++ others) (docs ++ more) :=
  List.rel_append described rest

theorem single {s : Site} {d : Document} (isOf : d.IsOf planId s) :
    Described planId [s] [.ofDocument d] :=
  .cons ⟨d, rfl, isOf⟩ .nil

theorem below (described : Described planId sites docs) (notRoot : ∀ s ∈ sites, s.path ≠ [])
    (step : PathStep) : Described planId (sites.map (Site.below step)) docs := by
  induction described with
  | nil => exact .nil
  | cons isFirst _ inductionHypothesis =>
    obtain ⟨d, isPending, isOf⟩ := isFirst
    obtain ⟨firstNotRoot, restNotRoot⟩ := List.forall_mem_cons.mp notRoot
    exact .cons ⟨d, isPending, isOf.below firstNotRoot step⟩ (inductionHypothesis restNotRoot)

theorem path_ne_nil_of_branches {branches : List Branch} :
    ∀ s ∈ Branch.sites branches, s.path ≠ [] := by
  intro s member
  obtain ⟨branch, _, isBelow⟩ := List.mem_flatMap.mp member
  obtain ⟨_, _, rfl⟩ := List.mem_map.mp isBelow
  exact List.cons_ne_nil _ _

/-- The documents of an entity that is one step below another. -/
theorem under {branches : List Branch} {own : Entity} {step : PathStep} {d : Document}
    (children : Described planId (Branch.sites branches) docs)
    (isOf : d.IsOf planId ⟨[step], own⟩) :
    Described planId ((Site.under branches own).map (Site.below step))
      (docs ++ [.ofDocument d]) := by
  rw [Site.under, List.map_append]
  exact (children.below path_ne_nil_of_branches step).append (single isOf)

end Described

/-! ## The documents level by level -/

namespace Archive

variable {a : Archive} {planId : Uuid} {docs : List PendingDocument}

/-- What is listed for items one by one is listed for their branches. -/
theorem described_numbered {α : Type} {step : Nat → PathStep} {sites : α → List Site}
    {docsOf : α × Nat → Except ArchiveError (List PendingDocument)} {items : List α}
    {lists : List (List PendingDocument)}
    (each : ∀ x index own, docsOf (x, index) = .ok own →
      Described planId ((sites x).map (Site.below (step index))) own)
    (encoded : items.zipIdx.mapM docsOf = .ok lists) :
    Described planId (Branch.sites (Branch.numbered step sites items)) lists.flatten := by
  rw [Branch.sites, Branch.numbered, List.flatMap_map, List.flatMap_def]
  refine List.rel_flatten (List.forall₂_map_left_iff.mpr ?_)
  exact (Except.mapM_eq_ok.mp encoded).imp fun x own made => each x.1 x.2 own made

theorem described_actionDocuments {actions : List Action}
    (encoded : a.actionDocuments planId actions = .ok docs) :
    Described planId (Branch.sites (Branch.numbered .action Action.sites actions)) docs := by
  have listed : Branch.sites (Branch.numbered .action Action.sites actions) =
      actions.zipIdx.map fun x => ⟨[.action x.2], .action x.1⟩ := by
    rw [Branch.sites, Branch.numbered, List.flatMap_map]
    exact List.map_eq_flatMap.symm
  rw [listed]
  refine List.forall₂_map_left_iff.mpr ((Except.mapM_eq_ok.mp encoded).imp fun x q made => ?_)
  obtain ⟨d, isEncoded, rfl⟩ := ofEncoded_eq_ok.mp made
  obtain ⟨sameId, samePlan⟩ := ActionDocument.references_of_encode isEncoded
  refine ⟨.action d, by rw [← sameId]; rfl, ?_⟩
  exact {
    entity := congrArg (EntityKind.action, ·) sameId
    owner := samePlan
    position := congrArg some (ActionDocument.position_of_encode isEncoded)
    slots := fun slot => by cases slot <;> rfl
    listed := rfl }

theorem described_checksDocuments {c : Checks} (encoded : a.checksDocuments planId c = .ok docs)
    (slot : Slot) : Described planId (c.sites.map (Site.below (.checks slot))) docs := by
  obtain ⟨actions, d, actionsEncoded, isEncoded, rfl⟩ := checksDocuments_eq_ok encoded
  obtain ⟨sameId, samePlan, sameActions⟩ := ChecksDocument.references_of_encode isEncoded
  have isOf : (Document.checks d).IsOf planId ⟨[.checks slot], .checks c⟩ := {
    entity := congrArg (EntityKind.checks, ·) sameId
    owner := samePlan
    position := rfl
    slots := fun slot => by cases slot <;> rfl
    listed := sameActions }
  rw [← sameId]
  exact (described_actionDocuments actionsEncoded).under isOf

theorem described_sequenceDocuments {position : Nat} {q : Sequence}
    (encoded : a.sequenceDocuments planId position q = .ok docs) :
    Described planId (q.sites.map (Site.below (.sequence position))) docs := by
  obtain ⟨actions, d, actionsEncoded, isEncoded, rfl⟩ := sequenceDocuments_eq_ok encoded
  obtain ⟨sameId, samePlan, sameActions⟩ := SequenceDocument.references_of_encode isEncoded
  have isOf : (Document.sequence d).IsOf planId ⟨[.sequence position], .sequence q⟩ := {
    entity := congrArg (EntityKind.sequence, ·) sameId
    owner := samePlan
    position := congrArg some (SequenceDocument.position_of_encode isEncoded)
    slots := fun slot => by cases slot <;> rfl
    listed := sameActions }
  rw [← sameId]
  exact (described_actionDocuments actionsEncoded).under isOf

theorem described_slots {slots : Slots (Option Checks)} {lists : List (List PendingDocument)}
    (encoded : slots.present.mapM (a.checksDocuments planId) = .ok lists) :
    Described planId (Branch.sites slots.branches) lists.flatten := by
  rw [← Slots.map_snd_occupied, List.mapM_map] at encoded
  rw [Branch.sites, Slots.branches, List.flatMap_map, List.flatMap_def]
  refine List.rel_flatten (List.forall₂_map_left_iff.mpr ?_)
  exact (Except.mapM_eq_ok.mp encoded).imp fun entry own made =>
    described_checksDocuments made entry.1

/-- The documents of checks in slots and of the items of a list after them. -/
theorem described_branches {α : Type} {step : Nat → PathStep} {sites : α → List Site}
    {docsOf : α × Nat → Except ArchiveError (List PendingDocument)} {items : List α}
    {slots : Slots (Option Checks)} {checks lists : List (List PendingDocument)}
    (checksEncoded : slots.present.mapM (a.checksDocuments planId) = .ok checks)
    (each : ∀ x index own, docsOf (x, index) = .ok own →
      Described planId ((sites x).map (Site.below (step index))) own)
    (encoded : items.zipIdx.mapM docsOf = .ok lists) :
    Described planId (Branch.sites (slots.branches ++ Branch.numbered step sites items))
      (checks.flatten ++ lists.flatten) := by
  rw [Branch.sites_append]
  exact (described_slots checksEncoded).append (described_numbered each encoded)

theorem described_blockDocuments {position : Nat} {b : Block}
    (encoded : a.blockDocuments planId position b = .ok docs) :
    Described planId (b.sites.map (Site.below (.block position))) docs := by
  obtain ⟨checks, sequences, d, checksEncoded, sequencesEncoded, isEncoded, rfl⟩ :=
    blockDocuments_eq_ok encoded
  obtain ⟨sameId, samePlan, sameChecks, sameSequences⟩ :=
    BlockDocument.references_of_encode isEncoded
  have isOf : (Document.block d).IsOf planId ⟨[.block position], .block b⟩ := {
    entity := congrArg (EntityKind.block, ·) sameId
    owner := samePlan
    position := congrArg some (BlockDocument.position_of_encode isEncoded)
    slots := fun slot => by
      rw [Document.refs, sameChecks]
      exact CheckRefs.get_encode b.checks slot
    listed := sameSequences }
  have children := described_branches checksEncoded
    (fun _ _ _ made => described_sequenceDocuments made) sequencesEncoded
  rw [← sameId]
  exact children.under isOf

/-- Every document of a plan is that of the site at its place. -/
theorem described_documents {p : Plan} (encoded : a.documents p = .ok docs) :
    Described p.id p.sites docs := by
  obtain ⟨checks, blocks, d, checksEncoded, blocksEncoded, isEncoded, rfl⟩ :=
    documents_eq_ok encoded
  obtain ⟨sameId, sameChecks, sameBlocks⟩ := PlanDocument.references_of_encode isEncoded
  have isOf : (Document.plan d).IsOf p.id ⟨[], .plan p⟩ := {
    entity := congrArg (EntityKind.plan, ·) sameId
    owner := sameId
    position := rfl
    slots := fun slot => by
      rw [Document.refs, sameChecks]
      exact CheckRefs.get_encode p.checks slot
    listed := sameBlocks }
  have children := described_branches checksEncoded
    (fun _ _ _ made => described_blockDocuments made) blocksEncoded
  have own : PendingDocument.ofDocument (.plan d) = ⟨.plan, p.id, d.toJson⟩ := by
    rw [← sameId]
    rfl
  rw [← own]
  exact children.append (.single isOf)

/-- All traversals of a plan go through its sites: the entities of the plan at all its paths, each
behind all that is below it, and the plan last. The listing of the entities names the entity of
every site. A visit of the states, whatever the visitor does, calls it with the entity of one site
after the other and puts its answers in the places of the states; the visits that replace states
by a function are of this kind. The documents that are written for a plan, if it can be encoded,
are those of the sites: one for each, of its kind and identifier, owned by the plan, with its index
in the list of its parent and the identifiers of its children, in order and slot by slot. -/
theorem traversals_agree (a : Archive) (p : Plan) :
    (∀ path e, ⟨path, e⟩ ∈ p.sites ↔ p.at? path = some e) ∧
    ChildrenFirst p.sites ∧ p.sites.getLast? = some ⟨[], .plan p⟩ ∧
    p.sites.map Site.ref = p.entities ∧
    (∀ (m : Type → Type) [Monad m] [LawfulMonad m] (visit : Visitor m),
      Plan.states <$> p.visitStates visit =
        (p.sites.map Site.entityState).mapM (EntityState.visit visit)) ∧
    (∀ (μ : Type) (visit : Visitor (StateM μ)) calls memory,
      ((p.visitStates visit.recorded).run (calls, memory)).2.1 = calls ++ p.entities) ∧
    (∀ f : StateChange, (p.visitStates (m := Id) f.visitor).run = p.mapStates f) ∧
    ∀ docs, a.documents p = .ok docs →
      docs.map PendingDocument.entity = p.entities ∧ Described p.id p.sites docs := by
  refine ⟨fun _ _ => Plan.mem_sites_iff, p.childrenFirst_sites, p.getLast?_sites, p.map_ref_sites,
    fun m _ _ visit => ?_, fun μ visit => p.calls_visitStates visit, fun f => ?_,
    fun docs encoded => ⟨entities_of_documents encoded, described_documents encoded⟩⟩
  · rw [p.map_entityState_sites]
    exact p.states_visitStates
  · rw [p.visitStates_pure f]
    rfl

/-- A plan with the same sequence twice, whose identifiers therefore do not tell its entities
apart. -/
def twinPlan : Plan :=
  { demoPlan with
    blocks := demoPlan.blocks.map fun b => { b with sequences := b.sequences ++ b.sequences } }

/-- A visitor that numbers the states by giving each the next token. -/
def minting : Visitor (StateM Nat) := fun _ _ state => do
  let serial ← get
  set (serial + 1)
  return { state with token := some (.minted serial) }

/-- The entities of the two sequences differ only in their paths, and their documents only in the
positions. -/
theorem traversals_agree_twinPlan :
    twinPlan.sites.map Site.path =
      [[.checks .pre], [.block 0, .sequence 0, .action 0], [.block 0, .sequence 0],
        [.block 0, .sequence 1, .action 0], [.block 0, .sequence 1], [.block 0], []] ∧
    Plan.states <$> twinPlan.visitStates minting =
      (twinPlan.sites.map Site.entityState).mapM (EntityState.visit minting) ∧
    ∃ docs, demo.documents twinPlan = .ok docs ∧
      docs.map PendingDocument.entity = twinPlan.entities ∧
      Described twinPlan.id twinPlan.sites docs := by
  obtain ⟨docs, encoded⟩ : ∃ docs, demo.documents twinPlan = .ok docs :=
    Except.exists_of_isOk (by decide +kernel)
  obtain ⟨_, _, _, _, visited, _, _, described⟩ := traversals_agree demo twinPlan
  exact ⟨by decide, visited (StateM Nat) minting, docs, encoded, described docs encoded⟩

end Archive

end PlanArchive
