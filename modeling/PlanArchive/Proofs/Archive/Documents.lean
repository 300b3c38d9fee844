import PlanArchive.Archive.Create
import PlanArchive.Proofs.Document.Payload

/-!
# The documents of a plan

What `documents` yields when it succeeds, level by level: the documents of the children in the
order in which they are listed, followed by the document of the entity itself
(`checksDocuments_eq_ok` and its like). The documents stand for exactly the entities of the plan
(`entities_of_documents`), and a plan that passes validation has no identifier twice and none that
is nil (`validated_eq_ok`).
-/

namespace PlanArchive

/-! ## Entities below others -/

theorem Plan.mem_entities_self (p : Plan) : (.plan, p.id) ∈ p.entities :=
  List.mem_append_right _ List.mem_cons_self

theorem Block.checks_mem_entities {b : Block} {c : Checks} (present : c ∈ b.checks.present) :
    (.checks, c.id) ∈ b.entities := by
  apply List.mem_append_left
  apply List.mem_append_left
  exact List.mem_flatMap.mpr ⟨c, present, List.mem_append_right _ List.mem_cons_self⟩

theorem Plan.checks_mem_entities {p : Plan} {c : Checks} (present : c ∈ p.checks.present) :
    (.checks, c.id) ∈ p.entities := by
  apply List.mem_append_left
  apply List.mem_append_left
  exact List.mem_flatMap.mpr ⟨c, present, List.mem_append_right _ List.mem_cons_self⟩

theorem Plan.mem_entities_of_block {p : Plan} {b : Block} {e : EntityRef} (isBlock : b ∈ p.blocks)
    (below : e ∈ b.entities) : e ∈ p.entities := by
  apply List.mem_append_left
  apply List.mem_append_right
  exact List.mem_flatMap.mpr ⟨b, isBlock, below⟩

/-- The only plan among the entities of a plan is the plan itself. -/
theorem Plan.eq_id_of_mem_entities {p : Plan} {id : Uuid} (member : (.plan, id) ∈ p.entities) :
    id = p.id := by
  simpa [entities, Block.entities, Checks.entities, Sequence.entities, Action.entitiesOf]
    using member

namespace Archive

variable {a : Archive} {planId : Uuid}

/-! ## Level by level -/

theorem ofEncoded_eq_ok {δ : Type} {kind : EntityKind} {id : Uuid} {toJson : δ → Json}
    {encoded : Except FieldError δ} {p : PendingDocument} :
    PendingDocument.ofEncoded kind id toJson encoded = .ok p ↔
      ∃ d, encoded = .ok d ∧ ⟨kind, id, toJson d⟩ = p := by
  cases encoded with
  | error e => simp [PendingDocument.ofEncoded]
  | ok d => simp [PendingDocument.ofEncoded]

/-- The documents of actions are those of its members, each at some position. -/
theorem mem_of_actionDocuments {actions : List Action} {docs : List PendingDocument}
    (encoded : a.actionDocuments planId actions = .ok docs) {x : Action} (member : x ∈ actions) :
    ∃ position d, ActionDocument.encode a.part planId position x = .ok d ∧
      ⟨.action, x.id, d.toJson⟩ ∈ docs := by
  obtain ⟨position, p, isPending, made⟩ := Except.mem_of_numbered encoded member
  obtain ⟨d, isEncoded, rfl⟩ := ofEncoded_eq_ok.mp made
  exact ⟨position, d, isEncoded, isPending⟩

theorem checksDocuments_eq_ok {c : Checks} {docs : List PendingDocument}
    (encoded : a.checksDocuments planId c = .ok docs) :
    ∃ actions d, a.actionDocuments planId c.actions = .ok actions ∧
      ChecksDocument.encode a.part planId c = .ok d ∧
      docs = actions ++ [⟨.checks, c.id, d.toJson⟩] := by
  simp only [checksDocuments, Except.bind_eq_ok, ofEncoded_eq_ok, pure, Except.pure,
    Except.ok.injEq] at encoded
  obtain ⟨actions, actionsEncoded, own, ⟨d, isEncoded, rfl⟩, rfl⟩ := encoded
  exact ⟨actions, d, actionsEncoded, isEncoded, rfl⟩

theorem sequenceDocuments_eq_ok {position : Nat} {q : Sequence} {docs : List PendingDocument}
    (encoded : a.sequenceDocuments planId position q = .ok docs) :
    ∃ actions d, a.actionDocuments planId q.actions = .ok actions ∧
      SequenceDocument.encode a.part planId position q = .ok d ∧
      docs = actions ++ [⟨.sequence, q.id, d.toJson⟩] := by
  simp only [sequenceDocuments, Except.bind_eq_ok, ofEncoded_eq_ok, pure, Except.pure,
    Except.ok.injEq] at encoded
  obtain ⟨actions, actionsEncoded, own, ⟨d, isEncoded, rfl⟩, rfl⟩ := encoded
  exact ⟨actions, d, actionsEncoded, isEncoded, rfl⟩

theorem blockDocuments_eq_ok {position : Nat} {b : Block} {docs : List PendingDocument}
    (encoded : a.blockDocuments planId position b = .ok docs) :
    ∃ checks sequences d, b.checks.present.mapM (a.checksDocuments planId) = .ok checks ∧
      b.sequences.zipIdx.mapM (fun (q, position) => a.sequenceDocuments planId position q)
        = .ok sequences ∧
      BlockDocument.encode a.part planId position b = .ok d ∧
      docs = checks.flatten ++ sequences.flatten ++ [⟨.block, b.id, d.toJson⟩] := by
  simp only [blockDocuments, Except.bind_eq_ok, ofEncoded_eq_ok, pure, Except.pure,
    Except.ok.injEq] at encoded
  obtain ⟨checks, checksEncoded, sequences, sequencesEncoded, own, ⟨d, isEncoded, rfl⟩, rfl⟩ :=
    encoded
  exact ⟨checks, sequences, d, checksEncoded, sequencesEncoded, isEncoded, rfl⟩

theorem documents_eq_ok {p : Plan} {docs : List PendingDocument}
    (encoded : a.documents p = .ok docs) :
    ∃ checks blocks d, p.checks.present.mapM (a.checksDocuments p.id) = .ok checks ∧
      p.blocks.zipIdx.mapM (fun (b, position) => a.blockDocuments p.id position b) = .ok blocks ∧
      PlanDocument.encode a.part p = .ok d ∧
      docs = checks.flatten ++ blocks.flatten ++ [⟨.plan, p.id, d.toJson⟩] := by
  simp only [documents, Except.bind_eq_ok, ofEncoded_eq_ok, pure, Except.pure,
    Except.ok.injEq] at encoded
  obtain ⟨checks, checksEncoded, blocks, blocksEncoded, own, ⟨d, isEncoded, rfl⟩, rfl⟩ := encoded
  exact ⟨checks, blocks, d, checksEncoded, blocksEncoded, isEncoded, rfl⟩

/-! ## The entities they stand for -/

theorem entities_of_numbered {α : Type} {items : List α} {results : List (List PendingDocument)}
    {step : α × Nat → Except ArchiveError (List PendingDocument)} {entities : α → List EntityRef}
    (each : ∀ x position docs, step (x, position) = .ok docs →
      docs.map PendingDocument.entity = entities x)
    (mapped : items.zipIdx.mapM step = .ok results) :
    results.flatten.map PendingDocument.entity = items.flatMap entities := by
  apply List.map_flatten_eq_flatMap
  rw [← List.map_zipIdx_fst entities items]
  exact Except.mapM_eq_map (fun x _ docs stepped => each x.1 x.2 docs stepped) mapped

theorem entities_of_actionDocuments {actions : List Action} {docs : List PendingDocument}
    (encoded : a.actionDocuments planId actions = .ok docs) :
    docs.map PendingDocument.entity = Action.entitiesOf actions := by
  have each : ∀ x ∈ actions.zipIdx, ∀ p : PendingDocument,
      PendingDocument.ofEncoded .action x.1.id ActionDocument.toJson
        (ActionDocument.encode a.part planId x.2 x.1) = .ok p →
      p.entity = (EntityKind.action, x.1.id) := by
    intro x _ p made
    obtain ⟨d, _, rfl⟩ := ofEncoded_eq_ok.mp made
    rfl
  rw [Except.mapM_eq_map each encoded]
  exact List.map_zipIdx_fst (fun x => (EntityKind.action, x.id)) actions

theorem entities_of_checksDocuments {c : Checks} {docs : List PendingDocument}
    (encoded : a.checksDocuments planId c = .ok docs) :
    docs.map PendingDocument.entity = c.entities := by
  obtain ⟨actions, d, actionsEncoded, _, rfl⟩ := checksDocuments_eq_ok encoded
  rw [List.map_append, entities_of_actionDocuments actionsEncoded]
  rfl

theorem entities_of_sequenceDocuments {position : Nat} {q : Sequence}
    {docs : List PendingDocument} (encoded : a.sequenceDocuments planId position q = .ok docs) :
    docs.map PendingDocument.entity = q.entities := by
  obtain ⟨actions, d, actionsEncoded, _, rfl⟩ := sequenceDocuments_eq_ok encoded
  rw [List.map_append, entities_of_actionDocuments actionsEncoded]
  rfl

theorem entities_of_slots {checks : List Checks} {docs : List (List PendingDocument)}
    (encoded : checks.mapM (a.checksDocuments planId) = .ok docs) :
    docs.flatten.map PendingDocument.entity = checks.flatMap Checks.entities :=
  List.map_flatten_eq_flatMap
    (Except.mapM_eq_map (fun _ _ _ made => entities_of_checksDocuments made) encoded)

theorem entities_of_blockDocuments {position : Nat} {b : Block} {docs : List PendingDocument}
    (encoded : a.blockDocuments planId position b = .ok docs) :
    docs.map PendingDocument.entity = b.entities := by
  obtain ⟨checks, sequences, d, checksEncoded, sequencesEncoded, _, rfl⟩ :=
    blockDocuments_eq_ok encoded
  have sequenceEntities := entities_of_numbered
    (fun _ _ _ made => entities_of_sequenceDocuments made) sequencesEncoded
  rw [List.map_append, List.map_append, entities_of_slots checksEncoded, sequenceEntities]
  rfl

/-- The documents of a plan stand for its entities, in the order of the plan. -/
theorem entities_of_documents {p : Plan} {docs : List PendingDocument}
    (encoded : a.documents p = .ok docs) : docs.map PendingDocument.entity = p.entities := by
  obtain ⟨checks, blocks, d, checksEncoded, blocksEncoded, _, rfl⟩ := documents_eq_ok encoded
  have blockEntities := entities_of_numbered
    (fun _ _ _ made => entities_of_blockDocuments made) blocksEncoded
  rw [List.map_append, List.map_append, entities_of_slots checksEncoded, blockEntities]
  rfl

theorem mem_entities_iff {p : Plan} {docs : List PendingDocument}
    (encoded : a.documents p = .ok docs) {e : EntityRef} :
    e ∈ p.entities ↔ ∃ q ∈ docs, q.entity = e := by
  rw [← entities_of_documents encoded]
  exact List.mem_map

/-! ## Validation -/

theorem rejectNil_eq_ok {kind : EntityKind} {id : Uuid} :
    rejectNil kind id = .ok () ↔ id.isNil = false := by
  cases isNil : id.isNil with
  | true => simp [rejectNil, isNil]
  | false => simp [rejectNil, isNil]

/-- Identifiers that pass the check are new, pairwise different and not nil. -/
theorem checkIds_eq_ok {seen : List Uuid} {entities : List EntityRef} :
    checkIds seen entities = .ok () ↔
      (∀ e ∈ entities, e.2.isNil = false ∧ e.2 ∉ seen) ∧ (entities.map Prod.snd).Nodup := by
  induction entities generalizing seen with
  | nil => simp [checkIds]
  | cons e rest inductionHypothesis =>
    obtain ⟨kind, id⟩ := e
    rw [checkIds, Except.bind_unit_eq_ok, rejectNil_eq_ok]
    by_cases isSeen : id ∈ seen
    · simp [isSeen]
    · simp only [isSeen, if_false, inductionHypothesis]
      constructor
      · rintro ⟨notNil, each, distinct⟩
        refine ⟨?_, ?_⟩
        · intro e member
          rcases List.mem_cons.mp member with rfl | inRest
          · exact ⟨notNil, isSeen⟩
          · exact ⟨(each e inRest).1, fun old => (each e inRest).2 (List.mem_cons_of_mem _ old)⟩
        · refine List.nodup_cons.mpr ⟨?_, distinct⟩
          intro repeated
          obtain ⟨e, inRest, rfl⟩ := List.mem_map.mp repeated
          exact (each e inRest).2 List.mem_cons_self
      · rintro ⟨each, distinct⟩
        have ⟨notRepeated, restDistinct⟩ := List.nodup_cons.mp distinct
        refine ⟨(each _ List.mem_cons_self).1, ?_, restDistinct⟩
        intro e inRest
        have ⟨notNil, isNew⟩ := each e (List.mem_cons_of_mem _ inRest)
        refine ⟨notNil, ?_⟩
        intro old
        rcases List.mem_cons.mp old with same | older
        · exact notRepeated (List.mem_map.mpr ⟨e, inRest, same⟩)
        · exact isNew older

/-- A plan that passes validation has its documents and identifiers that are pairwise different and
not nil. -/
theorem validated_eq_ok {p : Plan} {docs : List PendingDocument}
    (valid : a.validated p = .ok docs) :
    a.documents p = .ok docs ∧ (∀ e ∈ p.entities, e.2.isNil = false) ∧
      (p.entities.map Prod.snd).Nodup := by
  simp only [validated, Except.bind_unit_eq_ok, checkIds_eq_ok] at valid
  obtain ⟨_, ⟨each, distinct⟩, encoded⟩ := valid
  exact ⟨encoded, fun e member => (each e member).1, distinct⟩

/-- Its documents stand for entities of the plan. -/
theorem entity_mem_of_validated {p : Plan} {docs : List PendingDocument}
    (valid : a.validated p = .ok docs) {q : PendingDocument} (member : q ∈ docs) :
    q.entity ∈ p.entities :=
  (mem_entities_iff (validated_eq_ok valid).1).mpr ⟨q, member, rfl⟩

end Archive

end PlanArchive
