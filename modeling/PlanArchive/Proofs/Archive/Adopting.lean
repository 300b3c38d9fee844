import PlanArchive.Proofs.Archive.Documents
import PlanArchive.Proofs.Archive.Updating
import PlanArchive.Proofs.Document.Restating
import PlanArchive.Proofs.Plan.States

/-!
# Progress of a plan in memory

A plan adopts the progress of one of its entities when that is changed in memory: the state, and of
the plan itself the submission time and the failure reason. Its documents are then the documents
from before with the fields of that progress set in one of them (`documents_adopt`), which is what
an update does to the stored ones.
-/

namespace PlanArchive

/-- Takes over the state of an entity. -/
def Entity.adopting (x : Entity) : StateChange :=
  fun kind id state => if (kind, id) = x.ref then x.state else state

/-- The plan with the progress of one of its entities taken over. -/
def Plan.adopt (p : Plan) (x : Entity) : Plan :=
  let q := p.mapStates x.adopting
  match x with
  | .plan y => { q with submitTime := y.submitTime, reason := y.reason }
  | _ => q

namespace PendingDocument

/-- The document with the progress of its entity written into it. -/
def advance (e : EntityRef) (progress : Progress) (p : PendingDocument) : PendingDocument :=
  if p.entity = e then
    match p.doc with
    | .obj members => { p with doc := .obj (Patch.apply progress.fields members) }
    | _ => p
  else p

theorem advance_of_ne {e : EntityRef} {p : PendingDocument} (progress : Progress)
    (other : p.entity ≠ e) : p.advance e progress = p := if_neg other

theorem advance_of_eq {e : EntityRef} {p : PendingDocument} {members : List (String × Json)}
    (progress : Progress) (isOwn : p.entity = e) (isObject : p.doc = .obj members) :
    p.advance e progress = { p with doc := .obj (Patch.apply progress.fields members) } := by
  rw [advance, if_pos isOwn, isObject]

/-- The document of an entity advances with its progress. -/
theorem advance_of_document {kind : EntityKind} (id : Uuid) {progress : Progress} {d : Document}
    (isKind : d.kind = kind) (isOf : progress.IsOf kind) :
    advance (kind, id) progress ⟨kind, id, d.toJson⟩ = ⟨kind, id, (d.advance progress).toJson⟩ := by
  have isOwn : (⟨kind, id, d.toJson⟩ : PendingDocument).entity = (kind, id) := rfl
  rw [advance, if_pos isOwn]
  simp only [d.toJson_eq, (d.advance progress).toJson_eq, Document.apply_progress (isKind ▸ isOf)]

end PendingDocument

namespace Archive

variable {a : Archive} {planId : Uuid} {docs : List PendingDocument} {x : Entity}
  {progress : Progress}

/-! ## Level by level -/

/-- The document of an entity below a plan, which has its state for itself, advances when the state
of its entity is taken over. -/
theorem ofEncoded_adopting {δ : Type} {kind : EntityKind} {id : Uuid} {toJson : δ → Json}
    (wrap : δ → Document) (isWrapped : ∀ d, (wrap d).toJson = toJson d ∧ (wrap d).kind = kind)
    (isChild : kind ≠ .plan) (encode : State → Except FieldError δ) (state : State)
    (withState : ∀ d other r, encode state = .ok d → StateRecord.encode other = .ok r →
      ∃ e, encode other = .ok e ∧ wrap e = (wrap d).mapState fun _ => r)
    (encoded : x.progress = .ok progress) {p : PendingDocument}
    (made : PendingDocument.ofEncoded kind id toJson (encode state) = .ok p) :
    PendingDocument.ofEncoded kind id toJson (encode (x.adopting kind id state)) =
      .ok (p.advance x.ref progress) := by
  obtain ⟨d, isEncoded, rfl⟩ := ofEncoded_eq_ok.mp made
  by_cases isOwn : (kind, id) = x.ref
  · have isKind : x.kind = kind := (congrArg Prod.fst isOwn).symm
    have isOf := isKind ▸ Entity.isOf_of_progress encoded
    obtain ⟨r, stateEncoded, rfl⟩ := (Entity.progress_of_child (isKind ▸ isChild)).mp encoded
    obtain ⟨e, otherEncoded, advanced⟩ := withState d x.state r isEncoded stateEncoded
    have isAdvanced : (wrap d).advance ⟨r, none⟩ = wrap e := by
      rw [advanced]
      cases wrap d <;> rfl
    rw [Entity.adopting, if_pos isOwn, ← isOwn, ← (isWrapped d).1,
      PendingDocument.advance_of_document id (isWrapped d).2 isOf, isAdvanced, (isWrapped e).1]
    exact ofEncoded_eq_ok.mpr ⟨e, otherEncoded, rfl⟩
  · have other : (⟨kind, id, toJson d⟩ : PendingDocument).entity ≠ x.ref := isOwn
    rw [Entity.adopting, if_neg isOwn, PendingDocument.advance_of_ne progress other]
    exact made

theorem actionDocuments_adopting {actions : List Action} (encoded : x.progress = .ok progress)
    (made : a.actionDocuments planId actions = .ok docs) :
    a.actionDocuments planId (actions.map (Action.mapState x.adopting)) =
      .ok (docs.map (PendingDocument.advance x.ref progress)) := by
  refine Except.mapM_numbered_map ?_ made
  intro y _ position p isMade
  exact ofEncoded_adopting .action (fun _ => ⟨rfl, rfl⟩) (by decide)
    (fun state => ActionDocument.encode a.part planId position { y with state := state }) y.state
    (fun _ _ _ isEncoded stateEncoded =>
      ⟨_, ActionDocument.encode_withState isEncoded stateEncoded, rfl⟩) encoded isMade

theorem checksDocuments_adopting {c : Checks} (encoded : x.progress = .ok progress)
    (made : a.checksDocuments planId c = .ok docs) :
    a.checksDocuments planId (c.mapStates x.adopting) =
      .ok (docs.map (PendingDocument.advance x.ref progress)) := by
  simp only [checksDocuments, ChecksDocument.encode_mapStates, Except.bind_eq_ok, pure, Except.pure,
    Except.ok.injEq] at made ⊢
  obtain ⟨actions, actionsMade, own, ownMade, rfl⟩ := made
  refine ⟨_, actionDocuments_adopting encoded actionsMade, own.advance x.ref progress, ?_,
    by simp⟩
  exact ofEncoded_adopting .checks (fun _ => ⟨rfl, rfl⟩) (by decide)
    (fun state => ChecksDocument.encode a.part planId { c with state := state }) c.state
    (fun _ _ _ isEncoded stateEncoded =>
      ⟨_, ChecksDocument.encode_withState isEncoded stateEncoded, rfl⟩) encoded ownMade

theorem sequenceDocuments_adopting {position : Nat} {q : Sequence}
    (encoded : x.progress = .ok progress)
    (made : a.sequenceDocuments planId position q = .ok docs) :
    a.sequenceDocuments planId position (q.mapStates x.adopting) =
      .ok (docs.map (PendingDocument.advance x.ref progress)) := by
  simp only [sequenceDocuments, SequenceDocument.encode_mapStates, Except.bind_eq_ok, pure,
    Except.pure, Except.ok.injEq] at made ⊢
  obtain ⟨actions, actionsMade, own, ownMade, rfl⟩ := made
  refine ⟨_, actionDocuments_adopting encoded actionsMade, own.advance x.ref progress, ?_,
    by simp⟩
  exact ofEncoded_adopting .sequence (fun _ => ⟨rfl, rfl⟩) (by decide)
    (fun state => SequenceDocument.encode a.part planId position { q with state := state }) q.state
    (fun _ _ _ isEncoded stateEncoded =>
      ⟨_, SequenceDocument.encode_withState isEncoded stateEncoded, rfl⟩) encoded ownMade

theorem slotDocuments_adopting {checks : Slots (Option Checks)}
    {lists : List (List PendingDocument)} (encoded : x.progress = .ok progress)
    (made : checks.present.mapM (a.checksDocuments planId) = .ok lists) :
    (checks.map (Option.map (Checks.mapStates x.adopting))).present.mapM
        (a.checksDocuments planId) =
      .ok (lists.map (List.map (PendingDocument.advance x.ref progress))) := by
  rw [Slots.present_map, List.mapM_map]
  exact Except.mapM_map_results (fun _ _ _ own => checksDocuments_adopting encoded own) made

theorem blockDocuments_adopting {position : Nat} {b : Block} (encoded : x.progress = .ok progress)
    (made : a.blockDocuments planId position b = .ok docs) :
    a.blockDocuments planId position (b.mapStates x.adopting) =
      .ok (docs.map (PendingDocument.advance x.ref progress)) := by
  simp only [blockDocuments, BlockDocument.encode_mapStates, Except.bind_eq_ok, pure,
    Except.pure, Except.ok.injEq] at made ⊢
  obtain ⟨checks, checksMade, sequences, sequencesMade, own, ownMade, rfl⟩ := made
  refine ⟨_, slotDocuments_adopting encoded checksMade, _, Except.mapM_numbered_map
    (fun _ _ _ _ own => sequenceDocuments_adopting encoded own) sequencesMade,
    own.advance x.ref progress, ?_, by simp [List.map_flatten]⟩
  exact ofEncoded_adopting .block (fun _ => ⟨rfl, rfl⟩) (by decide)
    (fun state => BlockDocument.encode a.part planId position { b with state := state }) b.state
    (fun _ _ _ isEncoded stateEncoded =>
      ⟨_, BlockDocument.encode_withState isEncoded stateEncoded, rfl⟩) encoded ownMade

/-- The document of a plan advances when the progress of a plan is taken over. -/
theorem encode_advance {part : String} {p y : Plan} {d : PlanDocument}
    (encoded : PlanDocument.encode part p = .ok d)
    (written : (Entity.plan y).progress = .ok progress) :
    ∃ e, PlanDocument.encode part
        { p with submitTime := y.submitTime, reason := y.reason, state := y.state } = .ok e ∧
      (Document.plan d).advance progress = .plan e := by
  simp only [Entity.progress, Except.bind_eq_ok, pure, Except.pure, Except.ok.injEq] at written
  obtain ⟨submitTime, timeEncoded, r, stateEncoded, rfl⟩ := written
  exact ⟨_, PlanDocument.encode_withState
    (PlanDocument.encode_withSubmission y.reason encoded timeEncoded) stateEncoded, rfl⟩

theorem ofEncoded_adopt {p : Plan} {own : PendingDocument} (isEntity : x.ref ∈ p.entities)
    (encoded : x.progress = .ok progress)
    (made : PendingDocument.ofEncoded .plan p.id PlanDocument.toJson
      (PlanDocument.encode a.part p) = .ok own) :
    PendingDocument.ofEncoded .plan p.id PlanDocument.toJson
      (PlanDocument.encode a.part (p.adopt x)) = .ok (own.advance x.ref progress) := by
  obtain ⟨d, isEncoded, rfl⟩ := ofEncoded_eq_ok.mp made
  by_cases isPlan : x.kind = .plan
  · have isOf := isPlan ▸ Entity.isOf_of_progress encoded
    cases x with
    | plan y =>
      have sameId : y.id = p.id := Plan.eq_id_of_mem_entities isEntity
      have isRef : (Entity.plan y).ref = (.plan, p.id) := congrArg (Prod.mk _) sameId
      have adopted : PlanDocument.encode a.part (p.adopt (.plan y)) = PlanDocument.encode a.part
          { p with submitTime := y.submitTime, reason := y.reason, state := y.state } := by
        have isChange : p.adopt (.plan y) = ({ p with
            submitTime := y.submitTime, reason := y.reason }).mapStates
              (Entity.plan y).adopting := rfl
        rw [isChange, PlanDocument.encode_mapStates]
        simp only [Entity.adopting, isRef, if_true]
        rfl
      obtain ⟨e, advanced, isAdvance⟩ := encode_advance isEncoded encoded
      have advances := PendingDocument.advance_of_document p.id (d := .plan d) rfl isOf
      rw [isAdvance] at advances
      rw [isRef]
      exact (ofEncoded_eq_ok.mpr ⟨e, adopted.trans advanced, rfl⟩).trans
        (congrArg Except.ok advances.symm)
    | _ => cases isPlan
  · have other : (⟨.plan, p.id, d.toJson⟩ : PendingDocument).entity ≠ x.ref :=
      fun same => isPlan (congrArg Prod.fst same).symm
    have unchanged : PlanDocument.encode a.part (p.adopt x) = PlanDocument.encode a.part p := by
      have isChange : p.adopt x = p.mapStates x.adopting := by
        cases x with
        | plan y => exact absurd rfl isPlan
        | _ => rfl
      have keeps : x.adopting .plan p.id p.state = p.state := if_neg other
      rw [isChange, PlanDocument.encode_mapStates, keeps]
    rw [PendingDocument.advance_of_ne progress other, unchanged]
    exact made

/-- The documents of a plan that takes over the progress of one of its entities are those from
before, with that progress written into one of them. -/
theorem documents_adopt {p : Plan} (isEntity : x.ref ∈ p.entities)
    (encoded : x.progress = .ok progress) (made : a.documents p = .ok docs) :
    a.documents (p.adopt x) = .ok (docs.map (PendingDocument.advance x.ref progress)) := by
  have sameId : (p.adopt x).id = p.id := by cases x <;> rfl
  have checksAre :
      (p.adopt x).checks = p.checks.map (Option.map (Checks.mapStates x.adopting)) := by
    cases x <;> rfl
  have blocksAre : (p.adopt x).blocks = p.blocks.map (Block.mapStates x.adopting) := by
    cases x <;> rfl
  simp only [documents, sameId, checksAre, blocksAre, Except.bind_eq_ok, pure, Except.pure,
    Except.ok.injEq] at made ⊢
  obtain ⟨checks, checksMade, blocks, blocksMade, own, ownMade, rfl⟩ := made
  exact ⟨_, slotDocuments_adopting encoded checksMade, _, Except.mapM_numbered_map
    (fun _ _ _ _ own => blockDocuments_adopting encoded own) blocksMade, _,
    ofEncoded_adopt isEntity encoded ownMade, by simp [List.map_flatten]⟩

end Archive

end PlanArchive
