import PlanArchive.Proofs.Archive.Documents
import PlanArchive.Proofs.Document.Encodable

/-!
# Which plans are valid

A plan is valid when no entity has the nil identifier, no two have the same one and every entity can
be encoded. Validation succeeds for these plans (`exists_validated`), and whatever it fails with is
a rejection of the input (`rejects_validated`).
-/

namespace PlanArchive

/-- A plan that may be stored. -/
@[mk_iff]
structure Plan.Valid (p : Plan) : Prop where
  notNil : ∀ e ∈ p.entities, e.2.isNil = false
  distinct : (p.entities.map Prod.snd).Nodup
  encodable : p.Encodable

theorem Plan.not_valid_iff (p : Plan) : ¬ p.Valid ↔
    (∃ e ∈ p.entities, e.2.isNil = true) ∨ ¬ (p.entities.map Prod.snd).Nodup ∨
      ¬ p.Encodable := by
  simp only [valid_iff, Classical.not_and_iff_not_or_not, Classical.not_forall]
  simp

/-- A step fails with a rejection of the input only. -/
def Rejects {α : Type} (x : Except ArchiveError α) : Prop :=
  ∀ e, x = .error e → ∃ cause, e = .validation cause

namespace Rejects

variable {α β : Type}

theorem ok (v : α) : Rejects (.ok v) := by
  rintro e ⟨⟩

theorem validation (cause : Rejection) : Rejects (.error (.validation cause) : Except _ α) := by
  rintro e ⟨⟩
  exact ⟨cause, rfl⟩

theorem bind {first : Except ArchiveError α} {next : α → Except ArchiveError β}
    (rejects : Rejects first) (then_ : ∀ v, Rejects (next v)) : Rejects (first >>= next) := by
  intro e failed
  cases first with
  | error other =>
    cases failed
    exact rejects e rfl
  | ok v => exact then_ v e failed

theorem mapM {step : α → Except ArchiveError β} (each : ∀ x, Rejects (step x)) (items : List α) :
    Rejects (items.mapM step) := by
  induction items with
  | nil => exact ok []
  | cons x rest inductionHypothesis =>
    rw [List.mapM_cons]
    exact (each x).bind fun _ => inductionHypothesis.bind fun _ => ok _

end Rejects

namespace Archive

variable {a : Archive} {planId : Uuid}

/-! ## Documents -/

theorem exists_ofEncoded {δ : Type} {kind : EntityKind} {id : Uuid} {toJson : δ → Json}
    {encoded : Except FieldError δ} :
    (∃ q, PendingDocument.ofEncoded kind id toJson encoded = .ok q) ↔ ∃ d, encoded = .ok d := by
  cases encoded with
  | error e => simp [PendingDocument.ofEncoded]
  | ok d => simp [PendingDocument.ofEncoded]

theorem exists_actionDocuments {actions : List Action} :
    (∃ docs, a.actionDocuments planId actions = .ok docs) ↔
      (∀ x ∈ actions, x.Encodable) ∧ FitsPositions actions.length := by
  apply Except.exists_ok_numbered
  intro x position
  exact exists_ofEncoded.trans ActionDocument.exists_encode

theorem exists_checksDocuments {c : Checks} :
    (∃ docs, a.checksDocuments planId c = .ok docs) ↔ c.Encodable := by
  simp only [checksDocuments, Except.exists_ok_bind, Except.exists_ok_pure, and_true,
    exists_and_right, exists_actionDocuments, exists_ofEncoded, ChecksDocument.exists_encode,
    Checks.encodable_iff, and_assoc]

theorem exists_slotDocuments {checks : List Checks} :
    (∃ lists, checks.mapM (a.checksDocuments planId) = .ok lists) ↔ ∀ c ∈ checks, c.Encodable := by
  rw [Except.exists_ok_mapM]
  exact forall₂_congr fun _ _ => exists_checksDocuments

theorem exists_sequenceDocuments {position : Nat} {q : Sequence} :
    (∃ docs, a.sequenceDocuments planId position q = .ok docs) ↔
      q.Encodable ∧ FitsInt64 position := by
  simp only [sequenceDocuments, Except.exists_ok_bind, Except.exists_ok_pure, and_true,
    exists_and_right, exists_actionDocuments, exists_ofEncoded, SequenceDocument.exists_encode,
    Sequence.encodable_iff, and_assoc]
  rw [and_comm (b := q.state.Encodable)]

theorem exists_blockDocuments_iff {position : Nat} {b : Block} :
    (∃ docs, a.blockDocuments planId position b = .ok docs) ↔
      b.Encodable ∧ FitsInt64 position := by
  have sequences : (∃ lists, (b.sequences.zipIdx.mapM fun x =>
      a.sequenceDocuments planId x.2 x.1) = .ok lists) ↔
      (∀ q ∈ b.sequences, q.Encodable) ∧ FitsPositions b.sequences.length :=
    Except.exists_ok_numbered fun q position => exists_sequenceDocuments
  simp only [blockDocuments, Except.exists_ok_bind, Except.exists_ok_pure, and_true,
    exists_and_right, exists_slotDocuments, sequences, exists_ofEncoded,
    BlockDocument.exists_encode, Block.encodable_iff]
  constructor
  · rintro ⟨checks, ⟨each, positions⟩, fits, entrance, exit, state⟩
    exact ⟨⟨checks, each, positions, entrance, exit, state⟩, fits⟩
  · rintro ⟨⟨checks, each, positions, entrance, exit, state⟩, fits⟩
    exact ⟨checks, ⟨each, positions⟩, fits, entrance, exit, state⟩

/-- A plan has documents when it and all below it can be encoded. -/
theorem exists_documents {p : Plan} : (∃ docs, a.documents p = .ok docs) ↔ p.Encodable := by
  have blocks : (∃ lists, (p.blocks.zipIdx.mapM fun x =>
      a.blockDocuments p.id x.2 x.1) = .ok lists) ↔
      (∀ b ∈ p.blocks, b.Encodable) ∧ FitsPositions p.blocks.length :=
    Except.exists_ok_numbered fun b position => exists_blockDocuments_iff
  simp only [documents, Except.exists_ok_bind, Except.exists_ok_pure, and_true, exists_and_right,
    exists_slotDocuments, blocks, exists_ofEncoded, PlanDocument.exists_encode,
    Plan.encodable_iff, and_assoc]

theorem rejects_ofEncoded {δ : Type} (kind : EntityKind) (id : Uuid) (toJson : δ → Json)
    (encoded : Except FieldError δ) :
    Rejects (PendingDocument.ofEncoded kind id toJson encoded) := by
  cases encoded with
  | error e => exact .validation _
  | ok d => exact .ok _

theorem rejects_actionDocuments (actions : List Action) :
    Rejects (a.actionDocuments planId actions) :=
  .mapM (fun _ => rejects_ofEncoded _ _ _ _) _

theorem rejects_checksDocuments (c : Checks) : Rejects (a.checksDocuments planId c) :=
  (rejects_actionDocuments c.actions).bind fun _ =>
    (rejects_ofEncoded _ _ _ _).bind fun _ => .ok _

theorem rejects_sequenceDocuments (position : Nat) (q : Sequence) :
    Rejects (a.sequenceDocuments planId position q) :=
  (rejects_actionDocuments q.actions).bind fun _ =>
    (rejects_ofEncoded _ _ _ _).bind fun _ => .ok _

theorem rejects_blockDocuments (position : Nat) (b : Block) :
    Rejects (a.blockDocuments planId position b) :=
  (Rejects.mapM rejects_checksDocuments _).bind fun _ =>
    (Rejects.mapM (fun _ => rejects_sequenceDocuments _ _) _).bind fun _ =>
      (rejects_ofEncoded _ _ _ _).bind fun _ => .ok _

theorem rejects_documents (p : Plan) : Rejects (a.documents p) :=
  (Rejects.mapM rejects_checksDocuments _).bind fun _ =>
    (Rejects.mapM (fun _ => rejects_blockDocuments _ _) _).bind fun _ =>
      (rejects_ofEncoded _ _ _ _).bind fun _ => .ok _

/-! ## Validation -/

theorem rejects_rejectNil (kind : EntityKind) (id : Uuid) : Rejects (rejectNil kind id) := by
  rw [rejectNil]
  split
  · exact .validation _
  · exact .ok ()

theorem rejects_checkIds (seen : List Uuid) (entities : List EntityRef) :
    Rejects (checkIds seen entities) := by
  induction entities generalizing seen with
  | nil => exact .ok ()
  | cons e rest inductionHypothesis =>
    refine (rejects_rejectNil e.1 e.2).bind fun _ => ?_
    split
    · exact .validation _
    · exact inductionHypothesis _

/-- Validation fails with rejections only. -/
theorem rejects_validated (p : Plan) : Rejects (a.validated p) :=
  (rejects_rejectNil .plan p.id).bind fun _ =>
    (rejects_checkIds [] p.entities).bind fun _ => rejects_documents p

/-- Validation succeeds for valid plans. -/
theorem exists_validated {p : Plan} : (∃ docs, a.validated p = .ok docs) ↔ p.Valid := by
  constructor
  · rintro ⟨docs, valid⟩
    obtain ⟨encoded, notNil, distinct⟩ := validated_eq_ok valid
    exact ⟨notNil, distinct, exists_documents.mp ⟨docs, encoded⟩⟩
  · rintro ⟨notNil, distinct, encodable⟩
    obtain ⟨docs, encoded⟩ := exists_documents.mpr encodable
    have planNotNil : p.id.isNil = false := notNil _ p.mem_entities_self
    refine ⟨docs, ?_⟩
    simp only [validated, Except.bind_unit_eq_ok, rejectNil_eq_ok, checkIds_eq_ok]
    exact ⟨planNotNil, ⟨fun e member => ⟨notNil e member, List.not_mem_nil⟩, distinct⟩, encoded⟩

end Archive

end PlanArchive
