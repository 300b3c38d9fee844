import PlanArchive.Proofs.Archive.Patching
import PlanArchive.Proofs.Document.Encodable

/-!
# What an update comes to

An update writes the progress of an entity: its state, and of a plan also the failure reason and the
submission time. It is refused without a call of the store when the entity has the nil identifier
or points in time that cannot be encoded (`update_refused`), and is otherwise one patch of one
document under the token of the entity (`update_eq`). On a store in memory it leaves the documents
alone and fails, or it sets this progress in the document of the entity (`update_cases`).
-/

namespace PlanArchive

/-! ## Patches of different fields -/

namespace Json

theorem putField_of_notMem {α : Type} {key : String} {fields : List (String × α)}
    (isNew : key ∉ fields.map Prod.fst) (value : α) :
    putField key value fields = fields ++ [(key, value)] := by
  induction fields with
  | nil => rfl
  | cons head rest inductionHypothesis =>
    have ⟨notHead, notInRest⟩ := not_or.mp (mt List.mem_cons.mpr isNew)
    rw [putField, if_neg (Ne.symm notHead), inductionHypothesis notInRest, List.cons_append]

end Json

namespace Patch

/-- The patches that set some fields. -/
def ofFields (fields : List (String × Json)) : List Patch := fields.map fun f => field f.1 f.2

theorem collectOnto_ofFields (earlier : List (String × Json)) {fields : List (String × Json)}
    (targets : ∀ f ∈ fields, (field f.1 f.2).target = .ok f.1)
    (distinct : ((earlier ++ fields).map Prod.fst).Nodup) :
    collectOnto earlier (ofFields fields) = .ok (earlier ++ fields) := by
  induction fields generalizing earlier with
  | nil => rw [List.append_nil]; rfl
  | cons f rest inductionHypothesis =>
    have ⟨isTarget, restTargets⟩ := List.forall_mem_cons.mp targets
    have isNew : f.1 ∉ earlier.map Prod.fst := by
      intro isEarlier
      rw [List.map_append] at distinct
      exact (List.nodup_append.mp distinct).2.2 _ isEarlier _ List.mem_cons_self rfl
    have split : earlier ++ f :: rest = (earlier ++ [f]) ++ rest := by simp
    rw [split] at distinct ⊢
    have step : collectOnto earlier (ofFields (f :: rest)) =
        collectOnto (Json.putField f.1 f.2 earlier) (ofFields rest) := by
      simp only [ofFields, List.map_cons, collectOnto, isTarget]
      rfl
    rw [step, Json.putField_of_notMem isNew, inductionHypothesis _ restTargets distinct]

/-- Patches of different fields set these fields, in order. -/
theorem collect_ofFields {fields : List (String × Json)}
    (targets : ∀ f ∈ fields, (field f.1 f.2).target = .ok f.1)
    (distinct : (fields.map Prod.fst).Nodup) : collect (ofFields fields) = .ok fields :=
  collectOnto_ofFields [] targets distinct

end Patch

/-! ## What an update writes -/

/-- What an update writes of an entity. -/
structure Progress where
  state : StateRecord
  /-- The code of the failure reason and the submission time, of a plan only. -/
  ofPlan : Option (Int64 × Int64)

namespace Progress

/-- The fields that are written. -/
def fields (progress : Progress) : List (String × Json) :=
  progress.state.fields ++
    match progress.ofPlan with
    | some (reason, submitTime) =>
      [(Field.reason, .ofInt64 reason), (Field.submitTime, .ofInt64 submitTime)]
    | none => []

/-- The progress is that of an entity of a kind. -/
def IsOf (progress : Progress) (kind : EntityKind) : Prop :=
  progress.ofPlan.isSome = true ↔ kind = .plan

theorem map_fst_fields {progress : Progress} {kind : EntityKind} (isOf : progress.IsOf kind) :
    progress.fields.map Prod.fst = updatable kind := by
  obtain ⟨state, ofPlan⟩ := progress
  cases ofPlan with
  | none =>
    have isChild : kind ≠ .plan := fun isPlan => nomatch isOf.mpr isPlan
    simp [fields, updatable, isChild, StateRecord.fields]
  | some written =>
    have isPlan : kind = .plan := isOf.mp rfl
    simp [fields, updatable, isPlan, StateRecord.fields]

theorem collect_fields {progress : Progress} {kind : EntityKind} (isOf : progress.IsOf kind) :
    Patch.collect (Patch.ofFields progress.fields) = .ok progress.fields := by
  have names := map_fst_fields isOf
  apply Patch.collect_ofFields
  · intro f member
    exact Archive.target_of_updatable f.2 (names ▸ List.mem_map.mpr ⟨f, member, rfl⟩)
  · rw [names]
    cases kind <;> decide

end Progress

/-- The document with the progress of its entity written into it. -/
def Document.advance (progress : Progress) : Document → Document
  | .plan d =>
    match progress.ofPlan with
    | some (reason, submitTime) =>
      .plan { d with state := progress.state, reason := reason, submitTime := submitTime }
    | none => .plan { d with state := progress.state }
  | d => d.mapState fun _ => progress.state

/-- Setting the fields of the progress of an entity advances its document. -/
theorem Document.apply_progress {progress : Progress} {d : Document} (isOf : progress.IsOf d.kind) :
    Patch.apply progress.fields d.fields = (d.advance progress).fields := by
  obtain ⟨state, ofPlan⟩ := progress
  cases ofPlan with
  | none => cases d <;> rfl
  | some written =>
    cases d with
    | plan d => rfl
    | _ => cases isOf.mp rfl

namespace Entity

/-- The entity of a plan that an entity is. -/
def ref (x : Entity) : EntityRef := (x.kind, x.id)

/-- What an update writes of the entity. -/
def progress : Entity → Except FieldError Progress
  | .plan p => do
    let submitTime ← Field.encodeInstant Field.submitTime p.submitTime
    let state ← StateRecord.encode p.state
    return ⟨state, some (p.reason.code, submitTime)⟩
  | x => do
    let state ← StateRecord.encode x.state
    return ⟨state, none⟩

/-- The points in time that an update of the entity writes can be encoded. -/
def Timely : Entity → Prop
  | .plan p => (∀ t ∈ p.submitTime, t.Encodable) ∧ p.state.Encodable
  | x => x.state.Encodable

theorem exists_progress {x : Entity} : (∃ progress, x.progress = .ok progress) ↔ x.Timely := by
  cases x <;> simp only [progress, Except.exists_ok_bind, Except.exists_ok_pure, and_true,
    exists_and_right, Field.exists_encodeInstant, StateRecord.exists_encode, Timely, state]

theorem isOf_of_progress {x : Entity} {progress : Progress} (encoded : x.progress = .ok progress) :
    progress.IsOf x.kind := by
  cases x <;> simp only [Entity.progress, Except.bind_eq_ok, pure, Except.pure,
    Except.ok.injEq] at encoded
  case plan =>
    obtain ⟨_, _, _, _, rfl⟩ := encoded
    exact iff_of_true rfl rfl
  all_goals
    obtain ⟨_, _, rfl⟩ := encoded
    simp [Progress.IsOf, kind]

theorem progress_of_child {x : Entity} {progress : Progress} (isChild : x.kind ≠ .plan) :
    x.progress = .ok progress ↔
      ∃ r, StateRecord.encode x.state = .ok r ∧ (⟨r, none⟩ : Progress) = progress := by
  cases x with
  | plan p => exact absurd rfl isChild
  | _ => simp only [Entity.progress, Except.bind_eq_ok, pure, Except.pure, Except.ok.injEq]

theorem timely_of_child {x : Entity} (isChild : x.kind ≠ .plan) :
    x.Timely ↔ x.state.Encodable := by
  cases x with
  | plan p => exact absurd rfl isChild
  | _ => rfl

/-- The entity as the revision of a token. -/
def atRevision (x : Entity) (token : VersionToken) : Entity :=
  x.withState { x.state with token := some token }

@[simp] theorem ref_withState (x : Entity) (state : State) : (x.withState state).ref = x.ref := by
  cases x <;> rfl

@[simp] theorem state_withState (x : Entity) (state : State) :
    (x.withState state).state = state := by
  cases x <;> rfl

end Entity

namespace Archive

variable {a : Archive}

/-! ## One patch or none -/

section

variable {σ : Type} [DocumentStore σ] {s : σ} {x : Entity}

/-- The outcome of an update that is one patch. -/
def patched (a : Archive) (x : Entity) (progress : Progress) (s : σ) : Stored σ Entity :=
  match DocumentStore.patch s (a.key x.kind x.id) (Patch.ofFields progress.fields)
    x.state.token with
  | (.ok token, t) => ⟨.ok (), x.atRevision token, t⟩
  | (.error e, t) => ⟨.error (.ofStore .update x.kind x.id e), x, t⟩

theorem update_plan {p : Plan} {submitTime : Int64}
    (encoded : Field.encodeInstant Field.submitTime p.submitTime = .ok submitTime) :
    a.update (.plan p) s = (a.patchState .plan p.id p.state
      [.field Field.reason (.ofInt64 p.reason.code), .field Field.submitTime (.ofInt64 submitTime)]
      s).map fun state => (Entity.plan p).withState state := by
  simp only [update, updatePlan, encoded]
  rfl

/-- Of entities other than plans only the state is written. -/
theorem update_child (isChild : x.kind ≠ .plan) :
    a.update x s = (a.patchState x.kind x.id x.state [] s).map fun state => x.withState state := by
  cases x with
  | plan p => exact absurd rfl isChild
  | _ => rfl

theorem statePatches_of_encode {state : State} {r : StateRecord}
    (encoded : StateRecord.encode state = .ok r) :
    statePatches state = .ok (Patch.ofFields r.fields) := by
  rw [statePatches, encoded]
  rfl

/-- Writing the state of an entity with an identifier, together with more fields, is one patch. -/
theorem patchState_map {progress : Progress} {more : List Patch} (notNil : x.id.isNil = false)
    (encoded : StateRecord.encode x.state = .ok progress.state)
    (all : Patch.ofFields progress.fields = Patch.ofFields progress.state.fields ++ more) :
    (a.patchState x.kind x.id x.state more s).map (fun state => x.withState state) =
      a.patched x progress s := by
  have same : x.withState x.state = x := by cases x <;> rfl
  simp only [patchState, rejectNil, notNil, Bool.false_eq_true, if_false,
    statePatches_of_encode encoded, patched, all]
  cases DocumentStore.patch s (a.key x.kind x.id) (Patch.ofFields progress.state.fields ++ more)
    x.state.token with
  | mk result t =>
    cases result with
    | ok token => rfl
    | error e => simp only [Stored.map, same]

/-- An update of an entity that can be encoded is one patch of its document. -/
theorem update_eq {progress : Progress} (notNil : x.id.isNil = false)
    (encoded : x.progress = .ok progress) : a.update x s = a.patched x progress s := by
  by_cases isPlan : x.kind = .plan
  · cases x with
    | plan p =>
      simp only [Entity.progress, Except.bind_eq_ok, pure, Except.pure, Except.ok.injEq] at encoded
      obtain ⟨submitTime, submitEncoded, r, stateEncoded, rfl⟩ := encoded
      rw [update_plan submitEncoded]
      exact patchState_map (x := .plan p) notNil stateEncoded (List.map_append ..)
    | _ => cases isPlan
  · obtain ⟨r, stateEncoded, rfl⟩ := (Entity.progress_of_child isPlan).mp encoded
    rw [update_child isPlan]
    exact patchState_map notNil stateEncoded (by simp [Progress.fields])

theorem patchState_refused (kind : EntityKind) (id : Uuid) (state : State) (more : List Patch)
    (refused : ¬ (id.isNil = false ∧ state.Encodable)) :
    ∃ cause, a.patchState kind id state more s = ⟨.error (.validation cause), state, s⟩ := by
  cases isNil : id.isNil with
  | true => exact ⟨.nilId kind, by simp only [patchState, rejectNil, isNil, if_true]⟩
  | false =>
    cases encoded : StateRecord.encode state with
    | error e =>
      refine ⟨.unencodable kind id e, ?_⟩
      simp only [patchState, rejectNil, isNil, Bool.false_eq_true, if_false, statePatches, encoded]
      rfl
    | ok r => exact absurd ⟨isNil, StateRecord.exists_encode.mp ⟨r, encoded⟩⟩ refused

/-- An update of any other entity is refused, and nothing changes. -/
theorem update_refused (refused : ¬ (x.id.isNil = false ∧ x.Timely)) :
    ∃ cause, a.update x s = ⟨.error (.validation cause), x, s⟩ := by
  have same : x.withState x.state = x := by cases x <;> rfl
  by_cases isPlan : x.kind = .plan
  · cases x with
    | plan p =>
      cases encoded : Field.encodeInstant Field.submitTime p.submitTime with
      | error e => exact ⟨_, by simp only [update, updatePlan, encoded]; rfl⟩
      | ok submitTime =>
        have inTime := Field.exists_encodeInstant.mp ⟨submitTime, encoded⟩
        obtain ⟨cause, patched⟩ := patchState_refused (a := a) (s := s) .plan p.id p.state
          [.field Field.reason (.ofInt64 p.reason.code),
            .field Field.submitTime (.ofInt64 submitTime)]
          fun ⟨notNil, encodable⟩ => refused ⟨notNil, inTime, encodable⟩
        exact ⟨cause, by rw [update_plan encoded, patched]; rfl⟩
    | _ => cases isPlan
  · rw [Entity.timely_of_child isPlan] at refused
    obtain ⟨cause, patched⟩ := patchState_refused (a := a) (s := s) x.kind x.id x.state [] refused
    exact ⟨cause, by rw [update_child isPlan, patched, Stored.map, same]⟩

/-- An update changes neither the kind nor the identifier of the entity in memory. -/
theorem update_ref (a : Archive) (x : Entity) (s : σ) : (a.update x s).entity.ref = x.ref := by
  by_cases valid : x.id.isNil = false ∧ x.Timely
  · obtain ⟨notNil, inTime⟩ := valid
    obtain ⟨progress, encoded⟩ := Entity.exists_progress.mpr inTime
    rw [update_eq notNil encoded, patched]
    split
    · exact x.ref_withState _
    · rfl
  · obtain ⟨cause, refused⟩ := update_refused (a := a) (s := s) valid
    rw [refused]

end

/-! ## Updates of a store in memory -/

section

variable {s : MemoryStore} {x : Entity}

/-- However writes are let through, an update leaves the documents alone and fails, or it sets the
progress of the entity in a document that is an object. -/
theorem update_cases (a : Archive) (x : Entity) (s : MemoryStore) :
    (∃ e t, a.update x s = ⟨.error e, x, t⟩ ∧ t.contents = s.contents) ∨
    ∃ progress members old token t, x.id.isNil = false ∧ x.progress = .ok progress ∧
      s.contents.find? (a.key x.kind x.id) = some ⟨.obj members, old⟩ ∧
      a.update x s = ⟨.ok (), x.atRevision token, t⟩ ∧
      t.contents = s.contents.put (a.key x.kind x.id)
        ⟨.obj (Patch.apply progress.fields members), token⟩ := by
  by_cases refused : x.id.isNil = false ∧ x.Timely
  · obtain ⟨notNil, inTime⟩ := refused
    obtain ⟨progress, encoded⟩ := Entity.exists_progress.mpr inTime
    have collects := Progress.collect_fields (Entity.isOf_of_progress encoded)
    have patching : DocumentStore.patch s (a.key x.kind x.id) (Patch.ofFields progress.fields)
        x.state.token = s.patch (a.key x.kind x.id) (Patch.ofFields progress.fields)
          x.state.token := rfl
    rw [update_eq notNil encoded, patched, patching]
    rcases s.patch_cases (a.key x.kind x.id) (Patch.ofFields progress.fields) x.state.token with
      ⟨e, t, failed, same⟩ | ⟨fields, members, old, token, t, collected, stored, made, put⟩
    · rw [failed]
      exact .inl ⟨_, t, rfl, same⟩
    · rw [collects] at collected
      cases collected
      rw [made]
      exact .inr ⟨progress, members, old, token, t, notNil, encoded, stored, rfl, put⟩
  · obtain ⟨cause, failed⟩ := update_refused (a := a) (s := s) refused
    exact .inl ⟨_, s, failed, rfl⟩

end

end Archive

end PlanArchive
