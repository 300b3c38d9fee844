import Mathlib.Data.List.Nodup
import PlanArchive.Proofs.Archive.Interface
import PlanArchive.Proofs.Archive.ReadFrame
import PlanArchive.Proofs.Archive.RoundTrip

/-!
# Where version tokens come from

The archive makes up no tokens. Those that it puts on the entities of a plan are the ones under
which the store wrote their documents (`mem_tokens_of_create`, `token_of_update`) or under which it
keeps them (`current_of_read`).
-/

namespace PlanArchive

/-- The entities of the plan that have tokens, with these. -/
def Plan.tokens (p : Plan) : List (EntityRef × VersionToken) :=
  p.states.filterMap fun x => x.state.token.map (x.entity, ·)

theorem Plan.mem_tokens {p : Plan} {e : EntityRef} {token : VersionToken} :
    (e, token) ∈ p.tokens ↔ ∃ x ∈ p.states, x.entity = e ∧ x.state.token = some token := by
  simp only [tokens, List.mem_filterMap, Option.map_eq_some_iff, Prod.mk.injEq]
  constructor
  · rintro ⟨x, isState, _, hasToken, isEntity, rfl⟩
    exact ⟨x, isState, isEntity, hasToken⟩
  · rintro ⟨x, isState, isEntity, hasToken⟩
    exact ⟨x, isState, token, hasToken, isEntity, rfl⟩

theorem Plan.entity_mem_of_mem_states {p : Plan} {x : EntityState} (isState : x ∈ p.states) :
    x.entity ∈ p.entities := by
  rw [← p.map_entity_states]
  exact List.mem_map.mpr ⟨x, isState, rfl⟩

/-- Entities of a list without repeated identifiers are told apart by these. -/
theorem EntityRef.eq_of_snd {entities : List EntityRef} (distinct : (entities.map Prod.snd).Nodup)
    {e f : EntityRef} (first : e ∈ entities) (second : f ∈ entities) (same : e.2 = f.2) : e = f :=
  List.inj_on_of_nodup_map distinct first second same

/-! ## Steps that succeeded -/

theorem Slots.mem_of_mapM_result {ε α β : Type} {step : Slot → α → Except ε β} {slots : Slots α}
    {results : Slots β} (mapped : slots.mapM step = .ok results) {y : β}
    (isResult : y ∈ results.toList) : ∃ slot x, step slot x = .ok y := by
  simp only [mapM, Except.bind_eq_ok, pure, Except.pure, Except.ok.injEq] at mapped
  obtain ⟨_, bypass, _, pre, _, post, _, cont, _, deferred, rfl⟩ := mapped
  simp only [toList, List.mem_cons, List.not_mem_nil, or_false] at isResult
  rcases isResult with rfl | rfl | rfl | rfl | rfl
  · exact ⟨_, _, bypass⟩
  · exact ⟨_, _, pre⟩
  · exact ⟨_, _, post⟩
  · exact ⟨_, _, cont⟩
  · exact ⟨_, _, deferred⟩

/-! ## Decoded entities -/

theorem StateRecord.token_of_decode {r : StateRecord} {token : VersionToken} {state : State}
    (decodes : r.decode token = .ok state) : state.token = some token := by
  unfold decode at decodes
  split at decodes
  · cases decodes
  · cases decodes
    rfl

theorem ActionDocument.revision_of_decode {d : ActionDocument} {token : VersionToken}
    {registry : Registry} {x : Action} (decodes : d.decode token registry = .ok x) :
    x.id = d.id ∧ x.state.token = some token := by
  unfold decode at decodes
  split at decodes
  · cases decodes
  · simp only [Except.bind_eq_ok, pure, Except.pure, Except.ok.injEq] at decodes
    obtain ⟨_, _, _, _, _, _, _, _, _, _, state, stateDecodes, rfl⟩ := decodes
    exact ⟨rfl, StateRecord.token_of_decode stateDecodes⟩

theorem ChecksDocument.revision_of_decode {d : ChecksDocument} {token : VersionToken} {c : Checks}
    (decodes : d.decode token = .ok c) : c.id = d.id ∧ c.state.token = some token := by
  simp only [decode, Except.bind_eq_ok, pure, Except.pure, Except.ok.injEq] at decodes
  obtain ⟨_, _, _, _, state, stateDecodes, rfl⟩ := decodes
  exact ⟨rfl, StateRecord.token_of_decode stateDecodes⟩

theorem SequenceDocument.revision_of_decode {d : SequenceDocument} {token : VersionToken}
    {q : Sequence} (decodes : d.decode token = .ok q) :
    q.id = d.id ∧ q.state.token = some token := by
  simp only [decode, Except.bind_eq_ok, pure, Except.pure, Except.ok.injEq] at decodes
  obtain ⟨_, _, state, stateDecodes, rfl⟩ := decodes
  exact ⟨rfl, StateRecord.token_of_decode stateDecodes⟩

theorem BlockDocument.revision_of_decode {d : BlockDocument} {token : VersionToken} {b : Block}
    (decodes : d.decode token = .ok b) : b.id = d.id ∧ b.state.token = some token := by
  simp only [decode, Except.bind_eq_ok, pure, Except.pure, Except.ok.injEq] at decodes
  obtain ⟨_, _, _, _, _, _, _, _, _, _, state, stateDecodes, rfl⟩ := decodes
  exact ⟨rfl, StateRecord.token_of_decode stateDecodes⟩

theorem PlanDocument.revision_of_decode {d : PlanDocument} {token : VersionToken} {p : Plan}
    (decodes : d.decode token = .ok p) : p.id = d.id ∧ p.state.token = some token := by
  simp only [decode, Except.bind_eq_ok] at decodes
  obtain ⟨_, _, _, _, state, stateDecodes, decodes⟩ := decodes
  split at decodes
  · cases decodes
  · cases decodes
    exact ⟨rfl, StateRecord.token_of_decode stateDecodes⟩

namespace Archive

variable {a : Archive}

theorem decoded_eq_ok {α : Type} {operation : Operation} {kind : EntityKind} {id : Uuid}
    {result : Except FieldError α} {v : α} :
    decoded operation kind id result = .ok v ↔ result = .ok v := by
  cases result with
  | error e => simp [decoded]
  | ok w => simp [decoded]

/-! ## Reading -/

/-- The state has the token of the revision of its entity that is stored. -/
def Current (a : Archive) (c : Contents) (x : EntityState) : Prop :=
  ∃ item, c.find? (a.key x.kind x.id) = some item ∧ x.state.token = some item.token

section

variable {s : MemoryStore} {planId id : Uuid}

/-- What was fetched from a laid out partition is stored under its own identifier. -/
theorem current_of_fetch {δ : Type} {parse : Json → Option δ} (wrap : δ → Document)
    {operation : Operation} {kind : EntityKind} {d : δ} {token : VersionToken} {x : EntityState}
    (laidOut : a.LaidOut s.contents)
    (parses : ∀ v, Document.ofJson? kind v = (parse v).map wrap)
    (fetched : a.fetch parse operation kind id s = .ok (d, token)) (isKind : x.kind = kind)
    (revision : x.id = (wrap d).node.id ∧ x.state.token = some token) : a.Current s.contents x := by
  have isNode := node?_of_fetch wrap parses fetched
  have ⟨n, isAlso, isId⟩ := laidOut.node?_isSome (stored_of_node? isNode)
  have own : x.id = id := by
    rw [revision.1, Option.some.inj (isNode.symm.trans isAlso)]
    exact isId
  obtain ⟨item, stored, _, isToken⟩ := fetch_eq_ok.mp fetched
  rw [Current, isKind, own]
  exact ⟨item, stored, by rw [revision.2, isToken]⟩

theorem current_of_readAction {x : Action} (laidOut : a.LaidOut s.contents)
    (isRead : a.readAction s planId id = .ok x) :
    a.Current s.contents ⟨.action, x.id, x.state⟩ := by
  simp only [readAction, Except.bind_eq_ok, decodeAction, decoded_eq_ok] at isRead
  obtain ⟨⟨d, token⟩, fetched, _, _, decodes⟩ := isRead
  exact current_of_fetch .action laidOut (fun _ => rfl) fetched rfl
    (ActionDocument.revision_of_decode decodes)

theorem Action.mem_statesOf {actions : List Action} {x : EntityState} :
    x ∈ Action.statesOf actions ↔ ∃ y ∈ actions, x = ⟨.action, y.id, y.state⟩ := by
  induction actions with
  | nil => simp [Action.statesOf]
  | cons y rest inductionHypothesis => simp [Action.statesOf, inductionHypothesis]

theorem current_of_readActions {ids : List Uuid} {actions : List Action}
    (laidOut : a.LaidOut s.contents) (areRead : ids.mapM (a.readAction s planId) = .ok actions) :
    ∀ x ∈ Action.statesOf actions, a.Current s.contents x := by
  intro x isState
  obtain ⟨y, isAction, rfl⟩ := Action.mem_statesOf.mp isState
  obtain ⟨_, _, isRead⟩ := Except.mem_of_mapM_result areRead isAction
  exact current_of_readAction laidOut isRead

theorem current_of_readChecks {c : Checks} (laidOut : a.LaidOut s.contents)
    (isRead : a.readChecks s planId id = .ok c) : ∀ x ∈ c.states, a.Current s.contents x := by
  simp only [readChecks, Except.bind_eq_ok, decoded_eq_ok, pure, Except.pure,
    Except.ok.injEq] at isRead
  obtain ⟨⟨d, token⟩, fetched, _, _, own, decodes, actions, actionsRead, rfl⟩ := isRead
  intro x isState
  rcases List.mem_append.mp isState with ofAction | isOwn
  · exact current_of_readActions laidOut actionsRead x ofAction
  · rw [List.mem_singleton.mp isOwn]
    exact current_of_fetch .checks laidOut (fun _ => rfl) fetched rfl
      (ChecksDocument.revision_of_decode decodes)

theorem current_of_readSlots {kind : EntityKind} {ownerId : Uuid} {refs : CheckRefs}
    {checks : Slots (Option Checks)} (laidOut : a.LaidOut s.contents)
    (areRead : a.readSlots s planId kind ownerId refs = .ok checks) :
    ∀ x ∈ (checks.present.map Checks.states).flatten, a.Current s.contents x := by
  simp only [readSlots, Except.bind_eq_ok] at areRead
  obtain ⟨ids, _, slotsRead⟩ := areRead
  intro x isState
  obtain ⟨states, isList, inList⟩ := List.mem_flatten.mp isState
  obtain ⟨c, present, rfl⟩ := List.mem_map.mp isList
  have isSlot : some c ∈ checks.toList := by simpa [Slots.present] using present
  obtain ⟨_, id, isRead⟩ := Slots.mem_of_mapM_result slotsRead isSlot
  cases id with
  | none => cases isRead
  | some id =>
    rw [readSlot] at isRead
    cases read : a.readChecks s planId id with
    | error e => simp [read, Except.map] at isRead
    | ok d =>
      simp only [read, Except.map, Except.ok.injEq, Option.some.injEq] at isRead
      exact current_of_readChecks laidOut (isRead ▸ read) x inList

theorem current_of_readSequence {q : Sequence} (laidOut : a.LaidOut s.contents)
    (isRead : a.readSequence s planId id = .ok q) : ∀ x ∈ q.states, a.Current s.contents x := by
  simp only [readSequence, Except.bind_eq_ok, decoded_eq_ok, pure, Except.pure,
    Except.ok.injEq] at isRead
  obtain ⟨⟨d, token⟩, fetched, _, _, own, decodes, actions, actionsRead, rfl⟩ := isRead
  intro x isState
  rcases List.mem_append.mp isState with ofAction | isOwn
  · exact current_of_readActions laidOut actionsRead x ofAction
  · rw [List.mem_singleton.mp isOwn]
    exact current_of_fetch .sequence laidOut (fun _ => rfl) fetched rfl
      (SequenceDocument.revision_of_decode decodes)

/-- The states of items that were read one by one. -/
theorem current_of_readItems {α : Type} {ids : List Uuid} {items : List α}
    {read : Uuid → Except ArchiveError α} {statesOf : α → List EntityState}
    (areRead : ids.mapM read = .ok items)
    (each : ∀ id item, read id = .ok item → ∀ x ∈ statesOf item, a.Current s.contents x) :
    ∀ x ∈ (items.map statesOf).flatten, a.Current s.contents x := by
  intro x isState
  obtain ⟨states, isList, inList⟩ := List.mem_flatten.mp isState
  obtain ⟨item, isItem, rfl⟩ := List.mem_map.mp isList
  obtain ⟨id, _, isRead⟩ := Except.mem_of_mapM_result areRead isItem
  exact each id item isRead x inList

theorem current_of_readBlock {b : Block} (laidOut : a.LaidOut s.contents)
    (isRead : a.readBlock s planId id = .ok b) : ∀ x ∈ b.states, a.Current s.contents x := by
  simp only [readBlock, Except.bind_eq_ok, decoded_eq_ok, pure, Except.pure,
    Except.ok.injEq] at isRead
  obtain ⟨⟨d, token⟩, fetched, _, _, own, decodes, checks, checksRead, sequences, sequencesRead,
    rfl⟩ := isRead
  intro x isState
  rcases List.mem_append.mp isState with below | isOwn
  · rcases List.mem_append.mp below with ofChecks | ofSequence
    · exact current_of_readSlots laidOut checksRead x ofChecks
    · exact current_of_readItems sequencesRead
        (fun _ _ read => current_of_readSequence laidOut read) x ofSequence
  · rw [List.mem_singleton.mp isOwn]
    exact current_of_fetch .block laidOut (fun _ => rfl) fetched rfl
      (BlockDocument.revision_of_decode decodes)

/-- Every entity of a plan that was read has the token under which its document is stored. -/
theorem current_of_read {q : Plan} (laidOut : a.LaidOut s.contents)
    (isRead : a.read s id = .ok q) : ∀ x ∈ q.states, a.Current s.contents x := by
  simp only [read, Except.bind_eq_ok, decoded_eq_ok, pure, Except.pure, Except.ok.injEq] at isRead
  obtain ⟨⟨d, token⟩, fetched, own, decodes, checks, checksRead, blocks, blocksRead, rfl⟩ := isRead
  intro x isState
  rcases List.mem_append.mp isState with below | isOwn
  · rcases List.mem_append.mp below with ofChecks | ofBlock
    · exact current_of_readSlots laidOut checksRead x ofChecks
    · exact current_of_readItems blocksRead
        (fun _ _ read => current_of_readBlock laidOut read) x ofBlock
  · rw [List.mem_singleton.mp isOwn]
    exact current_of_fetch .plan laidOut (fun _ => rfl) fetched rfl
      (PlanDocument.revision_of_decode decodes)

end

/-! ## Writing -/

section

theorem issued_of_noting {σ : Type} {i j : Journaled σ} {key : DocumentKey}
    {made : Written σ VersionToken} {token : VersionToken}
    (written : j.noting key some made = (.ok token, i)) : Journaled.Issued i.journal key token := by
  obtain ⟨result, s⟩ := made
  cases result with
  | error e => cases written
  | ok own =>
    cases written
    exact List.mem_cons_self

variable {σ : Type} [DocumentStore σ] {j : Journaled σ}

theorem issued_of_takeOver {planId : Uuid} {p : PendingDocument} {token : VersionToken}
    {i : Journaled σ} (taken : a.takeOver planId p j = (.ok token, i)) :
    Journaled.Issued i.journal (a.key p.kind p.id) token := by
  unfold takeOver at taken
  cases read : DocumentStore.read j (a.key p.kind p.id) with
  | error e => simp [read] at taken
  | ok existing =>
    simp only [read] at taken
    split at taken
    · split at taken
      · rename_i replaced
        cases taken
        exact issued_of_noting replaced
      · cases taken
    · cases taken

/-- A document that was written was issued the token that is reported. -/
theorem issued_of_writeDocument {planId : Uuid} {p : PendingDocument} {token : VersionToken}
    {i : Journaled σ} (written : a.writeDocument planId p j = (.ok token, i)) :
    Journaled.Issued i.journal (a.key p.kind p.id) token := by
  unfold writeDocument at written
  split at written
  · rename_i created
    cases written
    exact issued_of_noting created
  · split at written
    · exact issued_of_takeOver written
    · cases written

/-- So was every document of a commit, and no later write of it takes that back. -/
theorem issued_of_commit {planId : Uuid} {docs : List PendingDocument} {id : Uuid}
    {token : VersionToken} (reported : (id, token) ∈ (a.commit planId docs j).tokens) :
    ∃ p ∈ docs, p.id = id ∧
      Journaled.Issued (a.commit planId docs j).store.journal (a.key p.kind id) token := by
  induction docs generalizing j with
  | nil => cases reported
  | cons p rest inductionHypothesis =>
    rw [commit] at reported ⊢
    cases made : a.writeDocument planId p j with
    | mk result i =>
      cases result with
      | error e => simp [made] at reported
      | ok own =>
        simp only [made] at reported ⊢
        rcases List.mem_cons.mp reported with isFirst | isLater
        · cases isFirst
          have alike := (Journaled.preserved_suffix (σ := σ) i.journal).alike
          have grows := (commit_alike (a := a) alike planId rest ⟨rfl, List.suffix_refl _⟩).stores.2
          exact ⟨p, List.mem_cons_self, rfl, grows.subset (issued_of_writeDocument made)⟩
        · obtain ⟨q, inRest, sameId, issued⟩ := inductionHypothesis isLater
          exact ⟨q, List.mem_cons_of_mem _ inRest, sameId, issued⟩

/-- A token on an entity of a plan that records tokens was there before or is among those recorded
for the identifier of the entity. -/
theorem mem_tokens_of_recordTokens {tokens : List (Uuid × VersionToken)} {p : Plan} {e : EntityRef}
    {token : VersionToken} (hasToken : (e, token) ∈ (recordTokens tokens p).tokens) :
    (e, token) ∈ p.tokens ∨ e ∈ p.entities ∧ (e.2, token) ∈ tokens := by
  obtain ⟨x, isState, rfl, isToken⟩ := Plan.mem_tokens.mp hasToken
  rw [recordTokens, Plan.states_mapStates] at isState
  obtain ⟨y, wasState, rfl⟩ := List.mem_map.mp isState
  cases recorded : tokens.lookup y.id with
  | none =>
    have isOld : y.state.token = some token := by
      simpa [EntityState.change, recorded] using isToken
    exact .inl (Plan.mem_tokens.mpr ⟨y, wasState, rfl, isOld⟩)
  | some own =>
    obtain rfl : own = token := by
      simpa [EntityState.change, recorded] using isToken
    obtain ⟨_, _, split, _⟩ := List.lookup_eq_some_iff.mp recorded
    have isEntity : y.entity ∈ p.entities := Plan.entity_mem_of_mem_states wasState
    refine .inr ⟨isEntity, ?_⟩
    rw [split]
    exact List.mem_append_right _ List.mem_cons_self

/-- A token on an entity of a plan after its creation was there before, or the store issued it for
the document of the entity. -/
theorem mem_tokens_of_create {p : Plan} {e : EntityRef} {token : VersionToken}
    (hasToken : (e, token) ∈ (a.create p j).entity.tokens) :
    (e, token) ∈ p.tokens ∨
      Journaled.Issued (a.create p j).store.journal (a.key e.1 e.2) token := by
  rw [create] at hasToken ⊢
  cases valid : a.validated p with
  | error _ =>
    rw [valid] at hasToken
    exact .inl hasToken
  | ok docs =>
    rw [valid] at hasToken
    cases stored : a.hasPlan p.id j with
    | error _ =>
      simp only [stored] at hasToken
      exact .inl hasToken
    | ok isStored =>
      cases isStored with
      | true =>
        simp only [stored] at hasToken
        exact .inl hasToken
      | false =>
        simp only [stored] at hasToken ⊢
        refine (mem_tokens_of_recordTokens hasToken).imp_right ?_
        rintro ⟨isEntity, reported⟩
        obtain ⟨q, isDocument, sameId, issued⟩ := issued_of_commit reported
        obtain ⟨encoded, _, distinct⟩ := validated_eq_ok valid
        have isOther : q.entity ∈ p.entities :=
          (mem_entities_iff encoded).mpr ⟨q, isDocument, rfl⟩
        have same : q.entity = e := EntityRef.eq_of_snd distinct isOther isEntity sameId
        have sameKind : q.kind = e.1 := congrArg Prod.fst same
        rwa [sameKind] at issued

/-- A token on an entity after an update was there before, or the store issued it for the document
of the entity. -/
theorem token_of_update {x : Entity} {token : VersionToken}
    (hasToken : (a.update x j).entity.state.token = some token) :
    x.state.token = some token ∨
      Journaled.Issued (a.update x j).store.journal (a.key x.kind x.id) token := by
  by_cases valid : x.id.isNil = false ∧ x.Timely
  · obtain ⟨notNil, inTime⟩ := valid
    obtain ⟨progress, encoded⟩ := Entity.exists_progress.mpr inTime
    rw [update_eq notNil encoded, patched] at hasToken ⊢
    cases made : DocumentStore.patch j (a.key x.kind x.id) (Patch.ofFields progress.fields)
      x.state.token with
    | mk result i =>
      rw [made] at hasToken
      cases result with
      | error e => exact .inl hasToken
      | ok own =>
        simp only [Entity.atRevision, Entity.state_withState, Option.some.injEq] at hasToken
        subst hasToken
        exact .inr (issued_of_noting made)
  · obtain ⟨cause, refused⟩ := update_refused (a := a) (s := j) valid
    rw [refused] at hasToken
    exact .inl hasToken

end

end Archive

end PlanArchive
