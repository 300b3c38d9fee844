import PlanArchive.Archive.Read
import PlanArchive.Proofs.Archive.Documents
import PlanArchive.Proofs.Document.Layout

/-!
# A stored tree is read back

`read_of_holds`: from a store that holds the documents of a plan, each under some token, the plan
is read as its normal form with these tokens. The argument follows the tree, and each level needs
only that the store holds the documents of that level and of all below it; how they got there does
not matter. Payloads come back as payloads that are equal, which is what `Action.comparable` says.
-/

namespace PlanArchive

/-- Steps that succeed on the value in every slot with results that look alike. -/
theorem Slots.mapM_alike {ε α β γ : Type} {step : Slot → α → Except ε β} {left : β → γ}
    {right : α → γ} {slots : Slots α}
    (each : ∀ x ∈ slots.toList, ∀ slot, ∃ y, step slot x = .ok y ∧ left y = right x) :
    ∃ results, slots.mapM step = .ok results ∧ results.map left = slots.map right := by
  simp only [toList, List.forall_mem_cons] at each
  obtain ⟨bypass, pre, post, cont, deferred, -⟩ := each
  obtain ⟨bypassRead, bypassStep, bypassAlike⟩ := bypass .bypass
  obtain ⟨preRead, preStep, preAlike⟩ := pre .pre
  obtain ⟨postRead, postStep, postAlike⟩ := post .post
  obtain ⟨contRead, contStep, contAlike⟩ := cont .cont
  obtain ⟨deferredRead, deferredStep, deferredAlike⟩ := deferred .deferred
  refine ⟨⟨bypassRead, preRead, postRead, contRead, deferredRead⟩, ?_, ?_⟩
  · simp [mapM, bypassStep, preStep, postStep, contStep, deferredStep, bind, Except.bind, pure,
      Except.pure]
  · simp [map, bypassAlike, preAlike, postAlike, contAlike, deferredAlike]

/-- Puts the token of its document on every state. -/
def stamp (tokenOf : Uuid → VersionToken) : StateChange :=
  fun _ id state => { state with token := some (tokenOf id) }

/-- The actions of the checks. -/
def Plan.actions (p : Plan) : List Action :=
  p.checks.present.flatMap Checks.actions ++ p.blocks.flatMap fun b =>
    b.checks.present.flatMap Checks.actions ++ b.sequences.flatMap Sequence.actions

namespace Archive

variable {σ : Type} [DocumentStore σ] {a : Archive} {s : σ} {planId : Uuid}
  {tokenOf : Uuid → VersionToken} {docs : List PendingDocument}

/-- The store has each of the documents at its place, under the token of its identifier. -/
def Holds (a : Archive) (s : σ) (tokenOf : Uuid → VersionToken) (docs : List PendingDocument) :
    Prop :=
  ∀ p ∈ docs, DocumentStore.read s (a.key p.kind p.id) = .ok ⟨p.doc, tokenOf p.id⟩

theorem Holds.left {others : List PendingDocument} (holds : a.Holds s tokenOf (docs ++ others)) :
    a.Holds s tokenOf docs :=
  fun p member => holds p (List.mem_append_left _ member)

theorem Holds.right {others : List PendingDocument} (holds : a.Holds s tokenOf (others ++ docs)) :
    a.Holds s tokenOf docs :=
  fun p member => holds p (List.mem_append_right _ member)

theorem Holds.of_flatten {lists : List (List PendingDocument)}
    (holds : a.Holds s tokenOf lists.flatten) (member : docs ∈ lists) : a.Holds s tokenOf docs :=
  fun p inDocs => holds p (List.mem_flatten.mpr ⟨docs, member, inDocs⟩)

theorem fetch_of_holds {δ : Type} {parse : Json → Option δ} {operation : Operation}
    {p : PendingDocument} {d : δ} (holds : a.Holds s tokenOf docs) (member : p ∈ docs)
    (parses : parse p.doc = some d) :
    a.fetch parse operation p.kind p.id s = .ok (d, tokenOf p.id) := by
  simp [fetch, holds p member, parses]

/-! ## What reading a level comes to

The document of the level is found, belongs to the plan and is decoded, which leaves reading what
it refers to: that alone can fail, and how a level fails or succeeds is read off here. -/

theorem readAction_eq {actions : List Action} {x : Action}
    (encoded : a.actionDocuments planId actions = .ok docs) (holds : a.Holds s tokenOf docs)
    (member : x ∈ actions) :
    ∃ position d, ActionDocument.encode a.part planId position x = .ok d ∧
      a.readAction s planId x.id = a.decodeAction d (tokenOf x.id) := by
  obtain ⟨position, d, isEncoded, isPending⟩ := mem_of_actionDocuments encoded member
  obtain ⟨sameId, samePlan⟩ := ActionDocument.references_of_encode isEncoded
  have fetched : a.fetch ActionDocument.ofJson? .read .action x.id s = .ok (d, tokenOf x.id) :=
    fetch_of_holds holds isPending (ActionDocument.ofJson?_toJson d)
  refine ⟨position, d, isEncoded, ?_⟩
  simp [readAction, fetched, checkOwner, samePlan, bind, Except.bind]

theorem readChecks_eq {c : Checks} (encoded : a.checksDocuments planId c = .ok docs)
    (holds : a.Holds s tokenOf docs) :
    ∃ own, a.actionDocuments planId c.actions = .ok own ∧ a.Holds s tokenOf own ∧
      a.readChecks s planId c.id =
        (c.actions.map Action.id).mapM (a.readAction s planId) >>= fun actions =>
          pure { c.normal with
            actions := actions
            state := { c.state.normal with token := some (tokenOf c.id) } } := by
  obtain ⟨own, d, ownEncoded, isEncoded, rfl⟩ := checksDocuments_eq_ok encoded
  obtain ⟨sameId, samePlan, sameActions⟩ := ChecksDocument.references_of_encode isEncoded
  have fetched : a.fetch ChecksDocument.ofJson? .read .checks c.id s = .ok (d, tokenOf c.id) :=
    fetch_of_holds holds.right List.mem_cons_self (ChecksDocument.ofJson?_toJson d)
  refine ⟨own, ownEncoded, holds.left, ?_⟩
  simp [readChecks, fetched, checkOwner, samePlan, decoded, sameActions,
    ChecksDocument.decode_of_encode isEncoded, -List.mapM_map, bind, Except.bind]

theorem readSequence_eq {position : Nat} {q : Sequence}
    (encoded : a.sequenceDocuments planId position q = .ok docs)
    (holds : a.Holds s tokenOf docs) :
    ∃ own, a.actionDocuments planId q.actions = .ok own ∧ a.Holds s tokenOf own ∧
      a.readSequence s planId q.id =
        (q.actions.map Action.id).mapM (a.readAction s planId) >>= fun actions =>
          pure { q.normal with
            actions := actions
            state := { q.state.normal with token := some (tokenOf q.id) } } := by
  obtain ⟨own, d, ownEncoded, isEncoded, rfl⟩ := sequenceDocuments_eq_ok encoded
  obtain ⟨sameId, samePlan, sameActions⟩ := SequenceDocument.references_of_encode isEncoded
  have fetched : a.fetch SequenceDocument.ofJson? .read .sequence q.id s = .ok (d, tokenOf q.id) :=
    fetch_of_holds holds.right List.mem_cons_self (SequenceDocument.ofJson?_toJson d)
  refine ⟨own, ownEncoded, holds.left, ?_⟩
  simp [readSequence, fetched, checkOwner, samePlan, decoded, sameActions,
    SequenceDocument.decode_of_encode isEncoded, -List.mapM_map, bind, Except.bind]

theorem readBlock_eq {position : Nat} {b : Block}
    (encoded : a.blockDocuments planId position b = .ok docs) (holds : a.Holds s tokenOf docs) :
    ∃ checks sequences, b.checks.present.mapM (a.checksDocuments planId) = .ok checks ∧
      b.sequences.zipIdx.mapM (fun (q, position) => a.sequenceDocuments planId position q)
        = .ok sequences ∧
      a.Holds s tokenOf checks.flatten ∧ a.Holds s tokenOf sequences.flatten ∧
      a.readBlock s planId b.id =
        a.readSlots s planId .block b.id (CheckRefs.encode b.checks) >>= fun checks =>
          (b.sequences.map Sequence.id).mapM (a.readSequence s planId) >>= fun sequences =>
            pure { b.normal with
              checks := checks
              sequences := sequences
              state := { b.state.normal with token := some (tokenOf b.id) } } := by
  obtain ⟨checks, sequences, d, checksEncoded, sequencesEncoded, isEncoded, rfl⟩ :=
    blockDocuments_eq_ok encoded
  obtain ⟨sameId, samePlan, sameChecks, sameSequences⟩ :=
    BlockDocument.references_of_encode isEncoded
  have fetched : a.fetch BlockDocument.ofJson? .read .block b.id s = .ok (d, tokenOf b.id) :=
    fetch_of_holds holds.right List.mem_cons_self (BlockDocument.ofJson?_toJson d)
  refine ⟨checks, sequences, checksEncoded, sequencesEncoded, holds.left.left, holds.left.right,
    ?_⟩
  simp [readBlock, fetched, checkOwner, samePlan, decoded, sameChecks, sameSequences,
    BlockDocument.decode_of_encode isEncoded, -List.mapM_map, bind, Except.bind]

theorem read_eq {p : Plan} (encoded : a.documents p = .ok docs) (holds : a.Holds s tokenOf docs) :
    ∃ checks blocks, p.checks.present.mapM (a.checksDocuments p.id) = .ok checks ∧
      p.blocks.zipIdx.mapM (fun (b, position) => a.blockDocuments p.id position b) = .ok blocks ∧
      a.Holds s tokenOf checks.flatten ∧ a.Holds s tokenOf blocks.flatten ∧
      a.read s p.id =
        a.readSlots s p.id .plan p.id (CheckRefs.encode p.checks) >>= fun checks =>
          (p.blocks.map Block.id).mapM (a.readBlock s p.id) >>= fun blocks =>
            pure { p.normal with
              checks := checks
              blocks := blocks
              state := { p.state.normal with token := some (tokenOf p.id) } } := by
  obtain ⟨checks, blocks, d, checksEncoded, blocksEncoded, isEncoded, rfl⟩ :=
    documents_eq_ok encoded
  obtain ⟨sameId, sameChecks, sameBlocks⟩ := PlanDocument.references_of_encode isEncoded
  have fetched : a.fetch PlanDocument.ofJson? .read .plan p.id s = .ok (d, tokenOf p.id) :=
    fetch_of_holds holds.right List.mem_cons_self (PlanDocument.ofJson?_toJson d)
  refine ⟨checks, blocks, checksEncoded, blocksEncoded, holds.left.left, holds.left.right, ?_⟩
  simp [read, fetched, decoded, sameChecks, sameBlocks, PlanDocument.decode_of_encode isEncoded,
    -List.mapM_map, bind, Except.bind]

/-! ## Level by level -/

theorem readAction_of_holds {actions : List Action} {x : Action}
    (encoded : a.actionDocuments planId actions = .ok docs) (holds : a.Holds s tokenOf docs)
    (member : x ∈ actions) (readable : x.Readable a.registry) :
    ∃ y, a.readAction s planId x.id = .ok y ∧
      y.comparable = (x.mapState (stamp tokenOf)).normal.comparable := by
  obtain ⟨position, d, isEncoded, isRead⟩ := readAction_eq encoded holds member
  obtain ⟨y, decodes, alike⟩ :=
    ActionDocument.decode_of_encode readable isEncoded (tokenOf x.id)
  refine ⟨y, ?_, ?_⟩
  · rw [isRead, decodeAction, decodes]
    rfl
  · rw [alike]
    rfl

theorem readActions_of_holds {actions : List Action}
    (encoded : a.actionDocuments planId actions = .ok docs) (holds : a.Holds s tokenOf docs)
    (readable : ∀ x ∈ actions, x.Readable a.registry) :
    ∃ ys, (actions.map Action.id).mapM (a.readAction s planId) = .ok ys ∧
      ys.map Action.comparable =
        actions.map fun x => (x.mapState (stamp tokenOf)).normal.comparable := by
  rw [List.mapM_map]
  exact Except.mapM_alike fun x member =>
    readAction_of_holds encoded holds member (readable x member)

theorem readChecks_of_holds {c : Checks} (encoded : a.checksDocuments planId c = .ok docs)
    (holds : a.Holds s tokenOf docs) (readable : ∀ x ∈ c.actions, x.Readable a.registry) :
    ∃ d, a.readChecks s planId c.id = .ok d ∧
      d.mapActions .comparable = (c.mapStates (stamp tokenOf)).normal.mapActions .comparable := by
  obtain ⟨own, ownEncoded, held, isRead⟩ := readChecks_eq encoded holds
  obtain ⟨ys, actionsRead, alike⟩ := readActions_of_holds ownEncoded held readable
  refine ⟨{ c.normal with
    actions := ys
    state := { c.state.normal with token := some (tokenOf c.id) } }, ?_, ?_⟩
  · rw [isRead, actionsRead]
    rfl
  · simp [Checks.mapActions, Checks.mapStates, Checks.normal, alike, State.normal, stamp]

theorem readSequence_of_holds {position : Nat} {q : Sequence}
    (encoded : a.sequenceDocuments planId position q = .ok docs) (holds : a.Holds s tokenOf docs)
    (readable : ∀ x ∈ q.actions, x.Readable a.registry) :
    ∃ r, a.readSequence s planId q.id = .ok r ∧
      r.mapActions .comparable = (q.mapStates (stamp tokenOf)).normal.mapActions .comparable := by
  obtain ⟨own, ownEncoded, held, isRead⟩ := readSequence_eq encoded holds
  obtain ⟨ys, actionsRead, alike⟩ := readActions_of_holds ownEncoded held readable
  refine ⟨{ q.normal with
    actions := ys
    state := { q.state.normal with token := some (tokenOf q.id) } }, ?_, ?_⟩
  · rw [isRead, actionsRead]
    rfl
  · simp [Sequence.mapActions, Sequence.mapStates, Sequence.normal, alike, State.normal, stamp]

/-- The checks in the slots of a plan or a block. -/
theorem readSlots_of_holds (kind : EntityKind) (id : Uuid) {checks : Slots (Option Checks)}
    {docs : List (List PendingDocument)} (notNil : ∀ c ∈ checks.present, c.id.isNil = false)
    (encoded : checks.present.mapM (a.checksDocuments planId) = .ok docs)
    (holds : a.Holds s tokenOf docs.flatten)
    (readable : ∀ x ∈ checks.present.flatMap Checks.actions, x.Readable a.registry) :
    ∃ r, a.readSlots s planId kind id (CheckRefs.encode checks) = .ok r ∧
      r.map (Option.map (Checks.mapActions .comparable)) =
        ((checks.map (Option.map (Checks.mapStates (stamp tokenOf)))).map
          (Option.map Checks.normal)).map (Option.map (Checks.mapActions .comparable)) := by
  let readOne (_ : Slot) (c : Option Checks) := a.readSlot s planId (c.map Checks.id)
  have each : ∀ c ∈ checks.toList, ∀ slot, ∃ r, readOne slot c = .ok r ∧
      r.map (Checks.mapActions .comparable) =
        ((c.map (Checks.mapStates (stamp tokenOf))).map Checks.normal).map
          (Checks.mapActions .comparable) := by
    intro c member slot
    cases c with
    | none => exact ⟨none, rfl, rfl⟩
    | some c =>
      have present : c ∈ checks.present := by simpa [Slots.present] using member
      obtain ⟨own, isList, ownEncoded⟩ := Except.mem_of_mapM encoded present
      obtain ⟨r, isRead, alike⟩ := readChecks_of_holds ownEncoded (holds.of_flatten isList)
        fun x isAction => readable x (List.mem_flatMap.mpr ⟨c, present, isAction⟩)
      exact ⟨some r, by simp [readOne, readSlot, isRead, Except.map], by simp [alike]⟩
  obtain ⟨r, isRead, alike⟩ := Slots.mapM_alike each
  refine ⟨r, ?_, alike⟩
  rw [readSlots, CheckRefs.decode_encode notNil]
  exact isRead

/-- The items of a numbered list, each read from its own documents. -/
theorem readItems_of_holds {α γ : Type} {items : List α} {docs : List (List PendingDocument)}
    {encode : α × Nat → Except ArchiveError (List PendingDocument)} {id : α → Uuid}
    {read : Uuid → Except ArchiveError α} {left right : α → γ}
    (encoded : items.zipIdx.mapM encode = .ok docs) (holds : a.Holds s tokenOf docs.flatten)
    (each : ∀ x ∈ items, ∀ position own, encode (x, position) = .ok own →
      a.Holds s tokenOf own → ∃ r, read (id x) = .ok r ∧ left r = right x) :
    ∃ results, (items.map id).mapM read = .ok results ∧ results.map left = items.map right := by
  rw [List.mapM_map]
  apply Except.mapM_alike
  intro x member
  obtain ⟨position, own, isList, ownEncoded⟩ := Except.mem_of_numbered encoded member
  exact each x member position own ownEncoded (holds.of_flatten isList)

theorem readBlock_of_holds {position : Nat} {b : Block}
    (notNil : ∀ e ∈ b.entities, e.2.isNil = false)
    (encoded : a.blockDocuments planId position b = .ok docs) (holds : a.Holds s tokenOf docs)
    (readable : ∀ x ∈ b.checks.present.flatMap Checks.actions ++
      b.sequences.flatMap Sequence.actions, x.Readable a.registry) :
    ∃ r, a.readBlock s planId b.id = .ok r ∧
      r.mapActions .comparable = (b.mapStates (stamp tokenOf)).normal.mapActions .comparable := by
  obtain ⟨checks, sequences, checksEncoded, sequencesEncoded, checksHeld, sequencesHeld, isRead⟩ :=
    readBlock_eq encoded holds
  have checksNotNil : ∀ c ∈ b.checks.present, c.id.isNil = false :=
    fun c present => notNil _ (Block.checks_mem_entities present)
  obtain ⟨readChecks, checksRead, checksAlike⟩ :=
    readSlots_of_holds .block b.id checksNotNil checksEncoded checksHeld
      fun x member => readable x (List.mem_append_left _ member)
  obtain ⟨readSequences, sequencesRead, sequencesAlike⟩ :=
    readItems_of_holds sequencesEncoded sequencesHeld fun q member position own ownEncoded held =>
      readSequence_of_holds ownEncoded held fun x isAction =>
        readable x (List.mem_append_right _ (List.mem_flatMap.mpr ⟨q, member, isAction⟩))
  refine ⟨{ b.normal with
    checks := readChecks
    sequences := readSequences
    state := { b.state.normal with token := some (tokenOf b.id) } }, ?_, ?_⟩
  · simp only [isRead, checksRead, sequencesRead]
    rfl
  · simp [Block.mapActions, Block.mapStates, Block.normal, checksAlike, sequencesAlike,
      State.normal, stamp]

/-- A plan whose documents the store holds is read as its normal form, with their tokens. -/
theorem read_of_holds {p : Plan} (notNil : ∀ e ∈ p.entities, e.2.isNil = false)
    (encoded : a.documents p = .ok docs) (holds : a.Holds s tokenOf docs)
    (readable : ∀ x ∈ p.actions, x.Readable a.registry) :
    ∃ q, a.read s p.id = .ok q ∧
      q.mapActions .comparable = (p.mapStates (stamp tokenOf)).normal.mapActions .comparable := by
  obtain ⟨checks, blocks, checksEncoded, blocksEncoded, checksHeld, blocksHeld, isRead⟩ :=
    read_eq encoded holds
  have checksNotNil : ∀ c ∈ p.checks.present, c.id.isNil = false :=
    fun c present => notNil _ (Plan.checks_mem_entities present)
  obtain ⟨readChecks, checksRead, checksAlike⟩ :=
    readSlots_of_holds .plan p.id checksNotNil checksEncoded checksHeld
      fun x member => readable x (List.mem_append_left _ member)
  obtain ⟨readBlocks, blocksRead, blocksAlike⟩ :=
    readItems_of_holds blocksEncoded blocksHeld fun b member position own ownEncoded held =>
      readBlock_of_holds (fun e below => notNil e (Plan.mem_entities_of_block member below))
        ownEncoded held fun x isAction =>
          readable x (List.mem_append_right _ (List.mem_flatMap.mpr ⟨b, member, isAction⟩))
  refine ⟨{ p.normal with
    checks := readChecks
    blocks := readBlocks
    state := { p.state.normal with token := some (tokenOf p.id) } }, ?_, ?_⟩
  · simp only [isRead, checksRead, blocksRead]
    rfl
  · simp [Plan.mapActions, Plan.mapStates, Plan.normal, checksAlike, blocksAlike, State.normal,
      stamp]

end Archive

end PlanArchive
