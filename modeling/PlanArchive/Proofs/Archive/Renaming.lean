import PlanArchive.Archive.Create
import PlanArchive.Archive.Listing
import PlanArchive.Archive.Read
import PlanArchive.Plan.Path
import PlanArchive.Proofs.Document.Restating
import PlanArchive.Proofs.Plan.States

/-!
# Renamed version tokens

A version token is copied between stores and entities in memory and compared with others, and
nothing else is ever done with it. Documents are made without tokens, so that plans that differ in
nothing else have the same ones (`Archive.validated_congr`). An entity that is decoded has the token
that it is told and no other (`ActionDocument.decode_renamed` and its like): with another token the
same comes out, under the other token.
-/

namespace PlanArchive

/-! ## Tokens are no part of a document -/

/-- The state without its token. -/
def withoutToken : StateChange := fun _ _ state => { state with token := none }

namespace Archive

variable {a : Archive} {p q : Plan} {planId : Uuid}

theorem actionDocuments_withoutToken (actions : List Action) :
    a.actionDocuments planId (actions.map (Action.mapState withoutToken)) =
      a.actionDocuments planId actions := by
  apply Except.mapM_numbered_congr
  intro x position
  rfl

theorem checksDocuments_withoutToken (c : Checks) :
    a.checksDocuments planId (c.mapStates withoutToken) = a.checksDocuments planId c := by
  rw [checksDocuments, checksDocuments, ChecksDocument.encode_mapStates]
  simp only [Checks.mapStates, actionDocuments_withoutToken]
  rfl

theorem sequenceDocuments_withoutToken (position : Nat) (q : Sequence) :
    a.sequenceDocuments planId position (q.mapStates withoutToken) =
      a.sequenceDocuments planId position q := by
  rw [sequenceDocuments, sequenceDocuments, SequenceDocument.encode_mapStates]
  simp only [Sequence.mapStates, actionDocuments_withoutToken]
  rfl

theorem slotDocuments_withoutToken (checks : Slots (Option Checks)) :
    (checks.map (Option.map (Checks.mapStates withoutToken))).present.mapM
      (a.checksDocuments planId) = checks.present.mapM (a.checksDocuments planId) := by
  rw [Slots.present_map, List.mapM_map]
  exact congrArg (List.mapM · _) (funext checksDocuments_withoutToken)

theorem blockDocuments_withoutToken (position : Nat) (b : Block) :
    a.blockDocuments planId position (b.mapStates withoutToken) =
      a.blockDocuments planId position b := by
  have sequences : ((b.sequences.map (Sequence.mapStates withoutToken)).zipIdx.mapM
      fun x => a.sequenceDocuments planId x.2 x.1) =
      b.sequences.zipIdx.mapM fun x => a.sequenceDocuments planId x.2 x.1 := by
    apply Except.mapM_numbered_congr
    intro q position
    exact sequenceDocuments_withoutToken position q
  rw [blockDocuments, blockDocuments, BlockDocument.encode_mapStates]
  simp only [Block.mapStates, slotDocuments_withoutToken]
  rw [sequences]
  rfl

theorem documents_withoutToken (p : Plan) :
    a.documents (p.mapStates withoutToken) = a.documents p := by
  have blocks : ((p.blocks.map (Block.mapStates withoutToken)).zipIdx.mapM
      fun x => a.blockDocuments p.id x.2 x.1) =
      p.blocks.zipIdx.mapM fun x => a.blockDocuments p.id x.2 x.1 := by
    apply Except.mapM_numbered_congr
    intro b position
    exact blockDocuments_withoutToken position b
  rw [documents, documents, PlanDocument.encode_mapStates]
  simp only [Plan.mapStates, slotDocuments_withoutToken]
  rw [blocks]
  rfl

/-- Validation comes to the same for plans that differ in tokens only. -/
theorem validated_congr (same : q.withoutTokens = p.withoutTokens) :
    a.validated q = a.validated p := by
  have withoutTokens : ∀ p : Plan, a.validated p.withoutTokens = a.validated p := by
    intro p
    have isChange : p.withoutTokens = p.mapStates withoutToken := rfl
    rw [isChange, validated, validated, documents_withoutToken, Plan.entities_mapStates]
    rfl
  rw [← withoutTokens, same, withoutTokens]

end Archive

/-! ## Renaming -/

/-- A renaming of version tokens. -/
abbrev Renaming := VersionToken → VersionToken

variable {ρ : Renaming}

/-- The state under a renamed token. -/
def State.renamed (ρ : Renaming) (state : State) : State :=
  { state with token := state.token.map ρ }

/-- Renames the tokens of states. -/
def Renaming.change (ρ : Renaming) : StateChange := fun _ _ state => state.renamed ρ

/-- The plan with every token in it renamed. -/
def Plan.renamed (ρ : Renaming) (p : Plan) : Plan := p.mapStates ρ.change

/-- The entity with every token in it renamed. -/
def Entity.renamed (ρ : Renaming) : Entity → Entity
  | .plan p => .plan (p.renamed ρ)
  | .block b => .block (b.mapStates ρ.change)
  | .checks c => .checks (c.mapStates ρ.change)
  | .sequence q => .sequence (q.mapStates ρ.change)
  | .action x => .action (x.mapState ρ.change)

/-- The summary under a renamed token. -/
def PlanSummary.renamed (ρ : Renaming) (x : PlanSummary) : PlanSummary :=
  { x with state := x.state.renamed ρ }

/-- The stored document under a renamed token. -/
def Item.renamed (ρ : Renaming) (item : Item) : Item := { item with token := ρ item.token }

namespace Entity

@[simp] theorem kind_renamed (x : Entity) : (x.renamed ρ).kind = x.kind := by
  cases x <;> rfl

@[simp] theorem id_renamed (x : Entity) : (x.renamed ρ).id = x.id := by
  cases x <;> rfl

@[simp] theorem state_renamed (x : Entity) : (x.renamed ρ).state = x.state.renamed ρ := by
  cases x <;> rfl

theorem withState_renamed (x : Entity) (state : State) :
    (x.renamed ρ).withState (state.renamed ρ) = (x.withState state).renamed ρ := by
  cases x <;> rfl

end Entity

/-! ## Renaming nothing -/

@[simp] theorem State.renamed_id : State.renamed (fun token => token) = fun state => state := by
  funext state
  simp [renamed]

@[simp] theorem Renaming.change_id :
    Renaming.change (fun token => token) = fun _ _ state => state := by
  funext kind id state
  simp [change]

@[simp] theorem Item.renamed_id : Item.renamed (fun token => token) = fun item => item := rfl

@[simp] theorem Plan.renamed_id : Plan.renamed (fun token => token) = fun p => p := by
  funext p
  rw [renamed, Renaming.change_id, mapStates_id]

@[simp] theorem Entity.renamed_id : Entity.renamed (fun token => token) = fun x => x := by
  funext x
  cases x <;> simp [renamed, Block.mapStates_id, Checks.mapStates_id, Sequence.mapStates_id,
    Action.mapState]

/-! ## What a token is put on -/

theorem StateRecord.decode_renamed (r : StateRecord) (token : VersionToken) :
    r.decode (ρ token) = (r.decode token).map (State.renamed ρ) := by
  rw [decode, decode]
  cases Status.ofCode? r.status <;> rfl

theorem ActionDocument.decode_renamed (d : ActionDocument) (token : VersionToken)
    (registry : Registry) :
    d.decode (ρ token) registry = (d.decode token registry).map (Action.mapState ρ.change) := by
  rw [decode, decode]
  cases registry.lookup? d.plugin with
  | none => rfl
  | some plugin =>
    simp only [StateRecord.decode_renamed, Except.map_bind, Except.bind_map, Except.map_pure]
    rfl

theorem ChecksDocument.decode_renamed (d : ChecksDocument) (token : VersionToken) :
    d.decode (ρ token) = (d.decode token).map (Checks.mapStates ρ.change) := by
  simp only [decode, StateRecord.decode_renamed, Except.map_bind, Except.bind_map, Except.map_pure]
  rfl

theorem SequenceDocument.decode_renamed (d : SequenceDocument) (token : VersionToken) :
    d.decode (ρ token) = (d.decode token).map (Sequence.mapStates ρ.change) := by
  simp only [decode, StateRecord.decode_renamed, Except.map_bind, Except.bind_map, Except.map_pure]
  rfl

theorem BlockDocument.decode_renamed (d : BlockDocument) (token : VersionToken) :
    d.decode (ρ token) = (d.decode token).map (Block.mapStates ρ.change) := by
  simp only [decode, StateRecord.decode_renamed, Except.map_bind, Except.bind_map, Except.map_pure]
  rfl

theorem PlanDocument.decode_renamed (d : PlanDocument) (token : VersionToken) :
    d.decode (ρ token) = (d.decode token).map (Plan.renamed ρ) := by
  simp only [decode, StateRecord.decode_renamed, Except.map_bind, Except.bind_map]
  cases FailureReason.ofCode? d.reason <;> rfl

theorem PlanSummary.ofItem_renamed (operation : Operation) (item : Item) :
    ofItem operation (item.renamed ρ) = (ofItem operation item).map (PlanSummary.renamed ρ) := by
  have parsed : PlanDocument.ofJson? (item.renamed ρ).doc = PlanDocument.ofJson? item.doc := rfl
  rw [ofItem, ofItem, parsed]
  cases PlanDocument.ofJson? item.doc with
  | none => rfl
  | some d =>
    dsimp only [Item.renamed]
    rw [PlanDocument.decode_renamed]
    cases d.decode item.token <;> rfl

namespace Archive

variable {a : Archive}

theorem decoded_of_map {α β : Type} {operation : Operation} {kind : EntityKind} {id : Uuid}
    {first : Except FieldError α} {second : Except FieldError β} {f : α → β}
    (same : second = first.map f) :
    decoded operation kind id second = (decoded operation kind id first).map f := by
  rw [same]
  cases first <;> rfl

theorem decodeAction_renamed (d : ActionDocument) (token : VersionToken) :
    a.decodeAction d (ρ token) = (a.decodeAction d token).map (Action.mapState ρ.change) :=
  decoded_of_map (d.decode_renamed token a.registry)

/-- Plans are written as the same documents whatever their tokens are. -/
theorem validated_renamed (p : Plan) : a.validated (p.renamed ρ) = a.validated p := by
  apply validated_congr
  simp only [Plan.withoutTokens, Plan.renamed, Plan.mapStates_mapStates]
  rfl

theorem lookup_renamed (tokens : List (Uuid × VersionToken)) (id : Uuid) :
    (tokens.map fun e => (e.1, ρ e.2)).lookup id = (tokens.lookup id).map ρ := by
  induction tokens with
  | nil => rfl
  | cons e rest inductionHypothesis =>
    rw [List.map_cons, List.lookup_cons, List.lookup_cons, inductionHypothesis]
    cases id == e.1 <;> rfl

theorem recordTokens_renamed (tokens : List (Uuid × VersionToken)) (p : Plan) :
    recordTokens (tokens.map fun e => (e.1, ρ e.2)) (p.renamed ρ) =
      (recordTokens tokens p).renamed ρ := by
  rw [recordTokens, recordTokens, Plan.renamed, Plan.renamed, Plan.mapStates_mapStates,
    Plan.mapStates_mapStates]
  congr 1
  funext kind id state
  rw [lookup_renamed]
  cases tokens.lookup id <;> rfl

end Archive

end PlanArchive
