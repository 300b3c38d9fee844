import PlanArchive.Archive.Delete
import PlanArchive.Proofs.Archive.Alongside
import PlanArchive.Proofs.Archive.Renaming
import PlanArchive.Proofs.Archive.Updating

/-!
# Stores that mirror each other

An archive meets a store in its calls only, and it never calls for a document of another partition.
So a second store that answers its calls as the first one does, but under renamed tokens, lets every
operation come to the same, under renamed tokens: `read_mirrored`, `create_mirrored`,
`update_mirrored`, `delete_mirrored`, `summaries_mirrored`. What the stores hold in other partitions
does not matter.

Reading, writing and removing ask different things of the stores (`MirroredReads`, `MirroredWrites`,
`MirroredRemovals`). A renaming may be good for the tokens of some writes only: `MirroredWrites` is
told the stores that are left by writes whose tokens it is good for.
-/

namespace PlanArchive

/-! ## Stores -/

section

variable {σ τ : Type} [DocumentStore σ] [DocumentStore τ]

/-- What one store holds in a partition is what another one holds there, under renamed tokens. -/
structure MirroredReads (part : String) (ρ : Renaming) (related : σ → τ → Prop) : Prop where
  read : ∀ {s t}, related s t → ∀ collection id,
    DocumentStore.read t ⟨part, collection, id⟩ =
      (DocumentStore.read s ⟨part, collection, id⟩).map (Item.renamed ρ)

/-- Writes to a partition of one store come to what they come to in another one, under renamed
tokens, when the renaming is good for those that are put into the first. -/
structure MirroredWrites (part : String) (ρ : Renaming) (good : σ → Prop)
    (related : σ → τ → Prop) : Prop extends MirroredReads part ρ related where
  create : ∀ {s t}, related s t → ∀ collection id doc,
    good (DocumentStore.create s ⟨part, collection, id⟩ doc).2 →
      SameOutcome related (translated ρ (DocumentStore.create s ⟨part, collection, id⟩ doc))
        (DocumentStore.create t ⟨part, collection, id⟩ doc)
  replace : ∀ {s t}, related s t → ∀ collection id doc demanded,
    good (DocumentStore.replace s ⟨part, collection, id⟩ doc demanded).2 →
      SameOutcome related
        (translated ρ (DocumentStore.replace s ⟨part, collection, id⟩ doc demanded))
        (DocumentStore.replace t ⟨part, collection, id⟩ doc (demanded.map ρ))
  patch : ∀ {s t}, related s t → ∀ collection id patches demanded,
    good (DocumentStore.patch s ⟨part, collection, id⟩ patches demanded).2 →
      SameOutcome related
        (translated ρ (DocumentStore.patch s ⟨part, collection, id⟩ patches demanded))
        (DocumentStore.patch t ⟨part, collection, id⟩ patches (demanded.map ρ))
  /-- What is good for a store was good for the store before a write. -/
  beforeCreate : ∀ {s key doc}, good (DocumentStore.create s key doc).2 → good s
  beforeReplace : ∀ {s key doc demanded},
    good (DocumentStore.replace s key doc demanded).2 → good s

/-- Queries of a partition of one store find, and removals from it come to, what they do in another
one, under renamed tokens. -/
structure MirroredRemovals (part : String) (ρ : Renaming) (related : σ → τ → Prop) : Prop
    extends MirroredReads part ρ related where
  query : ∀ {s t}, related s t → ∀ collection q,
    DocumentStore.query t part collection q =
      (DocumentStore.query s part collection q).map (List.map (Item.renamed ρ))
  delete : ∀ {s t}, related s t → ∀ collection id demanded,
    SameOutcome related (DocumentStore.delete s ⟨part, collection, id⟩ demanded)
      (DocumentStore.delete t ⟨part, collection, id⟩ (demanded.map ρ))

end

/-- Steps in the slots come to the translations of others when each step does. -/
theorem Slots.mapM_of_map {ε α β γ : Type} {slots : Slots α} {step : Slot → α → Except ε β}
    {other : Slot → α → Except ε γ} {f : β → γ}
    (each : ∀ slot x, other slot x = (step slot x).map f) :
    slots.mapM other = (slots.mapM step).map (Slots.map f) := by
  simp only [mapM, each, Except.map_bind, Except.bind_map]
  rfl

namespace Archive

variable {σ τ : Type} [DocumentStore σ] [DocumentStore τ] {related : σ → τ → Prop} {a : Archive}
  {ρ : Renaming} {s : σ} {t : τ}

/-! ## Reading -/

section

variable (mirrored : MirroredReads a.part ρ related) (isRelated : related s t)
include mirrored isRelated

theorem read_key_mirrored (kind : EntityKind) (id : Uuid) :
    DocumentStore.read t (a.key kind id) =
      (DocumentStore.read s (a.key kind id)).map (Item.renamed ρ) :=
  mirrored.read isRelated kind.collection id

theorem fetch_mirrored {δ : Type} (parse : Json → Option δ) (operation : Operation)
    (kind : EntityKind) (id : Uuid) :
    a.fetch parse operation kind id t =
      (a.fetch parse operation kind id s).map fun found => (found.1, ρ found.2) := by
  rw [fetch, fetch, read_key_mirrored mirrored isRelated]
  cases DocumentStore.read s (a.key kind id) with
  | error e => rfl
  | ok item =>
    have sameDocument : (item.renamed ρ).doc = item.doc := rfl
    simp only [Except.map, sameDocument]
    cases parse item.doc <;> rfl

theorem hasPlan_mirrored (id : Uuid) : a.hasPlan id t = a.hasPlan id s := by
  rw [hasPlan, hasPlan, read_key_mirrored mirrored isRelated]
  cases DocumentStore.read s (a.key .plan id) <;> rfl

theorem readAction_mirrored (planId id : Uuid) :
    a.readAction t planId id = (a.readAction s planId id).map (Action.mapState ρ.change) := by
  refine Except.bind_of_map (fetch_mirrored mirrored isRelated _ _ _ _) ?_
  rintro ⟨d, token⟩
  exact Except.bind_of_each fun _ => decodeAction_renamed d token

theorem readChecks_mirrored (planId id : Uuid) :
    a.readChecks t planId id = (a.readChecks s planId id).map (Checks.mapStates ρ.change) := by
  refine Except.bind_of_map (fetch_mirrored mirrored isRelated _ _ _ _) ?_
  rintro ⟨d, token⟩
  refine Except.bind_of_each fun _ => ?_
  refine Except.bind_of_map (decoded_of_map (d.decode_renamed token)) fun _ => ?_
  exact Except.bind_of_map (Except.mapM_of_map (readAction_mirrored mirrored isRelated planId))
    fun _ => rfl

theorem readSequence_mirrored (planId id : Uuid) :
    a.readSequence t planId id =
      (a.readSequence s planId id).map (Sequence.mapStates ρ.change) := by
  refine Except.bind_of_map (fetch_mirrored mirrored isRelated _ _ _ _) ?_
  rintro ⟨d, token⟩
  refine Except.bind_of_each fun _ => ?_
  refine Except.bind_of_map (decoded_of_map (d.decode_renamed token)) fun _ => ?_
  exact Except.bind_of_map (Except.mapM_of_map (readAction_mirrored mirrored isRelated planId))
    fun _ => rfl

theorem readSlots_mirrored (planId : Uuid) (kind : EntityKind) (id : Uuid) (refs : CheckRefs) :
    a.readSlots t planId kind id refs =
      (a.readSlots s planId kind id refs).map
        (Slots.map (Option.map (Checks.mapStates ρ.change))) := by
  refine Except.bind_of_each fun ids => ?_
  apply Slots.mapM_of_map
  rintro slot (_ | checksId)
  · rfl
  · rw [readSlot, readSlot, readChecks_mirrored mirrored isRelated]
    cases a.readChecks s planId checksId <;> rfl

theorem readBlock_mirrored (planId id : Uuid) :
    a.readBlock t planId id = (a.readBlock s planId id).map (Block.mapStates ρ.change) := by
  refine Except.bind_of_map (fetch_mirrored mirrored isRelated _ _ _ _) ?_
  rintro ⟨d, token⟩
  refine Except.bind_of_each fun _ => ?_
  refine Except.bind_of_map (decoded_of_map (d.decode_renamed token)) fun _ => ?_
  refine Except.bind_of_map (readSlots_mirrored mirrored isRelated _ _ _ _) fun checks => ?_
  exact Except.bind_of_map
    (Except.mapM_of_map (readSequence_mirrored mirrored isRelated planId)) fun _ => rfl

/-- Plans are read alike, under renamed tokens. -/
theorem read_mirrored (id : Uuid) : a.read t id = (a.read s id).map (Plan.renamed ρ) := by
  refine Except.bind_of_map (fetch_mirrored mirrored isRelated _ _ _ _) ?_
  rintro ⟨d, token⟩
  refine Except.bind_of_map (decoded_of_map (d.decode_renamed token)) fun _ => ?_
  refine Except.bind_of_map (readSlots_mirrored mirrored isRelated _ _ _ _) fun checks => ?_
  exact Except.bind_of_map (Except.mapM_of_map (readBlock_mirrored mirrored isRelated id))
    fun _ => rfl

/-- So are actions by themselves. -/
theorem actions_mirrored (ids : List Uuid) :
    a.actions t ids = (a.actions s ids).map (List.map (Action.mapState ρ.change)) := by
  refine Except.mapM_of_map fun id => ?_
  refine Except.bind_of_map (fetch_mirrored mirrored isRelated _ _ _ _) ?_
  rintro ⟨d, token⟩
  exact decodeAction_renamed d token

end

/-! ## Creating -/

/-- What a commit reports, with the store that it leaves. -/
def Commit.outcome {σ : Type} (made : Commit σ) :
    (Option ArchiveError × List (Uuid × VersionToken)) × σ :=
  ((made.failure, made.tokens), made.store)

/-- What a commit came to, under renamed tokens. -/
def Commit.renamed {σ : Type} (ρ : Renaming) (made : Commit σ) : Commit σ :=
  { made with tokens := made.tokens.map fun e => (e.1, ρ e.2) }

omit [DocumentStore τ] in
theorem takeOver_eq (a : Archive) (planId : Uuid) (p : PendingDocument) (s : σ) :
    a.takeOver planId p s = match DocumentStore.read s (a.key p.kind p.id) with
      | .error e => (.error (.ofStore .create p.kind p.id e), s)
      | .ok existing =>
        if owner? existing.doc = some planId then
          reported (.ofStore .create p.kind p.id)
            (DocumentStore.replace s (a.key p.kind p.id) p.doc (some existing.token))
        else (.error (.alreadyExists p.kind p.id), s) := by
  rw [takeOver]
  cases DocumentStore.read s (a.key p.kind p.id) with
  | error e => rfl
  | ok existing =>
    dsimp only
    congr 1
    obtain ⟨result, t⟩ :=
      DocumentStore.replace s (a.key p.kind p.id) p.doc (some existing.token)
    cases result <;> rfl

section

variable {good : σ → Prop} (mirrored : MirroredWrites a.part ρ good related)
include mirrored

theorem good_of_takeOver {planId : Uuid} {p : PendingDocument}
    (isGood : good (a.takeOver planId p s).2) : good s := by
  rw [takeOver_eq] at isGood
  split at isGood
  · exact isGood
  · split at isGood
    · exact mirrored.beforeReplace isGood
    · exact isGood

theorem good_created {planId : Uuid} {p : PendingDocument}
    (isGood : good (a.writeDocument planId p s).2) :
    good (DocumentStore.create s (a.key p.kind p.id) p.doc).2 := by
  rw [writeDocument] at isGood
  generalize DocumentStore.create s (a.key p.kind p.id) p.doc = made at isGood ⊢
  obtain ⟨result, t⟩ := made
  cases result with
  | ok token => exact isGood
  | error e =>
    dsimp only at isGood
    split at isGood
    · exact good_of_takeOver mirrored isGood
    · exact isGood

omit [DocumentStore τ] mirrored in
theorem good_written {planId : Uuid} {p : PendingDocument} {rest : List PendingDocument}
    (before : ∀ t, good (a.commit planId rest t).store → good t)
    (isGood : good (a.commit planId (p :: rest) s).store) :
    good (a.writeDocument planId p s).2 := by
  rw [commit] at isGood
  generalize a.writeDocument planId p s = made at isGood ⊢
  obtain ⟨result, t⟩ := made
  cases result with
  | error e => exact isGood
  | ok token => exact before t isGood

theorem good_of_commit {planId : Uuid} {docs : List PendingDocument} (s : σ)
    (isGood : good (a.commit planId docs s).store) : good s := by
  induction docs generalizing s with
  | nil => exact isGood
  | cons p rest inductionHypothesis =>
    exact mirrored.beforeCreate (good_created mirrored (good_written inductionHypothesis isGood))

theorem takeOver_mirrored (isRelated : related s t) (planId : Uuid) (p : PendingDocument)
    (isGood : good (a.takeOver planId p s).2) :
    SameOutcome related (translated ρ (a.takeOver planId p s)) (a.takeOver planId p t) := by
  rw [takeOver_eq] at isGood
  rw [takeOver_eq, takeOver_eq, read_key_mirrored mirrored.toMirroredReads isRelated]
  cases found : DocumentStore.read s (a.key p.kind p.id) with
  | error e => exact ⟨rfl, isRelated⟩
  | ok existing =>
    have sameDocument : (existing.renamed ρ).doc = existing.doc := rfl
    simp only [found] at isGood
    simp only [Except.map, sameDocument]
    by_cases owned : owner? existing.doc = some planId
    · rw [if_pos owned] at isGood
      rw [if_pos owned, if_pos owned]
      exact (mirrored.replace isRelated _ _ _ _ isGood).report _
    · rw [if_neg owned, if_neg owned]
      exact ⟨rfl, isRelated⟩

theorem writeDocument_mirrored (isRelated : related s t) (planId : Uuid) (p : PendingDocument)
    (isGood : good (a.writeDocument planId p s).2) :
    SameOutcome related (translated ρ (a.writeDocument planId p s))
      (a.writeDocument planId p t) := by
  have creates : SameOutcome related
      (translated ρ (DocumentStore.create s (a.key p.kind p.id) p.doc))
      (DocumentStore.create t (a.key p.kind p.id) p.doc) :=
    mirrored.create isRelated _ _ _ (good_created mirrored isGood)
  obtain ⟨result, u, v, ofFirst, ofSecond, stillRelated⟩ := creates.exists_translated
  rw [writeDocument, ofFirst] at isGood
  rw [writeDocument, writeDocument, ofFirst, ofSecond]
  cases result with
  | ok token => exact ⟨rfl, stillRelated⟩
  | error e =>
    dsimp only [Except.map] at isGood ⊢
    split
    · rename_i takesOver
      rw [if_pos takesOver] at isGood
      exact takeOver_mirrored mirrored stillRelated planId p isGood
    · exact ⟨rfl, stillRelated⟩

theorem commit_mirrored (isRelated : related s t) (planId : Uuid) (docs : List PendingDocument)
    (isGood : good (a.commit planId docs s).store) :
    SameOutcome related ((a.commit planId docs s).renamed ρ).outcome
      (a.commit planId docs t).outcome := by
  induction docs generalizing s t with
  | nil => exact ⟨rfl, isRelated⟩
  | cons p rest inductionHypothesis =>
    have isWritten := good_written (good_of_commit mirrored) isGood
    obtain ⟨result, u, v, ofFirst, ofSecond, stillRelated⟩ :=
      (writeDocument_mirrored mirrored isRelated planId p isWritten).exists_translated
    rw [commit, ofFirst] at isGood
    rw [commit, commit, ofFirst, ofSecond]
    cases result with
    | error e => exact ⟨rfl, stillRelated⟩
    | ok token =>
      obtain ⟨value, stores⟩ := inductionHypothesis stillRelated isGood
      have ⟨failure, tokens⟩ := Prod.mk.inj value
      exact ⟨Prod.ext failure (congrArg ((p.id, ρ token) :: ·) tokens), stores⟩

/-- Plans are created alike, under renamed tokens. -/
theorem create_mirrored (isRelated : related s t) (p : Plan) (isGood : good (a.create p s).store) :
    SameOutcome related ((a.create p s).map (Plan.renamed ρ)).outcome
      (a.create (p.renamed ρ) t).outcome := by
  have samePlan := hasPlan_mirrored mirrored.toMirroredReads isRelated p.id
  rw [create] at isGood
  rw [create, create, validated_renamed, show (p.renamed ρ).id = p.id from rfl, samePlan]
  cases valid : a.validated p with
  | error e => exact ⟨rfl, isRelated⟩
  | ok docs =>
    cases found : a.hasPlan p.id s with
    | error e => exact ⟨rfl, isRelated⟩
    | ok stored =>
      cases stored with
      | true => exact ⟨rfl, isRelated⟩
      | false =>
        simp only [valid, found] at isGood
        obtain ⟨value, stores⟩ := commit_mirrored mirrored isRelated p.id docs isGood
        have ⟨failure, tokens⟩ := Prod.mk.inj value
        refine ⟨?_, stores⟩
        simp only [Stored.outcome, Stored.map, ← failure, ← tokens, Commit.renamed,
          recordTokens_renamed]

/-! ## Updating -/

theorem patchState_mirrored (isRelated : related s t) (kind : EntityKind) (id : Uuid)
    (state : State) (more : List Patch) (isGood : good (a.patchState kind id state more s).store) :
    SameOutcome related ((a.patchState kind id state more s).map (State.renamed ρ)).outcome
      (a.patchState kind id (state.renamed ρ) more t).outcome := by
  have samePatches : statePatches (state.renamed ρ) = statePatches state := rfl
  rw [patchState] at isGood
  rw [patchState, patchState, samePatches]
  cases notNil : rejectNil kind id with
  | error e => exact ⟨rfl, isRelated⟩
  | ok _ =>
    cases encoded : statePatches state with
    | error e => exact ⟨rfl, isRelated⟩
    | ok patches =>
      simp only [notNil, encoded] at isGood
      have isPatched :
          good (DocumentStore.patch s (a.key kind id) (patches ++ more) state.token).2 := by
        generalize DocumentStore.patch s (a.key kind id) (patches ++ more) state.token = made
          at isGood ⊢
        obtain ⟨result, u⟩ := made
        cases result <;> exact isGood
      have patches : SameOutcome related
          (translated ρ (DocumentStore.patch s (a.key kind id) (patches ++ more) state.token))
          (DocumentStore.patch t (a.key kind id) (patches ++ more) (state.renamed ρ).token) :=
        mirrored.patch isRelated _ _ _ _ isPatched
      obtain ⟨result, u, v, ofFirst, ofSecond, stillRelated⟩ := patches.exists_translated
      simp only [ofFirst, ofSecond]
      cases result <;> exact ⟨rfl, stillRelated⟩

/-- Entities are updated alike, under renamed tokens. -/
theorem update_mirrored (isRelated : related s t) (x : Entity)
    (isGood : good (a.update x s).store) :
    SameOutcome related ((a.update x s).map (Entity.renamed ρ)).outcome
      (a.update (x.renamed ρ) t).outcome := by
  by_cases isPlan : x.kind = .plan
  · cases x with
    | plan p =>
      cases encoded : Field.encodeInstant Field.submitTime p.submitTime with
      | error e =>
        have alsoEncoded : Field.encodeInstant Field.submitTime (p.renamed ρ).submitTime = _ :=
          encoded
        simp only [Entity.renamed, update, updatePlan, encoded, alsoEncoded]
        exact ⟨rfl, isRelated⟩
      | ok submitTime =>
        rw [update_plan encoded] at isGood ⊢
        rw [Entity.renamed, update_plan (p := p.renamed ρ) encoded]
        exact (patchState_mirrored mirrored isRelated _ _ _ _ isGood).map
          fun state => ((Entity.plan p).renamed ρ).withState state
    | _ => cases isPlan
  · have alsoChild : (x.renamed ρ).kind ≠ .plan := by rwa [Entity.kind_renamed]
    rw [update_child isPlan] at isGood ⊢
    rw [update_child alsoChild, Entity.kind_renamed, Entity.id_renamed, Entity.state_renamed]
    have patched := (patchState_mirrored mirrored isRelated _ _ _ _ isGood).map
      fun state => (x.renamed ρ).withState state
    simp only [Stored.map, Entity.withState_renamed] at patched ⊢
    exact patched

end

/-! ## Deleting -/

section

variable (mirrored : MirroredRemovals a.part ρ related)
include mirrored

theorem fetchExisting_mirrored {δ : Type} (parse : Json → Option δ) (kind : EntityKind)
    (id : Uuid) :
    Change.Same related
      ((a.fetchExisting parse kind id : Change σ _).map
        (Option.map fun found => (found.1, ρ found.2)))
      (a.fetchExisting parse kind id) := by
  intro s t isRelated
  refine ⟨?_, isRelated⟩
  simp only [Change.map, translated, fetchExisting, Change.looking,
    fetch_mirrored mirrored.toMirroredReads isRelated]
  cases a.fetch parse .delete kind id s with
  | ok found => rfl
  | error e =>
    dsimp only [Except.map]
    by_cases isNotFound : e.isNotFound = true
    · simp only [if_pos isNotFound, Option.map_none]
    · simp only [if_neg isNotFound]

theorem remove_mirrored (kind : EntityKind) (id : Uuid) (demanded : Option VersionToken) :
    Change.Same related (a.remove kind id demanded : Change σ _)
      (a.remove kind id (demanded.map ρ)) := by
  intro s t isRelated
  have deletes : SameOutcome related (DocumentStore.delete s (a.key kind id) demanded)
      (DocumentStore.delete t (a.key kind id) (demanded.map ρ)) :=
    mirrored.delete isRelated _ _ _
  obtain ⟨result, u, v, ofFirst, ofSecond, stillRelated⟩ := deletes.exists_eq
  rw [remove, remove, ofFirst, ofSecond]
  cases result with
  | ok _ => exact ⟨rfl, stillRelated⟩
  | error e =>
    dsimp only
    split <;> exact ⟨rfl, stillRelated⟩

theorem deleteChecks_mirrored (id : Uuid) :
    Change.Same related (a.deleteChecks id : Change σ _) (a.deleteChecks id) := by
  refine (fetchExisting_mirrored mirrored _ _ _).bind_map fun found => ?_
  cases found with
  | none => exact .done ()
  | some d =>
    exact (Change.Same.each (fun x => remove_mirrored mirrored _ x none) _).bind
      fun _ => remove_mirrored mirrored _ _ none

theorem deleteSlots_mirrored (kind : EntityKind) (id : Uuid) (refs : CheckRefs) :
    Change.Same related (a.deleteSlots kind id refs : Change σ _) (a.deleteSlots kind id refs) :=
  (Change.Same.looking fun _ _ _ => rfl).bind fun _ => .each (deleteChecks_mirrored mirrored) _

theorem deleteBlock_mirrored (id : Uuid) :
    Change.Same related (a.deleteBlock id : Change σ _) (a.deleteBlock id) := by
  refine (fetchExisting_mirrored mirrored _ _ _).bind_map fun found => ?_
  cases found with
  | none => exact .done ()
  | some d =>
    refine (deleteSlots_mirrored mirrored _ _ _).bind fun _ => ?_
    refine (Change.Same.collect_map (fun x => fetchExisting_mirrored mirrored _ _ x) _).bind_map
      fun sequences => ?_
    refine (Change.Same.each_map (fun q => .each (fun x => remove_mirrored mirrored _ x none) _)
      sequences).bind fun _ => ?_
    refine (Change.Same.each_map (fun q => ?_) sequences).bind
      fun _ => remove_mirrored mirrored _ _ none
    exact remove_mirrored mirrored _ _ none

theorem childrenOfKind_mirrored (isRelated : related s t) (planId : Uuid) (kind : EntityKind) :
    a.childrenOfKind planId kind t =
      (a.childrenOfKind planId kind s).map (List.map (Item.renamed ρ)) := by
  rw [childrenOfKind, childrenOfKind, mirrored.query isRelated]
  cases DocumentStore.query s a.part kind.collection (childrenOf planId) <;> rfl

theorem removeItem_mirrored (kind : EntityKind) (item : Item) :
    Change.Same related (a.removeItem kind item : Change σ _)
      (a.removeItem kind (item.renamed ρ)) := by
  have sameDocument : (item.renamed ρ).doc = item.doc := rfl
  rw [removeItem, removeItem, sameDocument]
  split
  · exact remove_mirrored mirrored _ _ none
  · exact .done ()

theorem sweep_mirrored (planId : Uuid) :
    Change.Same related (a.sweep planId : Change σ _) (a.sweep planId) := by
  refine .each (fun kind => Change.Same.bind_map (f := List.map (Item.renamed ρ)) ?_ fun items =>
    .each_map (removeItem_mirrored mirrored kind) items) _
  intro s t isRelated
  exact ⟨(childrenOfKind_mirrored mirrored isRelated planId kind).symm, isRelated⟩

/-- Plans are deleted alike. -/
theorem delete_mirrored (id : Uuid) :
    Change.Same related (a.delete id : Change σ _) (a.delete id) := by
  refine (Change.Same.looking fun _ _ _ => rfl).bind fun _ => ?_
  refine (fetchExisting_mirrored mirrored _ _ _).bind_map fun found => ?_
  cases found with
  | none => exact sweep_mirrored mirrored id
  | some d =>
    refine (Change.Same.each (deleteBlock_mirrored mirrored) _).bind fun _ => ?_
    exact (deleteSlots_mirrored mirrored _ _ _).bind fun _ => remove_mirrored mirrored _ _ _

/-! ## Listing -/

omit mirrored in
theorem untilError_map {ε α β : Type} (f : α → β) (results : List (Except ε α)) :
    untilError (results.map (Except.map f)) = (untilError results).map (Except.map f) := by
  induction results with
  | nil => rfl
  | cons result rest inductionHypothesis =>
    cases result with
    | error e => rfl
    | ok v => exact congrArg (Except.ok (f v) :: ·) inductionHypothesis

/-- The stored plans that a query selects are listed alike, under renamed tokens. -/
theorem summaries_mirrored (isRelated : related s t) (operation : Operation) (q : Query) :
    a.summaries t operation q =
      (a.summaries s operation q).map (Except.map (PlanSummary.renamed ρ)) := by
  rw [summaries, summaries, mirrored.query isRelated]
  cases DocumentStore.query s a.part EntityKind.plan.collection q with
  | error e => rfl
  | ok items =>
    simp only [Except.map, ← untilError_map, List.map_map]
    congr 2
    funext item
    exact PlanSummary.ofItem_renamed operation item

end

end Archive

end PlanArchive
