import Mathlib.Logic.Relation
import PlanArchive.Proofs.Archive.Adopting
import PlanArchive.Proofs.Archive.Retrying
import PlanArchive.Proofs.Archive.Tokens

/-!
# The store tracks a plan in memory

A plan that was created is worked on in memory: again and again one of its entities makes progress,
is updated, and the plan takes over what became of it (`Advances`). `read_of_advances`: after any
number of such updates the plan is read as the normal form of the one in memory, with its tokens,
and nothing but the fields of progress has changed in its documents and nothing at all elsewhere.
The plan in memory itself is not read when progress was made within a leap second, which documents
do not keep (`leap_second_not_tracked`).

The invariant is that the store holds the documents of the plan in memory under the tokens in
memory (`Tracked`). An update sets in one stored document the fields that taking over the progress
sets in the document of the plan, whatever else of the entity was changed in memory.
-/

namespace PlanArchive

/-! ## Fields that may differ -/

/-- The fields with the values of those of some names left out. -/
def blanked (names : List String) (fields : List (String × Json)) : List (String × Option Json) :=
  fields.map fun f => (f.1, if f.1 ∈ names then none else some f.2)

theorem blanked_putField {names : List String} {key : String} (value : Json)
    {fields : List (String × Json)} (isNamed : key ∈ names)
    (present : key ∈ fields.map Prod.fst) :
    blanked names (Json.putField key value fields) = blanked names fields := by
  induction fields with
  | nil => cases present
  | cons f rest inductionHypothesis =>
    rw [Json.putField]
    split
    · rename_i same
      simp [blanked, same, isNamed]
    · rename_i other
      have inRest : key ∈ rest.map Prod.fst :=
        (List.mem_cons.mp present).resolve_left (Ne.symm other)
      have later := inductionHypothesis inRest
      simp only [blanked, List.map_cons] at later ⊢
      rw [later]

theorem map_fst_blanked (names : List String) (fields : List (String × Json)) :
    (blanked names fields).map Prod.fst = fields.map Prod.fst := by
  rw [blanked, List.map_map]
  rfl

/-- Setting fields of these names that are all there changes no other field. -/
theorem blanked_apply {names : List String} {set fields : List (String × Json)}
    (areNamed : ∀ f ∈ set, f.1 ∈ names) (present : names ⊆ fields.map Prod.fst) :
    blanked names (Patch.apply set fields) = blanked names fields := by
  induction set generalizing fields with
  | nil => rfl
  | cons f rest inductionHypothesis =>
    have ⟨isNamed, restNamed⟩ := List.forall_mem_cons.mp areNamed
    have kept := blanked_putField f.2 isNamed (present isNamed)
    have stillPresent : names ⊆ (Json.putField f.1 f.2 fields).map Prod.fst := by
      rwa [← map_fst_blanked names, kept, map_fst_blanked]
    exact (inductionHypothesis restNamed stillPresent).trans kept

/-- A document has every field that updates set. -/
theorem Document.updatable_subset (d : Document) : updatable d.kind ⊆ d.fields.map Prod.fst := by
  cases d <;> simp [updatable, kind, fields, toJson, PlanDocument.toJson, BlockDocument.toJson,
    ChecksDocument.toJson, SequenceDocument.toJson, ActionDocument.toJson, StateRecord.fields]

/-! ## Plans that change in memory -/

theorem Plan.entities_adopt (p : Plan) (x : Entity) : (p.adopt x).entities = p.entities := by
  cases x with
  | plan y =>
    exact entities_mapStates _ { p with submitTime := y.submitTime, reason := y.reason }
  | _ => exact entities_mapStates _ p

theorem Plan.id_adopt (p : Plan) (x : Entity) : (p.adopt x).id = p.id := by
  cases x <;> rfl

theorem Checks.flatMap_actions_mapStates (f : StateChange) (slots : Slots (Option Checks)) :
    (slots.map (Option.map (Checks.mapStates f))).present.flatMap actions =
      (slots.present.flatMap actions).map (Action.mapState f) := by
  rw [Slots.present_map, List.flatMap_map, List.map_flatMap]
  rfl

theorem Plan.actions_mapStates (f : StateChange) (p : Plan) :
    (p.mapStates f).actions = p.actions.map (Action.mapState f) := by
  simp only [actions, mapStates, Checks.flatMap_actions_mapStates, List.map_append,
    List.flatMap_map, List.map_flatMap, Block.mapStates]
  rfl

theorem Plan.actions_adopt (p : Plan) (x : Entity) :
    (p.adopt x).actions = p.actions.map (Action.mapState x.adopting) := by
  cases x with
  | plan y =>
    exact actions_mapStates _ { p with submitTime := y.submitTime, reason := y.reason }
  | _ => exact actions_mapStates _ p

@[simp] theorem Entity.progress_atRevision (x : Entity) (token : VersionToken) :
    (x.atRevision token).progress = x.progress := by
  cases x <;> rfl

/-- The tokens with a new one for an identifier. -/
def retoken (tokenOf : Uuid → VersionToken) (id : Uuid) (token : VersionToken) :
    Uuid → VersionToken :=
  fun x => if x = id then token else tokenOf x

/-- A plan that has its tokens has the new one when it takes over an entity with that. -/
theorem Plan.stamp_mapStates_adopting {p : Plan} {x : Entity} {tokenOf : Uuid → VersionToken}
    {token : VersionToken} (distinct : (p.entities.map Prod.snd).Nodup)
    (isEntity : x.ref ∈ p.entities) (stamped : p.mapStates (stamp tokenOf) = p) :
    (p.mapStates (x.atRevision token).adopting).mapStates (stamp (retoken tokenOf x.id token)) =
      p.mapStates (x.atRevision token).adopting := by
  have sameRef : (x.atRevision token).ref = x.ref := x.ref_withState _
  have sameState : (x.atRevision token).state = { x.state with token := some token } :=
    x.state_withState _
  rw [← stamped]
  simp only [mapStates_mapStates]
  apply mapStates_congr
  intro e member
  funext state
  by_cases isOwn : e = x.ref
  · subst isOwn
    have isNew : retoken tokenOf x.id token x.ref.2 = token := if_pos rfl
    have adopts (state : State) : (x.atRevision token).adopting x.ref.1 x.ref.2 state =
        { x.state with token := some token } := (if_pos sameRef.symm).trans sameState
    simp only [adopts, stamp, isNew]
  · have otherId : e.2 ≠ x.id :=
      fun same => isOwn (EntityRef.eq_of_snd distinct member isEntity same)
    simp only [Entity.adopting, sameRef, isOwn, if_false, stamp, retoken, otherId]

theorem Plan.stamp_adopt {p : Plan} {x : Entity} {tokenOf : Uuid → VersionToken}
    {token : VersionToken} (distinct : (p.entities.map Prod.snd).Nodup)
    (isEntity : x.ref ∈ p.entities) (stamped : p.mapStates (stamp tokenOf) = p) :
    (p.adopt (x.atRevision token)).mapStates (stamp (retoken tokenOf x.id token)) =
      p.adopt (x.atRevision token) := by
  cases x with
  | plan y =>
    exact stamp_mapStates_adopting (p := { p with submitTime := y.submitTime, reason := y.reason })
      distinct isEntity (congrArg
        (fun q : Plan => { q with submitTime := y.submitTime, reason := y.reason }) stamped)
  | _ => exact stamp_mapStates_adopting distinct isEntity stamped

namespace Archive

variable {a : Archive} {p q : Plan} {s t : MemoryStore}

/-! ## Updates of a plan in memory -/

/-- An entity of a plan in memory is written as it has become, and the plan takes over its
progress and its new token. -/
inductive Advances (a : Archive) : MemoryStore × Plan → MemoryStore × Plan → Prop
  | update {s : MemoryStore} {q : Plan} {x : Entity} (isEntity : x.ref ∈ q.entities)
      (updated : (a.update x s).result = .ok ()) :
      Advances a (s, q) ((a.update x s).store, q.adopt (a.update x s).entity)

/-- What updates of some entities may have changed in the contents of a store. -/
structure Progressed (a : Archive) (entities : List EntityRef) (c d : Contents) : Prop where
  own : ∀ e ∈ entities, ∃ written stored old token,
    c.find? (a.key e.1 e.2) = some ⟨.obj written, old⟩ ∧
      d.find? (a.key e.1 e.2) = some ⟨.obj stored, token⟩ ∧
      blanked (updatable e.1) stored = blanked (updatable e.1) written
  others : ∀ key, (∀ e ∈ entities, key ≠ a.key e.1 e.2) → d.find? key = c.find? key

/-- The store holds the documents of the plan in memory, which is a later form of another, under
the tokens in memory. -/
structure Tracked (a : Archive) (p : Plan) (s : MemoryStore) (q : Plan) : Prop where
  id : q.id = p.id
  entities : q.entities = p.entities
  readable : ∀ x ∈ q.actions, x.Readable a.registry
  held : ∃ docs tokenOf, a.documents q = .ok docs ∧ a.Holds s tokenOf docs ∧
    q.mapStates (stamp tokenOf) = q

/-- The documents of a plan are stored as objects that have the fields of their kinds. -/
theorem fields_of_holds {docs : List PendingDocument} {tokenOf : Uuid → VersionToken}
    (notNil : ∀ e ∈ q.entities, e.2.isNil = false) (encoded : a.documents q = .ok docs)
    (holds : a.Holds s tokenOf docs) {e : EntityRef} (isEntity : e ∈ q.entities) :
    ∃ fields, s.contents.find? (a.key e.1 e.2) = some ⟨.obj fields, tokenOf e.2⟩ ∧
      updatable e.1 ⊆ fields.map Prod.fst := by
  obtain ⟨r, isDocument, rfl⟩ := (mem_entities_iff encoded).mp isEntity
  obtain ⟨d, rfl, _⟩ := (forest_of_documents notNil encoded).laidOut r isDocument
  refine ⟨d.fields, ?_, d.updatable_subset⟩
  rw [← d.toJson_eq]
  exact MemoryStore.read_eq_ok.mp (holds _ isDocument)

/-- What updates of some entities may have changed, when one more of them is updated. -/
theorem Progressed.update {entities : List EntityRef} {c d : Contents} {x : Entity}
    {progress : Progress} {members : List (String × Json)} {old token : VersionToken}
    (before : a.Progressed entities c d) (isEntity : x.ref ∈ entities)
    (encoded : x.progress = .ok progress)
    (stored : d.find? (a.key x.kind x.id) = some ⟨.obj members, old⟩)
    (present : updatable x.kind ⊆ members.map Prod.fst) :
    a.Progressed entities c (d.put (a.key x.kind x.id)
      ⟨.obj (Patch.apply progress.fields members), token⟩) := by
  refine ⟨?_, ?_⟩
  · intro e member
    obtain ⟨written, fields, first, last, wasWritten, isStored, same⟩ := before.own e member
    rw [Contents.find?_put]
    by_cases isOwn : e = x.ref
    · subst isOwn
      cases stored.symm.trans isStored
      have names := Progress.map_fst_fields (Entity.isOf_of_progress encoded)
      have areNamed : ∀ f ∈ progress.fields, f.1 ∈ updatable x.kind :=
        fun f isField => names ▸ List.mem_map.mpr ⟨f, isField, rfl⟩
      exact ⟨written, _, first, token, wasWritten, if_pos rfl,
        (blanked_apply areNamed present).trans same⟩
    · have otherKey : a.key e.1 e.2 ≠ a.key x.kind x.id :=
        fun sameKey => isOwn (key_injective sameKey)
      exact ⟨written, fields, first, last, wasWritten, (if_neg otherKey).trans isStored, same⟩
  · intro key foreign
    have notOwn : key ≠ a.key x.kind x.id := foreign _ isEntity
    rw [Contents.find?_put, if_neg notOwn, before.others key foreign]

/-- A store that holds documents holds them with the progress that was written into one of them. -/
theorem Holds.advance {docs : List PendingDocument} {tokenOf : Uuid → VersionToken} {x : Entity}
    {progress : Progress} {members : List (String × Json)} {old token : VersionToken}
    (holds : a.Holds s tokenOf docs) (unique : ∀ r ∈ docs, r.id = x.id → r.entity = x.ref)
    (stored : s.contents.find? (a.key x.kind x.id) = some ⟨.obj members, old⟩)
    (put : t.contents = s.contents.put (a.key x.kind x.id)
      ⟨.obj (Patch.apply progress.fields members), token⟩) :
    a.Holds t (retoken tokenOf x.id token) (docs.map (PendingDocument.advance x.ref progress)) := by
  intro advanced member
  obtain ⟨r, isDocument, rfl⟩ := List.mem_map.mp member
  have wasStored : s.contents.find? (a.place r) = some ⟨r.doc, tokenOf r.id⟩ :=
    MemoryStore.read_eq_ok.mp (holds r isDocument)
  apply MemoryStore.read_eq_ok.mpr
  by_cases isOwn : r.entity = x.ref
  · have isKey : a.place r = a.key x.kind x.id := congrArg (fun e => a.key e.1 e.2) isOwn
    have isNew : retoken tokenOf x.id token r.id = token := if_pos (congrArg Prod.snd isOwn)
    have isObject : r.doc = .obj members :=
      congrArg Item.doc (Option.some.inj (wasStored.symm.trans (isKey ▸ stored)))
    rw [PendingDocument.advance_of_eq progress isOwn isObject]
    change t.contents.find? (a.place r) = some ⟨_, retoken tokenOf x.id token r.id⟩
    rw [isKey, put, Contents.find?_put, if_pos rfl, isNew]
  · have otherId : r.id ≠ x.id := fun same => isOwn (unique r isDocument same)
    have otherKey : a.place r ≠ a.key x.kind x.id := fun same => isOwn (key_injective same)
    rw [PendingDocument.advance_of_ne progress isOwn, put, Contents.find?_put, if_neg otherKey,
      wasStored, retoken, if_neg otherId]

/-- Taking over what became of an entity that was updated keeps the plan tracked. -/
theorem Tracked.update {c : Contents} {x : Entity}
    (notNil : ∀ e ∈ p.entities, e.2.isNil = false) (distinct : (p.entities.map Prod.snd).Nodup)
    (tracked : a.Tracked p s q) (progressed : a.Progressed p.entities c s.contents)
    (isEntity : x.ref ∈ q.entities) (updated : (a.update x s).result = .ok ()) :
    a.Tracked p (a.update x s).store (q.adopt (a.update x s).entity) ∧
      a.Progressed p.entities c (a.update x s).store.contents := by
  obtain ⟨sameId, sameEntities, readable, docs, tokenOf, encoded, holds, stamped⟩ := tracked
  rcases a.update_cases x s with ⟨e, t, failed, _⟩ |
    ⟨progress, members, old, token, t, _, isProgress, stored, succeeded, put⟩
  · rw [failed] at updated
    cases updated
  · rw [succeeded]
    have sameRef : (x.atRevision token).ref = x.ref := x.ref_withState _
    have adopted := documents_adopt (sameRef.symm ▸ isEntity)
      ((x.progress_atRevision token).trans isProgress) encoded
    rw [sameRef] at adopted
    have unique : ∀ r ∈ docs, r.id = x.id → r.entity = x.ref := fun r isDocument same =>
      EntityRef.eq_of_snd (sameEntities ▸ distinct)
        ((mem_entities_iff encoded).mpr ⟨r, isDocument, rfl⟩) isEntity same
    obtain ⟨fields, isStored, present⟩ :=
      fields_of_holds (sameEntities ▸ notNil) encoded holds isEntity
    cases stored.symm.trans isStored
    refine ⟨⟨?_, ?_, ?_, ?_⟩, ?_⟩
    · exact (q.id_adopt _).trans sameId
    · exact (q.entities_adopt _).trans sameEntities
    · intro y isAction
      rw [q.actions_adopt] at isAction
      obtain ⟨z, wasAction, rfl⟩ := List.mem_map.mp isAction
      exact readable z wasAction
    · exact ⟨_, _, adopted, holds.advance unique stored put,
        Plan.stamp_adopt (sameEntities ▸ distinct) isEntity stamped⟩
    · rw [put]
      exact progressed.update (sameEntities ▸ isEntity) isProgress stored present

theorem Tracked.advances {c : Contents} {first now : MemoryStore × Plan}
    (notNil : ∀ e ∈ p.entities, e.2.isNil = false) (distinct : (p.entities.map Prod.snd).Nodup)
    (tracked : a.Tracked p first.1 first.2)
    (progressed : a.Progressed p.entities c first.1.contents)
    (run : Relation.ReflTransGen a.Advances first now) :
    a.Tracked p now.1 now.2 ∧ a.Progressed p.entities c now.1.contents := by
  induction run with
  | refl => exact ⟨tracked, progressed⟩
  | tail _ last inductionHypothesis =>
    obtain ⟨tracked, progressed⟩ := inductionHypothesis
    cases last with
    | update isEntity updated => exact tracked.update notNil distinct progressed isEntity updated

/-- A plan that was created is tracked. -/
theorem tracked_of_create (created : (a.create p s).result = .ok ())
    (readable : ∀ x ∈ p.actions, x.Readable a.registry) :
    a.Tracked p (a.create p s).store (a.create p s).entity ∧
      a.Progressed p.entities (a.create p s).store.contents (a.create p s).store.contents := by
  obtain ⟨docs, tokenOf, valid, holds, entity⟩ := holds_of_create created
  obtain ⟨encoded, notNil, distinct⟩ := validated_eq_ok valid
  refine ⟨⟨?_, ?_, ?_, docs, tokenOf, ?_, holds, ?_⟩, ?_, fun _ _ => rfl⟩
  · rw [entity]
    rfl
  · rw [entity, Plan.entities_mapStates]
  · intro x isAction
    rw [entity, Plan.actions_mapStates] at isAction
    obtain ⟨y, isOwn, rfl⟩ := List.mem_map.mp isAction
    exact readable y isOwn
  · rw [entity]
    exact (validated_eq_ok ((validated_congr (p.withoutTokens_stamp tokenOf)).trans valid)).1
  · rw [entity, Plan.mapStates_mapStates]
    rfl
  · intro e isEntity
    obtain ⟨fields, stored, _⟩ := fields_of_holds notNil encoded holds isEntity
    exact ⟨fields, fields, _, _, stored, stored, rfl⟩

/-- After a plan was created and any number of its entities were updated, the plan is read as the
normal form of the one in memory, with its tokens, provided that its payloads are given back. Its
documents are those that were created but for fields of progress, and all others are as they
were. -/
theorem read_of_advances (created : (a.create p s).result = .ok ())
    (readable : ∀ x ∈ p.actions, x.Readable a.registry)
    (run : Relation.ReflTransGen a.Advances ((a.create p s).store, (a.create p s).entity) (t, q)) :
    (∃ r, a.read t p.id = .ok r ∧
      r.mapActions .comparable = q.normal.mapActions .comparable) ∧
    a.Progressed p.entities (a.create p s).store.contents t.contents := by
  obtain ⟨docs, _, valid, _, _⟩ := holds_of_create created
  obtain ⟨_, notNil, distinct⟩ := validated_eq_ok valid
  obtain ⟨startTracked, startProgressed⟩ := tracked_of_create created readable
  obtain ⟨tracked, progressed⟩ :=
    Tracked.advances notNil distinct startTracked startProgressed run
  obtain ⟨sameId, sameEntities, stillReadable, docs, tokenOf, encoded, holds, stamped⟩ := tracked
  obtain ⟨r, isRead, alike⟩ := read_of_holds (sameEntities ▸ notNil) encoded holds stillReadable
  rw [stamped] at alike
  exact ⟨⟨r, sameId ▸ isRead, alike⟩, progressed⟩

/-- The action of the demo plan, running and with another name. -/
def runningAction : Entity :=
  .action {
    id := numbered 5
    key := none
    name := "renamed"
    descr := ""
    plugin := "shell"
    timeout := .zero
    retries := 0
    request := none
    attempts := []
    state := ⟨.running, some (.ofNanos 7), none, some (.minted 1)⟩ }

/-- The demo plan, submitted before the epoch. -/
def submittedPlan : Entity :=
  .plan { demoPlan with
    state := ⟨.running, some (.ofNanos 6), none, some (.minted 4)⟩
    submitTime := some (.ofNanos (-1))
    reason := .unknown }

/-- The demo plan was created and one after the other the action and the plan were updated. -/
def updatedTwice : MemoryStore × Plan :=
  let created := demo.create demoPlan MemoryStore.empty
  let first := demo.update runningAction created.store
  let second := demo.update submittedPlan first.store
  (second.store, (created.entity.adopt first.entity).adopt second.entity)

theorem read_of_advances_updatedTwice :
    (demo.create demoPlan MemoryStore.empty).result = .ok () ∧
    Relation.ReflTransGen demo.Advances ((demo.create demoPlan MemoryStore.empty).store,
      (demo.create demoPlan MemoryStore.empty).entity) updatedTwice ∧
    (∃ r, demo.read updatedTwice.1 demoPlan.id = .ok r ∧
      r.mapActions .comparable = updatedTwice.2.normal.mapActions .comparable) ∧
    demo.Progressed demoPlan.entities
      (demo.create demoPlan MemoryStore.empty).store.contents updatedTwice.1.contents := by
  have firstUpdates : (demo.update runningAction
      (demo.create demoPlan MemoryStore.empty).store).result = .ok () :=
    Except.eq_ok_of_isOk (by decide +kernel)
  have secondUpdates : (demo.update submittedPlan (demo.update runningAction
      (demo.create demoPlan MemoryStore.empty).store).store).result = .ok () :=
    Except.eq_ok_of_isOk (by decide +kernel)
  have run : Relation.ReflTransGen demo.Advances ((demo.create demoPlan MemoryStore.empty).store,
      (demo.create demoPlan MemoryStore.empty).entity) updatedTwice :=
    .tail (.single (.update (by decide +kernel) firstUpdates))
      (.update (by decide +kernel) secondUpdates)
  exact ⟨rfl, run, read_of_advances rfl readable_demoPlan run⟩

/-- The demo plan, running since a leap second. -/
def leapUpdate : Entity :=
  .plan { demoPlan with state := ⟨.running, some leapSecond, none, some (.minted 4)⟩ }

/-- The demo plan was created and updated once. -/
def updatedInLeapSecond : MemoryStore × Plan :=
  let created := demo.create demoPlan MemoryStore.empty
  let updated := demo.update leapUpdate created.store
  (updated.store, created.entity.adopt updated.entity)

/-- An update with a start within a leap second, long after the epoch, succeeds, and the plan is read
back as started in the second after it. -/
theorem leap_second_not_tracked :
    (demo.create demoPlan MemoryStore.empty).result = .ok () ∧
    (∀ x ∈ demoPlan.actions, x.Readable demo.registry) ∧
    Relation.ReflTransGen demo.Advances ((demo.create demoPlan MemoryStore.empty).store,
      (demo.create demoPlan MemoryStore.empty).entity) updatedInLeapSecond ∧
    Instant.afterEpoch? updatedInLeapSecond.2.state.start = updatedInLeapSecond.2.state.start ∧
    ∃ r, demo.read updatedInLeapSecond.1 demoPlan.id = .ok r ∧
      r.state.start = some newYear ∧ r.state.start ≠ updatedInLeapSecond.2.state.start := by
  have updates : (demo.update leapUpdate
      (demo.create demoPlan MemoryStore.empty).store).result = .ok () :=
    Except.eq_ok_of_isOk (by decide +kernel)
  have started : updatedInLeapSecond.2.state.start = some leapSecond := by decide +kernel
  have outcome : (demo.read updatedInLeapSecond.1 demoPlan.id).map (fun r => r.state.start) =
      .ok (some newYear) := by decide +kernel
  obtain ⟨r, isRead, start⟩ := Except.map_eq_ok.mp outcome
  refine ⟨rfl, readable_demoPlan, .single (.update (by decide +kernel) updates), ?_, r, isRead,
    start, ?_⟩
  · rw [started]
    decide
  · rw [start, started]
    decide

end Archive

end PlanArchive
