import PlanArchive.Proofs.Archive.Keeping
import PlanArchive.Proofs.Archive.Validation

/-!
# What a creation leaves behind

A creation that does not succeed is refused with nothing done, because the plan is not valid or is
stored already, or it has written the documents of the first entities of the plan and failed with
the next one, which its error names. `creation_outcome` says so for any contents of the store and
any number of writes that it lets through: exactly these entities have their documents, under tokens
that are new and recorded on them, and the plan itself is not stored.
-/

namespace PlanArchive

namespace Archive

variable {a : Archive} {p : Plan} {s : MemoryStore} {id : Uuid} {docs : List PendingDocument}
  {written : List WrittenDocument}

/-- Recording tokens on a plan changes nothing else of it. -/
theorem withoutTokens_recordTokens (tokens : List (Uuid × VersionToken)) (p : Plan) :
    (recordTokens tokens p).withoutTokens = p.withoutTokens := by
  rw [Plan.withoutTokens, recordTokens, Plan.mapStates_mapStates]
  apply Plan.mapStates_congr
  intro e _
  funext state
  dsimp only
  split <;> rfl

/-- A plan that is not stored is not found. -/
theorem read_of_gone (gone : a.Gone s.contents (.plan, id)) :
    a.read s id = .error (.notFound .plan id) := by
  have reading : DocumentStore.read s (a.key .plan id) = s.read (a.key .plan id) := rfl
  have failed : s.read (a.key .plan id) =
      .error (.notFound (a.key .plan id).collection (a.key .plan id).id) := by
    rw [MemoryStore.read_eq, gone]
  simp [read, fetch, reading, failed, ArchiveError.ofStore, bind, Except.bind]

theorem hasPlan_of_gone (gone : a.Gone s.contents (.plan, id)) : a.hasPlan id s = .ok false := by
  rw [hasPlan_eq, show s.contents.find? (a.key .plan id) = none from gone]
  rfl

/-! ## Why a creation fails -/

namespace Refused

variable {q : PendingDocument} {c : Contents} {faultless : Prop} {planId : Uuid}
  {e : ArchiveError}

/-- Documents are written of plans that were found valid. -/
theorem ne_validation (refused : a.Refused planId q c faultless e) (cause : Rejection) :
    e ≠ .validation cause := by
  rintro rfl
  cases refused.names

/-- A plan that is not stored is not in the way of its own document. -/
theorem ne_alreadyExists (refused : a.Refused planId q c faultless e)
    (gone : a.Gone c (.plan, id)) : e ≠ .alreadyExists .plan id := by
  rintro rfl
  have isPlan : (EntityKind.plan, id) = q.entity := Option.some.inj refused.names
  have sameKind : q.kind = .plan := (congrArg Prod.fst isPlan).symm
  have sameId : q.id = id := (congrArg Prod.snd isPlan).symm
  apply refused.taken
  · rw [sameKind, sameId]
  · rw [place, sameKind, sameId]
    exact gone

end Refused

/-- A creation is refused as a rejection of its input exactly when the plan is not valid. -/
theorem create_rejects_iff :
    (∃ cause, (a.create p s).result = .error (.validation cause)) ↔ ¬ p.Valid := by
  rcases a.create_cases p s with
    ⟨e, invalid, refused⟩ | ⟨valid, _, refused⟩ | ⟨docs, written, attempted⟩
  · have notValid : ¬ p.Valid := by
      intro valid
      obtain ⟨docs, isValid⟩ := exists_validated.mpr valid
      cases invalid.symm.trans isValid
    obtain ⟨cause, rfl⟩ := rejects_validated p e invalid
    rw [refused]
    exact iff_of_true ⟨cause, rfl⟩ notValid
  · rw [refused]
    exact iff_of_false (by simp) (not_not_intro (exists_validated.mp valid))
  · refine iff_of_false ?_ (not_not_intro (exists_validated.mp ⟨docs, attempted.valid⟩))
    rintro ⟨cause, rejected⟩
    rcases attempted.ended with ⟨succeeded, _⟩ | ⟨e, q, rest, failed, _, refused⟩
    · cases rejected.symm.trans succeeded
    · exact refused.ne_validation cause (Except.error.inj (failed.symm.trans rejected))

/-! ## The documents that were written -/

namespace Attempted

theorem isPrefix (attempted : a.Attempted p s docs written) : written.map Prod.fst <+: docs := by
  rcases attempted.ended with ⟨_, all⟩ | ⟨_, q, rest, _, split, _⟩
  · exact all ▸ List.prefix_rfl
  · exact ⟨q :: rest, split.symm⟩

theorem entities (attempted : a.Attempted p s docs written) :
    written.map (fun w => w.1.entity) = p.entities.take written.length := by
  obtain ⟨encoded, _, _⟩ := validated_eq_ok attempted.valid
  obtain ⟨rest, split⟩ := attempted.isPrefix
  rw [← entities_of_documents encoded, ← split, List.map_append, List.map_map]
  exact (List.take_left' (by rw [List.length_map])).symm

/-- The entity after those whose documents were written is that of the next document. -/
theorem next (attempted : a.Attempted p s docs written) {q : PendingDocument}
    {rest : List PendingDocument} (split : docs = written.map Prod.fst ++ q :: rest) :
    p.entities[written.length]? = some q.entity := by
  obtain ⟨encoded, _, _⟩ := validated_eq_ok attempted.valid
  rw [← entities_of_documents encoded, split, List.getElem?_map,
    List.getElem?_append_right (by simp)]
  simp

theorem distinct (attempted : a.Attempted p s docs written) :
    (written.map fun w => w.1.id).Nodup := by
  obtain ⟨_, _, distinct⟩ := validated_eq_ok attempted.valid
  have ids : written.map (fun w => w.1.id) =
      (p.entities.map Prod.snd).take written.length := by
    rw [← List.map_take, ← attempted.entities, List.map_map]
    rfl
  rw [ids]
  exact distinct.sublist (List.take_sublist _ _)

/-- Each document that was written is the one at its place in the list, under the token that was
minted for it. -/
theorem getElem? (attempted : a.Attempted p s docs written) {i : Nat} (isPlace : i < written.length)
    {q : PendingDocument} (found : docs[i]? = some q) :
    written[i]? = some (q, .minted (s.minted + i)) := by
  have isWritten := List.getElem?_eq_getElem isPlace
  have isDocument : written[i].1 = q := by
    obtain ⟨rest, split⟩ := attempted.isPrefix
    rw [← split, List.getElem?_append_left (by rwa [List.length_map]), List.getElem?_map,
      isWritten] at found
    exact Option.some.inj found
  have isToken : written[i].2 = .minted (s.minted + i) := by
    have token := congrArg (·[i]?) attempted.minted
    simp only [List.getElem?_map, isWritten, List.getElem?_range' isPlace, Option.map_some,
      Option.some.injEq, Nat.one_mul] at token
    exact token
  rw [isWritten, ← isDocument, ← isToken]

theorem lookup (attempted : a.Attempted p s docs written) {i : Nat} (isPlace : i < written.length)
    {e : EntityRef} (found : p.entities[i]? = some e) :
    (written.map fun w => (w.1.id, w.2)).lookup e.2 = some (.minted (s.minted + i)) := by
  obtain ⟨encoded, _, _⟩ := validated_eq_ok attempted.valid
  rw [← entities_of_documents encoded, List.getElem?_map] at found
  obtain ⟨q, isDocument, rfl⟩ := Option.map_eq_some_iff.mp found
  have isWritten := attempted.getElem? isPlace isDocument
  exact lookup_token attempted.distinct (List.mem_of_getElem? isWritten)

/-- Entities whose documents were not written have no token to record. -/
theorem lookup_eq_none (attempted : a.Attempted p s docs written) {i : Nat}
    (isLater : written.length ≤ i) {e : EntityRef} (found : p.entities[i]? = some e) :
    (written.map fun w => (w.1.id, w.2)).lookup e.2 = none := by
  obtain ⟨_, _, distinct⟩ := validated_eq_ok attempted.valid
  rw [← List.take_append_drop written.length p.entities, List.map_append, List.nodup_append,
    ← attempted.entities] at distinct
  have isRest : e ∈ p.entities.drop written.length := by
    apply List.mem_of_getElem? (i := i - written.length)
    rw [List.getElem?_drop, Nat.add_sub_cancel' isLater, found]
  rw [List.lookup_eq_none_iff]
  intro entry isEntry
  obtain ⟨w, isWritten, rfl⟩ := List.mem_map.mp isEntry
  have isFirst : w.1.id ∈ (written.map fun w => w.1.entity).map Prod.snd :=
    List.mem_map.mpr ⟨w.1.entity, List.mem_map.mpr ⟨w, isWritten, rfl⟩, rfl⟩
  have different := distinct.2.2 _ isFirst _ (List.mem_map.mpr ⟨e, isRest, rfl⟩)
  simpa using different.symm

/-- A creation that fails has written children of the plan only. -/
theorem children (attempted : a.Attempted p s docs written) {e : ArchiveError}
    (failed : (a.create p s).result = .error e) : ∀ w ∈ written, w.1.kind ≠ .plan := by
  have notAll : written.map Prod.fst ≠ docs := by
    intro all
    rcases attempted.ended with ⟨succeeded, _⟩ | ⟨_, _, _, _, split, _⟩
    · cases failed.symm.trans succeeded
    · rw [all] at split
      simp at split
  intro w isWritten
  exact children_of_isPrefix attempted.valid attempted.isPrefix notAll w.1
    (List.mem_map.mpr ⟨w, isWritten, rfl⟩)

/-- The plan is not stored when not all of its documents were written. -/
theorem gone (attempted : a.Attempted p s docs written) {q : PendingDocument}
    {rest : List PendingDocument} (split : docs = written.map Prod.fst ++ q :: rest) :
    a.Gone (a.create p s).store.contents (.plan, p.id) := by
  by_cases gone : a.Gone (a.create p s).store.contents (.plan, p.id)
  · exact gone
  · have all := attempted.writes.all_of_stored attempted.valid attempted.isPrefix
      attempted.absent gone
    rw [all] at split
    simp at split

end Attempted

/-! ## The outcome -/

/-- The states of some entities after a creation that wrote the documents of the first of them,
under the tokens that a store mints next. -/
def recordFirst (count minted : Nat) (states : List EntityState) : List EntityState :=
  states.mapIdx fun i x =>
    if i < count then { x with state := { x.state with token := some (.minted (minted + i)) } }
    else x

/-- A creation has stored exactly the documents of the first entities of a plan, each under a new
token that it has recorded on the entity, and has done nothing else. -/
structure StoresFirst (a : Archive) (p : Plan) (s : MemoryStore) (count : Nat) : Prop where
  stored : ∃ docs, a.documents p = .ok docs ∧ docs.map PendingDocument.entity = p.entities ∧
    ∀ i < count, ∀ q, docs[i]? = some q →
      (a.create p s).store.contents.find? (a.place q) = some ⟨q.doc, .minted (s.minted + i)⟩
  others : ∀ key, (∀ e ∈ p.entities.take count, key ≠ a.key e.1 e.2) →
    (a.create p s).store.contents.find? key = s.contents.find? key
  recorded : (a.create p s).entity.states = recordFirst count s.minted p.states
  alike : (a.create p s).entity.withoutTokens = p.withoutTokens

theorem Attempted.storesFirst (attempted : a.Attempted p s docs written) :
    a.StoresFirst p s written.length where
  stored := by
    obtain ⟨encoded, _, _⟩ := validated_eq_ok attempted.valid
    refine ⟨docs, encoded, entities_of_documents encoded, ?_⟩
    intro i isPlace q found
    have isWritten := attempted.getElem? isPlace found
    exact attempted.writes.find?_of_mem attempted.distinct (List.mem_of_getElem? isWritten)
  others := by
    intro key foreign
    apply attempted.writes.find?_of_ne
    intro w isWritten
    apply foreign w.1.entity
    rw [← attempted.entities]
    exact List.mem_map.mpr ⟨w, isWritten, rfl⟩
  recorded := by
    rw [attempted.entity, recordTokens, Plan.states_mapStates, recordFirst]
    apply List.ext_getElem?
    intro i
    rw [List.getElem?_map, List.getElem?_mapIdx]
    cases isState : p.states[i]? with
    | none => rfl
    | some x =>
      have isEntity : p.entities[i]? = some x.entity := by
        rw [← Plan.map_entity_states, List.getElem?_map, isState, Option.map_some]
      rw [Option.map_some, Option.map_some, EntityState.change]
      by_cases isPlace : i < written.length
      · have token := attempted.lookup isPlace isEntity
        simp only [EntityState.entity] at token
        simp only [token, isPlace, if_true]
      · have token := attempted.lookup_eq_none (Nat.le_of_not_lt isPlace) isEntity
        simp only [EntityState.entity] at token
        simp only [token, isPlace, if_false]
  alike := by rw [attempted.entity, withoutTokens_recordTokens]

theorem Attempted.storesAll (attempted : a.Attempted p s docs written)
    (all : written.map Prod.fst = docs) : a.StoresFirst p s p.entities.length := by
  obtain ⟨encoded, _, _⟩ := validated_eq_ok attempted.valid
  have length : p.entities.length = written.length := by
    rw [← entities_of_documents encoded, ← all, List.length_map, List.length_map]
  rw [length]
  exact attempted.storesFirst

/-- When all documents are stored every entity carries the token of its document. -/
theorem StoresFirst.token (stores : a.StoresFirst p s p.entities.length) :
    ∀ x ∈ (a.create p s).entity.states, ∃ item,
      (a.create p s).store.contents.find? (a.key x.kind x.id) = some item ∧
        x.state.token = some item.token := by
  obtain ⟨docs, _, entities, stored⟩ := stores.stored
  intro x member
  rw [stores.recorded, recordFirst] at member
  obtain ⟨i, isPlace, rfl⟩ := List.mem_mapIdx.mp member
  have isEntity : p.entities[i]? = some (p.states[i].entity) := by
    rw [← Plan.map_entity_states, List.getElem?_map, List.getElem?_eq_getElem isPlace,
      Option.map_some]
  obtain ⟨isFirst, _⟩ := List.getElem?_eq_some_iff.mp isEntity
  rw [← entities, List.getElem?_map] at isEntity
  obtain ⟨q, isDocument, sameEntity⟩ := Option.map_eq_some_iff.mp isEntity
  have found := stored i isFirst q isDocument
  have samePlace : a.place q = a.key p.states[i].kind p.states[i].id :=
    congrArg (fun e : EntityRef => a.key e.1 e.2) sameEntity
  rw [samePlace] at found
  simp only [isFirst, if_true]
  exact ⟨_, found, rfl⟩

/-- A creation is refused for an invalid plan exactly, and then, or when the plan is stored already,
nothing has changed. In every other case it has stored the documents of the first entities of the
plan: of all of them when it succeeds, and otherwise of those before the entity that its error
names, and the plan is not stored. -/
theorem creation_outcome (a : Archive) (p : Plan) (s : MemoryStore) :
    ((∃ cause, (a.create p s).result = .error (.validation cause)) ↔
      (∃ e ∈ p.entities, e.2.isNil = true) ∨ ¬ (p.entities.map Prod.snd).Nodup ∨
        ¬ p.Encodable) ∧
    (((∃ cause, (a.create p s).result = .error (.validation cause)) ∨
        (a.create p s).result = .error (.alreadyExists .plan p.id)) ∧
        (a.create p s).store = s ∧ (a.create p s).entity = p ∨
      (∃ e count next, (a.create p s).result = .error e ∧
        (∀ cause, e ≠ .validation cause) ∧ e ≠ .alreadyExists .plan p.id ∧
        a.StoresFirst p s count ∧ p.entities[count]? = some next ∧ e.entity? = some next ∧
        a.hasPlan p.id (a.create p s).store = .ok false ∧
        a.read (a.create p s).store p.id = .error (.notFound .plan p.id)) ∨
      (a.create p s).result = .ok () ∧ a.StoresFirst p s p.entities.length) := by
  refine ⟨create_rejects_iff.trans p.not_valid_iff, ?_⟩
  rcases a.create_cases p s with
    ⟨e, invalid, refused⟩ | ⟨_, _, refused⟩ | ⟨docs, written, attempted⟩
  · obtain ⟨cause, rfl⟩ := rejects_validated p e invalid
    rw [refused]
    exact .inl ⟨.inl ⟨cause, rfl⟩, rfl, rfl⟩
  · rw [refused]
    exact .inl ⟨.inr rfl, rfl, rfl⟩
  · rcases attempted.ended with ⟨succeeded, all⟩ | ⟨e, q, rest, failed, split, refused⟩
    · exact .inr (.inr ⟨succeeded, attempted.storesAll all⟩)
    · have gone := attempted.gone split
      exact .inr (.inl ⟨e, written.length, q.entity, failed, refused.ne_validation,
        refused.ne_alreadyExists gone, attempted.storesFirst, attempted.next split, refused.names,
        hasPlan_of_gone gone, read_of_gone gone⟩)

end Archive

end PlanArchive
