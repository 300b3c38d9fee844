import PlanArchive.Proofs.Archive.Mirroring
import PlanArchive.Proofs.Archive.History
import PlanArchive.Proofs.Store.Labels

/-!
# Requests to an archive

Whatever an archive is asked for, it touches no document of another partition and mints tokens only
forwards (`staysIn_answer`), and documents that carry the identifiers of their places go on doing so
(`labelled_answer`). Nothing is assumed of what is stored.
-/

namespace PlanArchive

/-! ## Requests and replies -/

/-- What an archive can be asked for. -/
inductive Request where
  | create (p : Plan)
  | read (id : Uuid)
  | exists (id : Uuid)
  | list (limit : Int)
  | search (f : Filters)
  | actions (ids : List Uuid)
  | update (x : Entity)
  | delete (id : Uuid)

/-- What it answers. A plan that is created and an entity that is updated come back with the tokens
that they have then. -/
inductive Reply where
  | created (result : Except ArchiveError Unit) (p : Plan)
  | read (result : Except ArchiveError Plan)
  | exists (result : Except ArchiveError Bool)
  | listed (results : List (Except ArchiveError PlanSummary))
  | searched (results : Except ArchiveError (List (Except ArchiveError PlanSummary)))
  | actions (result : Except ArchiveError (List Action))
  | updated (result : Except ArchiveError Unit) (x : Entity)
  | deleted (result : Except ArchiveError Unit)
deriving DecidableEq

/-- The request with every token in it renamed. -/
def Request.renamed (ρ : Renaming) : Request → Request
  | .create p => .create (p.renamed ρ)
  | .update x => .update (x.renamed ρ)
  | r => r

/-- The reply with every token in it renamed. -/
def Reply.renamed (ρ : Renaming) : Reply → Reply
  | .created result p => .created result (p.renamed ρ)
  | .read result => .read (result.map (Plan.renamed ρ))
  | .exists result => .exists result
  | .listed results => .listed (results.map (Except.map (PlanSummary.renamed ρ)))
  | .searched results =>
    .searched (results.map (List.map (Except.map (PlanSummary.renamed ρ))))
  | .actions result => .actions (result.map (List.map (Action.mapState ρ.change)))
  | .updated result x => .updated result (x.renamed ρ)
  | .deleted result => .deleted result

/-- Answers a request. -/
def Archive.answer {σ : Type} [DocumentStore σ] (a : Archive) (r : Request) (s : σ) : Reply × σ :=
  match r with
  | .create p =>
    let stored := a.create p s
    (.created stored.result stored.entity, stored.store)
  | .read id => (.read (a.read s id), s)
  | .exists id => (.exists (a.hasPlan id s), s)
  | .list limit => (.listed (a.list s limit), s)
  | .search f => (.searched (a.search s f), s)
  | .actions ids => (.actions (a.actions s ids), s)
  | .update x =>
    let stored := a.update x s
    (.updated stored.result stored.entity, stored.store)
  | .delete id =>
    let (result, s) := a.delete id s
    (.deleted result, s)

/-! ## Partitions -/

namespace MemoryStore

variable {part : String} {s t u : MemoryStore}

/-- Nothing happened outside of a partition. -/
structure StaysIn (part : String) (s t : MemoryStore) : Prop where
  others : ∀ key, key.part ≠ part → t.contents.find? key = s.contents.find? key
  minted : s.minted ≤ t.minted
  faultless : s.Faultless → t.Faultless

theorem StaysIn.refl (part : String) (s : MemoryStore) : StaysIn part s s :=
  ⟨fun _ _ => rfl, Nat.le_refl _, fun faultless => faultless⟩

theorem StaysIn.touch {collection : Collection} {id : Uuid} (stays : StaysIn part s t)
    (touches : Touches ⟨part, collection, id⟩ t u) : StaysIn part s u where
  others := by
    intro key outside
    have other : key ≠ ⟨part, collection, id⟩ := fun same => outside (same ▸ rfl)
    rw [touches.others key other, stays.others key outside]
  minted := Nat.le_trans stays.minted touches.minted
  faultless := fun faultless => touches.faultless (stays.faultless faultless)

theorem mirroredReads_self (part : String) (property : MemoryStore → Prop) :
    MirroredReads part (fun token => token) fun u v : MemoryStore => u = v ∧ property u where
  read := by
    rintro u _ ⟨rfl, _⟩ collection id
    rw [Item.renamed_id, Except.map_id]

/-- A store with a property that no write to a partition breaks mirrors itself. -/
theorem mirroredWrites_self {part : String} {property : MemoryStore → Prop}
    (keeps : ∀ u v collection id, Touches ⟨part, collection, id⟩ u v → property u → property v) :
    MirroredWrites part (fun token => token) (fun _ => True)
      fun u v : MemoryStore => u = v ∧ property u where
  toMirroredReads := mirroredReads_self part property
  create := by
    rintro u _ ⟨rfl, holds⟩ collection id doc _
    rw [translated_id]
    exact ⟨rfl, rfl, keeps _ _ _ _ (touches_create u _ doc) holds⟩
  replace := by
    rintro u _ ⟨rfl, holds⟩ collection id doc demanded _
    rw [translated_id, Option.map_id']
    exact ⟨rfl, rfl, keeps _ _ _ _ (touches_replace u _ doc demanded) holds⟩
  patch := by
    rintro u _ ⟨rfl, holds⟩ collection id patches demanded _
    rw [translated_id, Option.map_id']
    exact ⟨rfl, rfl, keeps _ _ _ _ (touches_patch u _ patches demanded) holds⟩
  beforeCreate := fun _ => trivial
  beforeReplace := fun _ => trivial

/-- A store with a property that no removal breaks mirrors itself. -/
theorem mirroredRemovals_self (part : String) (property : MemoryStore → Prop)
    (keeps : ∀ u collection id demanded, property u →
      property (u.delete ⟨part, collection, id⟩ demanded).2) :
    MirroredRemovals part (fun token => token) fun u v : MemoryStore => u = v ∧ property u where
  toMirroredReads := mirroredReads_self part property
  query := by
    rintro u _ ⟨rfl, _⟩ collection q
    rw [Item.renamed_id, funext List.map_id', Except.map_id]
  delete := by
    rintro u _ ⟨rfl, holds⟩ collection id demanded
    rw [Option.map_id']
    exact ⟨rfl, rfl, keeps u collection id demanded holds⟩

end MemoryStore

/-! ## Documents -/

theorem Contents.Labelled.delete {part : String} {collection : Collection} {s : MemoryStore}
    (labelled : s.contents.Labelled part collection) (key : DocumentKey)
    (demanded : Option VersionToken) :
    (s.delete key demanded).2.contents.Labelled part collection := by
  rcases s.delete_cases key demanded with ⟨_, t, failed, same, _⟩ | ⟨t, deleted, erased⟩
  · rwa [failed, same]
  · rw [deleted, erased]
    exact labelled.erase

theorem PendingDocument.LaidOutFor.label {planId : Uuid} {p : PendingDocument}
    (laidOut : p.LaidOutFor planId) : Field.text? p.doc Field.id = some p.id.toText := by
  obtain ⟨d, rfl, _⟩ := laidOut
  cases d <;> rfl

theorem Patch.lookup_apply {name : String} {fields doc : List (String × Json)}
    (notSet : name ∉ fields.map Prod.fst) : (apply fields doc).lookup name = doc.lookup name := by
  induction fields generalizing doc with
  | nil => rfl
  | cons field rest inductionHypothesis =>
    have ⟨other, notInRest⟩ := not_or.mp (mt List.mem_cons.mpr notSet)
    rw [apply, List.foldl_cons]
    exact (inductionHypothesis notInRest).trans (Json.lookup_putField other field.2 doc)

namespace Archive

open MemoryStore

variable {a : Archive} {s : MemoryStore} {part : String} {collection : Collection}

/-- An archive breaks no property of a store that writes to its partition do not break. -/
theorem answer_preserves (property : MemoryStore → Prop)
    (keeps : ∀ u v collection id, Touches ⟨a.part, collection, id⟩ u v → property u → property v)
    (holds : property s) (r : Request) : property (a.answer r s).2 := by
  have start : s = s ∧ property s := ⟨rfl, holds⟩
  cases r with
  | create p => exact (create_mirrored (mirroredWrites_self keeps) start p trivial).stores.2
  | update x => exact (update_mirrored (mirroredWrites_self keeps) start x trivial).stores.2
  | delete id =>
    have removals := mirroredRemovals_self a.part property fun u collection id demanded holds =>
      keeps u _ collection id (touches_delete u _ demanded) holds
    exact (delete_mirrored removals id s s start).stores.2
  | _ => exact holds

/-- An archive touches nothing outside of its partition. -/
theorem staysIn_answer (a : Archive) (r : Request) (s : MemoryStore) :
    StaysIn a.part s (a.answer r s).2 :=
  answer_preserves _ (fun _ _ _ _ touches stays => stays.touch touches) (.refl a.part s) r

/-- No archive leaves tokens that the store is still to mint. -/
theorem issuedIn_answer (issued : s.IssuedIn part) (r : Request) :
    (a.answer r s).2.IssuedIn part :=
  answer_preserves (fun u => u.IssuedIn part)
    (fun _ _ _ _ touches issued => issued.touch touches) issued r

/-! ## Labels -/

theorem Writes.labelled {planId : Uuid} {c d : Contents} {written : List WrittenDocument}
    (writes : a.Writes planId c written d) (labelled : c.Labelled part collection)
    (laidOut : ∀ w ∈ written, w.1.LaidOutFor planId) : d.Labelled part collection := by
  induction writes with
  | nil c => exact labelled
  | cons _ _ inductionHypothesis =>
    have ⟨first, restLaidOut⟩ := List.forall_mem_cons.mp laidOut
    exact inductionHypothesis (labelled.put fun _ _ => first.label) restLaidOut

theorem labelled_create (labelled : s.contents.Labelled part collection) (p : Plan) :
    (a.create p s).store.contents.Labelled part collection := by
  rcases a.create_writes p s with same | ⟨docs, written, valid, _, isPrefix, writes⟩
  · rwa [same]
  · apply writes.labelled labelled
    intro w member
    exact laidOutFor_of_validated valid (isPrefix.subset (List.mem_map.mpr ⟨w, member, rfl⟩))

theorem id_notMem_updatable (kind : EntityKind) : Field.id ∉ updatable kind := by
  cases kind <;> decide

theorem labelled_update (labelled : s.contents.Labelled part collection) (x : Entity) :
    (a.update x s).store.contents.Labelled part collection := by
  rcases a.update_cases x s with ⟨_, t, failed, same⟩ |
    ⟨progress, members, old, token, t, _, isProgress, stored, succeeded, put⟩
  · rwa [failed, same]
  · rw [succeeded, put]
    refine labelled.put ?_
    rintro rfl rfl
    have notSet : Field.id ∉ progress.fields.map Prod.fst := by
      rw [Progress.map_fst_fields (Entity.isOf_of_progress isProgress)]
      exact id_notMem_updatable x.kind
    have sameField : (Json.obj (Patch.apply progress.fields members)).field? Field.id =
        (Json.obj members).field? Field.id := Patch.lookup_apply notSet
    rw [Field.text?, sameField]
    exact labelled _ _ stored

/-- Documents that carry the identifiers of their places go on doing so, whatever an archive is
asked for. -/
theorem labelled_answer (labelled : s.contents.Labelled part collection) (r : Request) :
    (a.answer r s).2.contents.Labelled part collection := by
  cases r with
  | create p => exact labelled_create labelled p
  | update x => exact labelled_update labelled x
  | delete id =>
    have removals := mirroredRemovals_self a.part (fun u => u.contents.Labelled part collection)
      fun u other x demanded labelled => labelled.delete ⟨a.part, other, x⟩ demanded
    exact (delete_mirrored removals id s s ⟨rfl, labelled⟩).stores.2
  | _ => exact labelled

end Archive

end PlanArchive
