import PlanArchive.Proofs.Archive.Mirroring
import PlanArchive.Proofs.Store.Journal

/-!
# The archive meets a store in its calls only

Stores that answer every call alike, and still do after every write, cannot be told apart by the
archive: whatever it does with one of them it does with the other (`create_alike`, `update_alike`,
`delete_alike`, `read_alike`). They mirror each other, and no token needs another name. Two uses of
this are stores with something beside them that no call looks at, such as a journal
(`Journaled.alike_store`), and properties that no write of a store can break (`Preserved.alike`).
-/

namespace PlanArchive

/-- Related stores answer every call alike. -/
structure Alike {σ τ : Type} [DocumentStore σ] [DocumentStore τ] (related : σ → τ → Prop) :
    Prop where
  read : ∀ {s t}, related s t → DocumentStore.read s = DocumentStore.read t
  query : ∀ {s t}, related s t → DocumentStore.query s = DocumentStore.query t
  create : ∀ {s t}, related s t → ∀ key doc,
    SameOutcome related (DocumentStore.create s key doc) (DocumentStore.create t key doc)
  replace : ∀ {s t}, related s t → ∀ key doc demanded,
    SameOutcome related (DocumentStore.replace s key doc demanded)
      (DocumentStore.replace t key doc demanded)
  patch : ∀ {s t}, related s t → ∀ key patches demanded,
    SameOutcome related (DocumentStore.patch s key patches demanded)
      (DocumentStore.patch t key patches demanded)
  delete : ∀ {s t}, related s t → ∀ key demanded,
    SameOutcome related (DocumentStore.delete s key demanded) (DocumentStore.delete t key demanded)

/-- No write of a store breaks a property of it. -/
structure Preserved {σ : Type} [DocumentStore σ] (property : σ → Prop) : Prop where
  create : ∀ {s}, property s → ∀ key doc, property (DocumentStore.create s key doc).2
  replace : ∀ {s}, property s → ∀ key doc demanded,
    property (DocumentStore.replace s key doc demanded).2
  patch : ∀ {s}, property s → ∀ key patches demanded,
    property (DocumentStore.patch s key patches demanded).2
  delete : ∀ {s}, property s → ∀ key demanded, property (DocumentStore.delete s key demanded).2

/-- A store with a property is like itself, and stays so. -/
theorem Preserved.alike {σ : Type} [DocumentStore σ] {property : σ → Prop}
    (preserved : Preserved property) : Alike fun s t : σ => s = t ∧ property t where
  read := by
    rintro s t ⟨rfl, _⟩
    rfl
  query := by
    rintro s t ⟨rfl, _⟩
    rfl
  create := by
    rintro s t ⟨rfl, holds⟩ key doc
    exact ⟨rfl, rfl, preserved.create holds key doc⟩
  replace := by
    rintro s t ⟨rfl, holds⟩ key doc demanded
    exact ⟨rfl, rfl, preserved.replace holds key doc demanded⟩
  patch := by
    rintro s t ⟨rfl, holds⟩ key patches demanded
    exact ⟨rfl, rfl, preserved.patch holds key patches demanded⟩
  delete := by
    rintro s t ⟨rfl, holds⟩ key demanded
    exact ⟨rfl, rfl, preserved.delete holds key demanded⟩

theorem Preserved.and {σ : Type} [DocumentStore σ] {first second : σ → Prop}
    (left : Preserved first) (right : Preserved second) :
    Preserved fun s => first s ∧ second s where
  create := fun holds key doc => ⟨left.create holds.1 key doc, right.create holds.2 key doc⟩
  replace := fun holds key doc demanded =>
    ⟨left.replace holds.1 key doc demanded, right.replace holds.2 key doc demanded⟩
  patch := fun holds key patches demanded =>
    ⟨left.patch holds.1 key patches demanded, right.patch holds.2 key patches demanded⟩
  delete := fun holds key demanded =>
    ⟨left.delete holds.1 key demanded, right.delete holds.2 key demanded⟩

/-! ## Journals -/

namespace Journaled

theorem sameOutcome_noting {σ α : Type} (j : Journaled σ) (key : DocumentKey)
    (token : α → Option VersionToken) (made : Written σ α) :
    SameOutcome (fun (j : Journaled σ) s => j.store = s) (j.noting key token made) made := by
  obtain ⟨result, s⟩ := made
  cases result <;> exact ⟨rfl, rfl⟩

/-- A journal beside a store makes no difference to its calls. -/
theorem alike_store {σ : Type} [DocumentStore σ] :
    Alike fun (j : Journaled σ) s => j.store = s where
  read := by
    rintro j _ rfl
    rfl
  query := by
    rintro j _ rfl
    rfl
  create := by
    rintro j _ rfl key doc
    exact sameOutcome_noting j key some _
  replace := by
    rintro j _ rfl key doc demanded
    exact sameOutcome_noting j key some _
  patch := by
    rintro j _ rfl key patches demanded
    exact sameOutcome_noting j key some _
  delete := by
    rintro j _ rfl key demanded
    exact sameOutcome_noting j key _ _

theorem preserved_recorded : Preserved Recorded where
  create := Recorded.create
  replace := Recorded.replace
  patch := Recorded.patch
  delete := Recorded.delete

theorem suffix_noting {σ α : Type} {journal : List JournalEntry} {j : Journaled σ}
    (isEarlier : journal <:+ j.journal) (key : DocumentKey) (token : α → Option VersionToken)
    (made : Written σ α) : journal <:+ (j.noting key token made).2.journal := by
  obtain ⟨result, s⟩ := made
  cases result with
  | error e => exact isEarlier
  | ok v => exact isEarlier.trans (List.suffix_cons _ _)

/-- Journals only grow. -/
theorem preserved_suffix {σ : Type} [DocumentStore σ] (journal : List JournalEntry) :
    Preserved fun j : Journaled σ => journal <:+ j.journal where
  create := fun isEarlier key _ => suffix_noting isEarlier key _ _
  replace := fun isEarlier key _ _ => suffix_noting isEarlier key _ _
  patch := fun isEarlier key _ _ => suffix_noting isEarlier key _ _
  delete := fun isEarlier key _ => suffix_noting isEarlier key _ _

end Journaled

/-! ## The archive -/

section

variable {σ τ : Type} [DocumentStore σ] [DocumentStore τ] {related : σ → τ → Prop}

theorem Alike.reads (alike : Alike related) (part : String) :
    MirroredReads part (fun token => token) related where
  read := by
    intro s t isRelated collection id
    rw [alike.read isRelated, Item.renamed_id, Except.map_id]

/-- Writes to stores that are alike come to the same under the same tokens. -/
theorem Alike.writes (alike : Alike related) (part : String) :
    MirroredWrites part (fun token => token) (fun _ => True) related where
  toMirroredReads := alike.reads part
  create := by
    intro s t isRelated collection id doc _
    rw [translated_id]
    exact alike.create isRelated _ doc
  replace := by
    intro s t isRelated collection id doc demanded _
    rw [translated_id, Option.map_id']
    exact alike.replace isRelated _ doc demanded
  patch := by
    intro s t isRelated collection id patches demanded _
    rw [translated_id, Option.map_id']
    exact alike.patch isRelated _ patches demanded
  beforeCreate := fun _ => trivial
  beforeReplace := fun _ => trivial

theorem Alike.removals (alike : Alike related) (part : String) :
    MirroredRemovals part (fun token => token) related where
  toMirroredReads := alike.reads part
  query := by
    intro s t isRelated collection q
    rw [alike.query isRelated, Item.renamed_id, funext List.map_id', Except.map_id]
  delete := by
    intro s t isRelated collection id demanded
    rw [Option.map_id']
    exact alike.delete isRelated _ demanded

namespace Archive

variable {a : Archive} {s : σ} {t : τ}

/-- Plans are read alike from related stores. -/
theorem read_alike (alike : Alike related) (isRelated : related s t) (id : Uuid) :
    a.read s id = a.read t id := by
  rw [read_mirrored (alike.reads a.part) isRelated, Plan.renamed_id, Except.map_id]

theorem commit_alike (alike : Alike related) (planId : Uuid) (docs : List PendingDocument)
    (isRelated : related s t) :
    SameOutcome related (a.commit planId docs s).outcome (a.commit planId docs t).outcome := by
  simpa [Commit.renamed] using
    commit_mirrored (alike.writes a.part) isRelated planId docs trivial

/-- Plans are created alike in related stores. -/
theorem create_alike (alike : Alike related) (isRelated : related s t) (p : Plan) :
    SameOutcome related (a.create p s).outcome (a.create p t).outcome := by
  simpa [Stored.map] using create_mirrored (alike.writes a.part) isRelated p trivial

/-- Entities are updated alike in related stores. -/
theorem update_alike (alike : Alike related) (isRelated : related s t) (x : Entity) :
    SameOutcome related (a.update x s).outcome (a.update x t).outcome := by
  simpa [Stored.map] using update_mirrored (alike.writes a.part) isRelated x trivial

/-- Plans are deleted alike in related stores. -/
theorem delete_alike (alike : Alike related) (id : Uuid) :
    Change.Same related (a.delete id : Change σ _) (a.delete id) :=
  delete_mirrored (alike.removals a.part) id

end Archive

end

end PlanArchive
