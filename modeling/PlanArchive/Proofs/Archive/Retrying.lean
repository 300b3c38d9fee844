import Mathlib.Logic.Relation
import PlanArchive.Proofs.Archive.Ownership
import PlanArchive.Proofs.Archive.Outcome
import PlanArchive.Proofs.Archive.Renaming

/-!
# Creations that are cut short

A creation that is cut short leaves documents of the plan behind, never the plan's own. The next one
finds them at its places, as children of the same plan, and writes over them. `creation_converges`
says that any number of such attempts, with the same tree, ends as if there had been none: the last
one succeeds, and what it leaves differs from what a single creation leaves in version tokens only.
The tokens that a plan carries from earlier attempts do not matter, since documents are made without
them (`validated_congr`).
-/

namespace PlanArchive

namespace Archive

variable {a : Archive} {p q : Plan} {s t : MemoryStore} {c : Contents} {planId : Uuid}
  {docs : List PendingDocument} {written : List WrittenDocument}

/-! ## One creation after another -/

/-- A creation of one of some plans fails and takes a store to another. -/
def CreationFails (a : Archive) (wanted : Plan → Prop) (s t : MemoryStore) : Prop :=
  ∃ p budget e, wanted p ∧ (a.create p (s.allowing budget)).result = .error e ∧
    (a.create p (s.allowing budget)).store = t

theorem creationFails_of_error {wanted : Plan → Prop} {budget : Option Nat} {e : ArchiveError}
    (isWanted : wanted p) (failed : (a.create p (s.allowing budget)).result = .error e) :
    a.CreationFails wanted s (a.create p (s.allowing budget)).store :=
  ⟨p, budget, e, isWanted, failed, rfl⟩

/-- Every document is as it was, or was written since as one of the children of a plan. -/
def Begun (a : Archive) (old : Contents) (docs : List PendingDocument) (c : Contents) : Prop :=
  ∀ key, c.find? key = old.find? key ∨
    ∃ q ∈ docs, q.kind ≠ .plan ∧ key = a.place q ∧ ∃ token, c.find? key = some ⟨q.doc, token⟩

namespace Begun

variable {old d : Contents}

theorem start (a : Archive) (c : Contents) (docs : List PendingDocument) : a.Begun c docs c :=
  fun _ => .inl rfl

theorem plan_gone {id : Uuid} (begun : a.Begun old docs c) (gone : a.Gone old (.plan, id)) :
    a.Gone c (.plan, id) := by
  rcases begun (a.key .plan id) with same | ⟨q, _, isChild, isKey, _⟩
  · rw [Gone, same]
    exact gone
  · have isPlan : (EntityKind.plan, id) = q.entity := key_injective isKey
    exact absurd (congrArg Prod.fst isPlan).symm isChild

/-- Where no entity of the plan belongs nothing has happened. -/
theorem others (begun : a.Begun old docs c) (valid : a.validated p = .ok docs)
    {key : DocumentKey} (foreign : ∀ e ∈ p.entities, key ≠ a.key e.1 e.2) :
    c.find? key = old.find? key := by
  rcases begun key with same | ⟨q, isDocument, _, isKey, _⟩
  · exact same
  · exact absurd isKey (foreign q.entity (entity_mem_of_validated valid isDocument))

/-- Writing children of the plan is no more than has begun. -/
theorem writes (begun : a.Begun old docs c) (writes : a.Writes planId c written d)
    (distinct : (written.map fun w => w.1.id).Nodup)
    (children : ∀ w ∈ written, w.1 ∈ docs ∧ w.1.kind ≠ .plan) : a.Begun old docs d := by
  intro key
  by_cases isWritten : ∃ w ∈ written, key = a.place w.1
  · obtain ⟨w, member, rfl⟩ := isWritten
    obtain ⟨isDocument, isChild⟩ := children w member
    exact .inr ⟨w.1, isDocument, isChild, rfl, w.2, writes.find?_of_mem distinct member⟩
  · rw [writes.find?_of_ne fun w member same => isWritten ⟨w, member, same⟩]
    exact begun key

/-- What earlier creations of a plan left is open to the next one. -/
theorem isOpen (begun : a.Begun old docs c) (laidOut : ∀ q ∈ docs, q.LaidOutFor planId)
    (free : ∀ q ∈ docs, old.find? (a.place q) = none) {q : PendingDocument} (member : q ∈ docs) :
    a.Open planId c q := by
  rcases begun (a.place q) with same | ⟨r, isDocument, isChild, isKey, token, found⟩
  · exact .inl (same.trans (free q member))
  · have sameEntity : q.entity = r.entity := key_injective isKey
    have sameKind : q.kind = r.kind := congrArg Prod.fst sameEntity
    exact .inr ⟨sameKind ▸ isChild, _, found, (laidOut r isDocument).owner isChild⟩

/-- A creation of the plan that fails leaves it begun. -/
theorem create (begun : a.Begun old docs s.contents) (valid : a.validated p = .ok docs)
    {e : ArchiveError} (failed : (a.create p s).result = .error e) :
    a.Begun old docs (a.create p s).store.contents := by
  rcases a.create_cases p s with ⟨_, _, refused⟩ | ⟨_, _, refused⟩ | ⟨own, written, attempted⟩
  · rw [refused]
    exact begun
  · rw [refused]
    exact begun
  · obtain rfl : docs = own := Except.ok.inj (valid.symm.trans attempted.valid)
    apply begun.writes attempted.writes attempted.distinct
    intro w isWritten
    exact ⟨attempted.isPrefix.subset (List.mem_map.mpr ⟨w, isWritten, rfl⟩),
      attempted.children failed w isWritten⟩

/-- Without faults the creation of a plan that has begun at free places comes to its end. -/
theorem create_succeeds (begun : a.Begun old docs s.contents) (valid : a.validated p = .ok docs)
    (free : ∀ e ∈ p.entities, a.Gone old e) (faultless : s.Faultless) :
    ∃ written, a.Attempted p s docs written ∧ (a.create p s).result = .ok () ∧
      written.map Prod.fst = docs := by
  have places : ∀ q ∈ docs, old.find? (a.place q) = none :=
    fun q member => free q.entity (entity_mem_of_validated valid member)
  rcases a.create_cases p s with
    ⟨e, invalid, _⟩ | ⟨_, stored, _⟩ | ⟨own, written, attempted⟩
  · cases valid.symm.trans invalid
  · exact absurd (begun.plan_gone (free _ p.mem_entities_self)) stored
  · obtain rfl : docs = own := Except.ok.inj (valid.symm.trans attempted.valid)
    rcases attempted.ended with ⟨succeeded, all⟩ | ⟨e, q, rest, failed, split, refused⟩
    · exact ⟨written, attempted, succeeded, all⟩
    · exfalso
      have isDocument : q ∈ docs := by simp [split]
      exact refused.closed faultless ((begun.create valid failed).isOpen
        (fun _ => laidOutFor_of_validated valid) places isDocument)

end Begun

theorem begun_of_creationsFail (valid : a.validated p = .ok docs)
    (attempts : Relation.ReflTransGen
      (a.CreationFails fun q => q.withoutTokens = p.withoutTokens) s t) :
    a.Begun s.contents docs t.contents := by
  induction attempts with
  | refl => exact .start a _ _
  | tail _ fails inductionHypothesis =>
    obtain ⟨q, budget, e, same, failed, rfl⟩ := fails
    exact Begun.create (s := MemoryStore.allowing _ budget) inductionHypothesis
      ((validated_congr same).trans valid) failed

/-- Contents that store the documents of a plan and agree elsewhere differ in tokens only. -/
theorem sameDocuments_of_storedIn {d : Contents} (encoded : a.documents p = .ok docs)
    (first : a.StoredIn c docs) (second : a.StoredIn d docs)
    (others : ∀ key, (∀ e ∈ p.entities, key ≠ a.key e.1 e.2) → c.find? key = d.find? key)
    (key : DocumentKey) : (c.find? key).map Item.doc = (d.find? key).map Item.doc := by
  by_cases isPlace : ∃ q ∈ docs, key = a.place q
  · obtain ⟨q, isDocument, rfl⟩ := isPlace
    obtain ⟨_, firstFound⟩ := first q isDocument
    obtain ⟨_, secondFound⟩ := second q isDocument
    rw [place, firstFound, secondFound]
    rfl
  · rw [others key]
    intro e member isKey
    obtain ⟨q, isDocument, rfl⟩ := (mem_entities_iff encoded).mp member
    exact isPlace ⟨q, isDocument, isKey⟩

/-- A valid plan whose places are free may be created any number of times, with whatever tokens it
carries, and be cut short. A creation without faults then succeeds and leaves what a single one
would have left but for tokens: the documents of the plan and, as they were, all others. Every
entity of the plan carries the token of its document then. -/
theorem creation_converges (valid : p.Valid) (free : ∀ e ∈ p.entities, a.Gone s.contents e)
    (attempts : Relation.ReflTransGen
      (a.CreationFails fun q => q.withoutTokens = p.withoutTokens) s t)
    (same : q.withoutTokens = p.withoutTokens) :
    (a.create q (t.allowing none)).result = .ok () ∧
      (a.create p (s.allowing none)).result = .ok () ∧
      (∀ key, ((a.create q (t.allowing none)).store.contents.find? key).map Item.doc =
        ((a.create p (s.allowing none)).store.contents.find? key).map Item.doc) ∧
      (∃ docs, a.documents p = .ok docs ∧ docs.map PendingDocument.entity = p.entities ∧
        a.StoredIn (a.create q (t.allowing none)).store.contents docs) ∧
      (∀ key, (∀ e ∈ p.entities, key ≠ a.key e.1 e.2) →
        (a.create q (t.allowing none)).store.contents.find? key = s.contents.find? key) ∧
      (∀ x ∈ (a.create q (t.allowing none)).entity.states, ∃ item,
        (a.create q (t.allowing none)).store.contents.find? (a.key x.kind x.id) = some item ∧
          x.state.token = some item.token) ∧
      (a.create q (t.allowing none)).entity.withoutTokens = p.withoutTokens := by
  obtain ⟨docs, isValid⟩ := exists_validated.mpr valid
  have isAlsoValid : a.validated q = .ok docs := (validated_congr same).trans isValid
  have sameEntities : q.entities = p.entities := by
    rw [← Plan.entities_mapStates withoutToken q, ← Plan.entities_mapStates withoutToken p]
    exact congrArg Plan.entities same
  obtain ⟨encoded, _, _⟩ := validated_eq_ok isValid
  have begun := begun_of_creationsFail isValid attempts
  obtain ⟨last, lastAttempt, lastSucceeded, lastAll⟩ :=
    Begun.create_succeeds (s := t.allowing none) begun isAlsoValid (sameEntities ▸ free) rfl
  obtain ⟨once, onceAttempt, onceSucceeded, onceAll⟩ :=
    Begun.create_succeeds (s := s.allowing none) (.start a _ _) isValid free rfl
  have lastStored := lastAttempt.writes.storedIn isAlsoValid lastAll
  have onceStored := onceAttempt.writes.storedIn isValid onceAll
  have storesAll := lastAttempt.storesAll lastAll
  have others : ∀ key, (∀ e ∈ p.entities, key ≠ a.key e.1 e.2) →
      (a.create q (t.allowing none)).store.contents.find? key = s.contents.find? key := by
    intro key foreign
    rw [storesAll.others key (by rwa [List.take_length, sameEntities])]
    exact begun.others isValid foreign
  have onceOthers : ∀ key, (∀ e ∈ p.entities, key ≠ a.key e.1 e.2) →
      (a.create p (s.allowing none)).store.contents.find? key = s.contents.find? key := by
    intro key foreign
    exact (onceAttempt.storesAll onceAll).others key (by rwa [List.take_length])
  have sameDocuments := sameDocuments_of_storedIn encoded lastStored onceStored
    fun key foreign => (others key foreign).trans (onceOthers key foreign).symm
  exact ⟨lastSucceeded, onceSucceeded, sameDocuments,
    ⟨docs, encoded, entities_of_documents encoded, lastStored⟩, others, storesAll.token,
    storesAll.alike.trans same⟩

/-- A store that holds another plan. -/
def beside : MemoryStore := (demo.create bystander MemoryStore.empty).store

/-- The plan is created there, cut short after one write. -/
def firstTry : Stored MemoryStore Plan := demo.create original (beside.allowing (some 1))

/-- It is created once more as it came back, cut short after three writes: two of them take over the
first action. -/
def secondTry : Stored MemoryStore Plan :=
  demo.create firstTry.entity (firstTry.store.allowing (some 3))

theorem creation_converges_secondTry :
    original.Valid ∧ (∀ e ∈ original.entities, demo.Gone beside.contents e) ∧
      Relation.ReflTransGen
        (demo.CreationFails fun q => q.withoutTokens = original.withoutTokens) beside
        secondTry.store ∧
      secondTry.entity.withoutTokens = original.withoutTokens ∧
      ¬ demo.Gone secondTry.store.contents (.action, numbered 4) ∧
      (demo.create secondTry.entity (secondTry.store.allowing none)).result = .ok () ∧
      (demo.create original (beside.allowing none)).result = .ok () ∧
      (∀ key, ((demo.create secondTry.entity
          (secondTry.store.allowing none)).store.contents.find? key).map Item.doc =
        ((demo.create original (beside.allowing none)).store.contents.find? key).map Item.doc) ∧
      (∃ docs, demo.documents original = .ok docs ∧
        docs.map PendingDocument.entity = original.entities ∧
        demo.StoredIn (demo.create secondTry.entity
          (secondTry.store.allowing none)).store.contents docs) ∧
      (∀ key, (∀ e ∈ original.entities, key ≠ demo.key e.1 e.2) →
        (demo.create secondTry.entity (secondTry.store.allowing none)).store.contents.find? key =
          beside.contents.find? key) ∧
      (∀ x ∈ (demo.create secondTry.entity (secondTry.store.allowing none)).entity.states,
        ∃ item, (demo.create secondTry.entity
            (secondTry.store.allowing none)).store.contents.find? (demo.key x.kind x.id) =
              some item ∧ x.state.token = some item.token) ∧
      (demo.create secondTry.entity (secondTry.store.allowing none)).entity.withoutTokens =
        original.withoutTokens := by
  have valid : original.Valid := by
    obtain ⟨docs, _, isValid, _⟩ := create_ok
      (show (demo.create original MemoryStore.empty).result = .ok () from rfl)
    exact exists_validated.mp ⟨docs, isValid⟩
  have places : ∀ e ∈ original.entities,
      (beside.contents.find? (demo.key e.1 e.2)).isNone = true := by decide +kernel
  have free : ∀ e ∈ original.entities, demo.Gone beside.contents e :=
    fun e member => Option.isNone_iff_eq_none.mp (places e member)
  have ⟨first, firstSame, second, secondSame, stored⟩ :
      firstTry.result =
          .error (.transport .create .action (numbered 4) MemoryStore.injectedFailure) ∧
        firstTry.entity.withoutTokens = original.withoutTokens ∧
        secondTry.result =
          .error (.transport .create .checks (numbered 2) MemoryStore.injectedFailure) ∧
        secondTry.entity.withoutTokens = original.withoutTokens ∧
        (secondTry.store.contents.find? (demo.key .action (numbered 4))).isNone = false := by
    decide +kernel
  have firstFails : demo.CreationFails (fun q => q.withoutTokens = original.withoutTokens)
      beside firstTry.store := creationFails_of_error rfl first
  have secondFails : demo.CreationFails (fun q => q.withoutTokens = original.withoutTokens)
      firstTry.store secondTry.store := creationFails_of_error firstSame second
  have attempts := (Relation.ReflTransGen.single firstFails).tail secondFails
  refine ⟨valid, free, attempts, secondSame, ?_,
    creation_converges valid free attempts secondSame⟩
  intro absent
  rw [Option.isNone_iff_eq_none.mpr absent] at stored
  cases stored

end Archive

end PlanArchive
