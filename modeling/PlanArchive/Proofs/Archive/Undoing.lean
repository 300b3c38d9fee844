import PlanArchive.Proofs.Archive.Resuming
import PlanArchive.Proofs.Archive.Retrying

/-!
# Deletions undo creations

Where nothing belongs to a plan, creations under its identifier only add documents: each goes to a
place that was free and names the plan (`AddedFor`). A deletion takes exactly these away, over the
references of the plan when a creation succeeded and by the plan that they name when all of them
failed, so that everything is as it was before (`deletion_undoes_creation`). It does not matter why
the creations failed and which trees they had.
-/

namespace PlanArchive

namespace Archive

variable {a : Archive} {old c d : Contents} {p : Plan} {s t : MemoryStore} {id : Uuid}
  {key : DocumentKey} {written : List WrittenDocument}

/-- Nothing that is stored belongs to a plan. -/
structure Without (a : Archive) (c : Contents) (id : Uuid) : Prop where
  plan : a.Gone c (.plan, id)
  children : ∀ e, ¬ a.Owned c id e

/-- At a place there is a document that is laid out for a plan. -/
def HasDocument (a : Archive) (c : Contents) (id : Uuid) (key : DocumentKey) : Prop :=
  ∃ q token, q.LaidOutFor id ∧ key = a.place q ∧ c.find? key = some ⟨q.doc, token⟩

/-- Every document is as it was, or is one of a plan and was put at a free place. -/
def AddedFor (a : Archive) (id : Uuid) (old c : Contents) : Prop :=
  ∀ key, c.find? key = old.find? key ∨ old.find? key = none ∧ a.HasDocument c id key

theorem Without.not_hasDocument (without : a.Without c id) (key : DocumentKey) :
    ¬ a.HasDocument c id key := by
  rintro ⟨q, token, laidOut, rfl, found⟩
  by_cases isPlan : q.kind = .plan
  · rw [place, isPlan, laidOut.id_eq isPlan, without.plan] at found
    cases found
  · exact without.children q.entity ⟨isPlan, _, found, laidOut.owner isPlan⟩

theorem Without.not_open (without : a.Without c id) {q : PendingDocument}
    (isOpen : a.Open id c q) : c.find? (a.place q) = none := by
  rcases isOpen with free | ⟨isChild, item, found, owner⟩
  · exact free
  · exact absurd ⟨isChild, item, found, owner⟩ (without.children q.entity)

namespace AddedFor

theorem start (a : Archive) (id : Uuid) (c : Contents) : a.AddedFor id c c := fun _ => .inl rfl

/-- A document that goes to an open place goes to one that was free at first. -/
theorem free (added : a.AddedFor id old c) (without : a.Without old id) {q : PendingDocument}
    (isOpen : a.Open id c q) : old.find? (a.place q) = none := by
  rcases added (a.place q) with same | ⟨free, _⟩
  · apply without.not_open
    rwa [Open, ← same]
  · exact free

theorem writes (added : a.AddedFor id old c) (without : a.Without old id)
    (writes : a.Writes id c written d) (laidOut : ∀ w ∈ written, w.1.LaidOutFor id) :
    a.AddedFor id old d := by
  induction writes with
  | nil => exact added
  | @cons c d q token rest isOpen later inductionHypothesis =>
    have ⟨isLaidOut, restLaidOut⟩ := List.forall_mem_cons.mp laidOut
    refine inductionHypothesis ?_ restLaidOut
    intro key
    by_cases isPlace : key = a.place q
    · subst isPlace
      refine .inr ⟨added.free without isOpen, q, token, isLaidOut, rfl, ?_⟩
      rw [Contents.find?_put, if_pos rfl]
    · have untouched : (c.put (a.place q) ⟨q.doc, token⟩).find? key = c.find? key := by
        rw [Contents.find?_put, if_neg isPlace]
      rw [HasDocument, untouched]
      exact added key

theorem create (added : a.AddedFor p.id old s.contents) (without : a.Without old p.id) :
    a.AddedFor p.id old (a.create p s).store.contents := by
  rcases create_writes p s with same | ⟨docs, written, valid, _, isPrefix, writes⟩
  · rw [same]
    exact added
  · exact added.writes without writes (laidOutFor_of_isPrefix valid isPrefix)

/-- Taking away the documents of the plan leaves what there was at first. -/
theorem undone (added : a.AddedFor id old c) (without : a.Without old id)
    (removed : ∀ key, a.HasDocument c id key → d.find? key = none)
    (others : ∀ key, ¬ a.HasDocument c id key → d.find? key = c.find? key) :
    d.find? key = old.find? key := by
  by_cases isAdded : a.HasDocument c id key
  · rw [removed key isAdded]
    rcases added key with same | ⟨free, _⟩
    · refine absurd ?_ (without.not_hasDocument key)
      rwa [HasDocument, ← same]
    · exact free.symm
  · rw [others key isAdded]
    rcases added key with same | ⟨_, isDocument⟩
    · exact same
    · exact absurd isDocument isAdded

/-- What the sweep of the plan finds was added. -/
theorem hasDocument (added : a.AddedFor id old c) (without : a.Without old id) {e : EntityRef}
    (marked : a.Marked c id e) : a.HasDocument c id (a.key e.1 e.2) := by
  rcases added (a.key e.1 e.2) with same | ⟨_, isDocument⟩
  · obtain ⟨isChild, item, found, owner⟩ := marked.owned
    exact absurd ⟨isChild, item, same.symm.trans found, owner⟩ (without.children e)
  · exact isDocument

/-- The children that were added carry the identifiers of their places. -/
theorem markedInPlace (added : a.AddedFor id old c) (without : a.Without old id) :
    a.MarkedInPlace c id := by
  intro kind x item isChild found text
  obtain ⟨q, token, laidOut, isKey, isStored⟩ :=
    added.hasDocument without (e := (kind, x)) ⟨isChild, item, found, text⟩
  have sameEntity : (kind, x) = q.entity := key_injective isKey
  have sameKind : kind = q.kind := congrArg Prod.fst sameEntity
  have sameId : x = q.id := congrArg Prod.snd sameEntity
  have sameItem : item = ⟨q.doc, token⟩ := Option.some.inj (found.symm.trans isStored)
  rw [sameItem, sameId]
  exact (laidOut.child_fields (sameKind ▸ isChild)).1

end AddedFor

theorem addedFor_of_creationsFail (without : a.Without s.contents id)
    (attempts : Relation.ReflTransGen (a.CreationFails fun p => p.id = id) s t) :
    a.AddedFor id s.contents t.contents ∧ a.Gone t.contents (.plan, id) := by
  induction attempts with
  | refl => exact ⟨.start a id _, without.plan⟩
  | @tail r _ _ fails inductionHypothesis =>
    obtain ⟨p, budget, e, rfl, failed, rfl⟩ := fails
    obtain ⟨added, gone⟩ := inductionHypothesis
    refine ⟨AddedFor.create (s := r.allowing budget) added without, ?_⟩
    rcases a.create_cases p (r.allowing budget) with
      ⟨_, _, refused⟩ | ⟨_, _, refused⟩ | ⟨docs, written, attempted⟩
    · rw [refused]
      exact gone
    · rw [refused]
      exact gone
    · rcases attempted.ended with ⟨succeeded, _⟩ | ⟨_, _, _, _, split, _⟩
      · cases failed.symm.trans succeeded
      · exact attempted.gone split

/-- After creations that failed a deletion sweeps up what they left. -/
theorem delete_of_added (notNil : id.isNil = false) (without : a.Without s.contents id)
    (added : a.AddedFor id s.contents t.contents) (gone : a.Gone t.contents (.plan, id))
    (faultless : t.Faultless) :
    (a.delete id t).1 = .ok () ∧
      ∀ key, (a.delete id t).2.contents.find? key = s.contents.find? key := by
  have removal := delete_of_marked (added.markedInPlace without) notNil gone
  obtain ⟨_, _, succeeded⟩ := removal.total faultless
  have swept := removal.kept () succeeded
  refine ⟨succeeded, fun key => added.undone without ?_ ?_⟩
  · rintro key ⟨q, token, laidOut, rfl, found⟩
    by_cases isPlan : q.kind = .plan
    · rw [place, isPlan, laidOut.id_eq isPlan, gone] at found
      cases found
    · exact swept q.entity ⟨isPlan, _, found, (laidOut.child_fields isPlan).2⟩
  · intro key notAdded
    rcases removal.safe key with same | ⟨_, e, marked, rfl⟩
    · exact same
    · exact absurd (added.hasDocument without marked) notAdded

/-- After a creation that succeeded a deletion walks over what it stored. -/
theorem delete_of_created (without : a.Without s.contents p.id)
    (succeeded : (a.create p s).result = .ok ()) (faultless : t.Faultless)
    (same : t.contents = (a.create p s).store.contents) :
    (a.delete p.id t).1 = .ok () ∧
      ∀ key, (a.delete p.id t).2.contents.find? key = s.contents.find? key := by
  have holds : a.HoldsPlan p t.contents := same ▸ .created succeeded
  have added : a.AddedFor p.id s.contents t.contents :=
    same ▸ AddedFor.create (.start a p.id _) without
  obtain ⟨ended, treeGone, only⟩ := holds.deleted (.start a _ _) holds.stored faultless
  obtain ⟨docs, written, valid, _, writes, all, _⟩ := create_ok succeeded
  have isPrefix : written.map Prod.fst <+: docs := all ▸ List.prefix_rfl
  refine ⟨ended, fun key => added.undone without ?_ ?_⟩
  · rintro key ⟨q, token, laidOut, rfl, found⟩
    by_cases isEntity : q.entity ∈ p.entities
    · exact treeGone q.entity isEntity
    · have untouched := writes.find?_of_notMem valid isPrefix isEntity
      rw [← same] at untouched
      exact absurd ⟨q, token, laidOut, rfl, untouched.symm.trans found⟩
        (without.not_hasDocument (a.place q))
  · intro key notAdded
    rcases only key with unchanged | ⟨_, e, isEntity, rfl⟩
    · exact unchanged
    · refine absurd ?_ notAdded
      obtain ⟨q, isDocument, rfl⟩ := (mem_entities_iff (validated_eq_ok valid).1).mp isEntity
      obtain ⟨token, stored⟩ := writes.storedIn valid all q isDocument
      rw [← same] at stored
      exact ⟨q, token, laidOutFor_of_validated valid isDocument, rfl, stored⟩

/-- Where nothing belongs to a plan, creations under its identifier may fail any number of times, or
one may succeed: a deletion without faults succeeds and leaves the documents that there were before
them, each in the same revision, and no others. -/
theorem deletion_undoes_creation (notNil : id.isNil = false)
    (absent : a.Gone s.contents (.plan, id)) (unnamed : ∀ e, ¬ a.Owned s.contents id e)
    (created : Relation.ReflTransGen (a.CreationFails fun p => p.id = id) s t ∨
      ∃ p budget, p.id = id ∧ (a.create p (s.allowing budget)).result = .ok () ∧
        (a.create p (s.allowing budget)).store = t) :
    (a.delete id (t.allowing none)).1 = .ok () ∧
      ∀ key, (a.delete id (t.allowing none)).2.contents.find? key = s.contents.find? key := by
  have without : a.Without s.contents id := ⟨absent, unnamed⟩
  rcases created with attempts | ⟨p, budget, rfl, succeeded, rfl⟩
  · obtain ⟨added, gone⟩ := addedFor_of_creationsFail without attempts
    exact delete_of_added (t := t.allowing none) notNil without added gone rfl
  · exact delete_of_created (s := s.allowing budget) without succeeded rfl rfl

/-- A plan with an action that has the nil identifier. -/
def withNil : Plan := actionPlan original.id (numbered 2) [.nil]

/-- A plan with an action of the plan that is stored. -/
def colliding : Plan := actionPlan original.id (numbered 8) [numbered 9, numbered 7]

/-- A creation is cut short beside another plan. -/
def leftover : MemoryStore := (demo.create original (beside.allowing (some 2))).store

/-- Two more creations under the same identifier fail, one with nothing done. -/
def leftovers : MemoryStore :=
  let rejected := (demo.create withNil (leftover.allowing none)).store
  (demo.create colliding (rejected.allowing none)).store

theorem deletion_undoes_creation_leftovers :
    original.id.isNil = false ∧ demo.Gone beside.contents (.plan, original.id) ∧
      (∀ e, ¬ demo.Owned beside.contents original.id e) ∧
      (Relation.ReflTransGen (demo.CreationFails fun p => p.id = original.id) beside leftovers ∨
        ∃ p budget, p.id = original.id ∧
          (demo.create p (beside.allowing budget)).result = .ok () ∧
          (demo.create p (beside.allowing budget)).store = leftovers) ∧
      ¬ demo.Gone leftovers.contents (.action, numbered 9) ∧
      (demo.delete original.id (leftovers.allowing none)).1 = .ok () ∧
      ∀ key, (demo.delete original.id (leftovers.allowing none)).2.contents.find? key =
        beside.contents.find? key := by
  have notNil : original.id.isNil = false := by decide
  have free : (beside.contents.find? (demo.key .plan original.id)).isNone = true := by
    decide +kernel
  have absent : demo.Gone beside.contents (.plan, original.id) :=
    Option.isNone_iff_eq_none.mp free
  have owners : ∀ entry ∈ beside.contents.entries, owner? entry.2.doc ≠ some original.id := by
    decide +kernel
  have unnamed : ∀ e, ¬ demo.Owned beside.contents original.id e := by
    intro e ⟨_, item, found, owner⟩
    have isEntry := (List.lookup_eq_some_of_nodup beside.contents.distinct).mp found
    exact owners _ isEntry owner
  have ⟨first, second, third, stored⟩ :
      (demo.create original (beside.allowing (some 2))).result =
          .error (.transport .create .checks (numbered 2) MemoryStore.injectedFailure) ∧
        (demo.create withNil (leftover.allowing none)).result =
          .error (.validation (.nilId .action)) ∧
        (demo.create colliding
          ((demo.create withNil (leftover.allowing none)).store.allowing none)).result =
          .error (.alreadyExists .action (numbered 7)) ∧
        (leftovers.contents.find? (demo.key .action (numbered 9))).isNone = false := by
    decide +kernel
  have firstFails : demo.CreationFails (fun p => p.id = original.id) beside leftover :=
    creationFails_of_error rfl first
  have secondFails : demo.CreationFails (fun p => p.id = original.id) leftover
      (demo.create withNil (leftover.allowing none)).store := creationFails_of_error rfl second
  have thirdFails : demo.CreationFails (fun p => p.id = original.id)
      (demo.create withNil (leftover.allowing none)).store leftovers :=
    creationFails_of_error rfl third
  have attempts := ((Relation.ReflTransGen.single firstFails).tail secondFails).tail thirdFails
  refine ⟨notNil, absent, unnamed, .inl attempts, ?_,
    deletion_undoes_creation notNil absent unnamed (.inl attempts)⟩
  intro gone
  rw [Option.isNone_iff_eq_none.mpr gone] at stored
  cases stored

end Archive

end PlanArchive
