import Mathlib.Logic.Relation
import PlanArchive.Proofs.Archive.Ownership

/-!
# Deletions that are cut short

A deletion that is cut short has removed a part of the plan's tree that is closed downwards: below a
document that is gone nothing is left. The next one skips what is gone, which loses nothing for that
reason, and it finds the plan, whose document goes last. `deletion_resumes` says so for any number
of deletions that were cut short at any of their writes, and for the one that comes to its end.

It is enough that the plan is stored as its creation left it (`HoldsPlan`), up to updates: these
change no place of a document in the tree (`RevisedIn`).
-/

namespace PlanArchive

theorem Document.SamePlace.trans {d e f : Document} (first : d.SamePlace e)
    (second : e.SamePlace f) : d.SamePlace f where
  kind := second.kind.trans first.kind
  node := second.node.trans first.node
  refs := second.refs.trans first.refs

namespace Archive

variable {a : Archive} {c d : Contents} {p : Plan} {s t : MemoryStore} {id planId : Uuid}
  {e root : EntityRef} {docs : List PendingDocument} {roots below : List EntityRef}

/-! ## Documents in other revisions -/

/-- Where the documents belong, there are documents that stand in the same places of the tree. -/
def RevisedIn (a : Archive) (c : Contents) (docs : List PendingDocument) : Prop :=
  ∀ d : Document, .ofDocument d ∈ docs → ∃ (e : Document) (token : VersionToken),
    d.SamePlace e ∧ c.find? (a.key d.entity.1 d.entity.2) = some ⟨e.toJson, token⟩

theorem revisedIn_of_storedIn (stored : a.StoredIn c docs) : a.RevisedIn c docs := by
  intro d member
  obtain ⟨token, found⟩ := stored _ member
  exact ⟨d, token, ⟨rfl, rfl, rfl⟩, found⟩

/-- Setting integers of a document makes another revision of it. -/
theorem RevisedIn.patches (revised : a.RevisedIn c docs) (patches : a.Patches c d) :
    a.RevisedIn d docs := by
  rcases patches with rfl | ⟨f, fields, members, old, token, new, stored, rfl⟩
  · exact revised
  · intro d member
    obtain ⟨e, current, samePlace, found⟩ := revised d member
    by_cases isPatched : d.entity = f
    · subst isPatched
      have isStored := Option.some.inj (stored.symm.trans found)
      have sameMembers : members = e.fields :=
        Json.obj.inj ((congrArg Item.doc isStored).trans e.toJson_eq)
      have newOfKind : NewIntegers e.kind fields := samePlace.kind ▸ new
      obtain ⟨g, applied, alsoSame⟩ := e.apply_fields newOfKind
      refine ⟨g, token, samePlace.trans alsoSame, ?_⟩
      rw [Contents.find?_put, if_pos rfl, sameMembers, applied, g.toJson_eq]
    · exact ⟨e, current, samePlace, (find?_put_of_ne _ isPatched).trans found⟩

theorem RevisedIn.nodes (revised : a.RevisedIn c docs) (forest : Forest planId roots docs) :
    a.NodesIn planId c docs := by
  intro q member
  obtain ⟨d, rfl, owned, _⟩ := forest.laidOut q member
  obtain ⟨e, token, samePlace, found⟩ := revised d member
  have sameEntity : e.entity = d.entity := by
    rw [Document.entity, samePlace.kind, samePlace.node, ← Document.entity]
  refine ⟨e.node, node?_of_find? found rfl sameEntity, ?_⟩
  rw [samePlace.node, PendingDocument.children_ofDocument]
  exact ⟨rfl, owned, rfl⟩

theorem RevisedIn.laidOutBelow (revised : a.RevisedIn c docs) (forest : Forest planId [root] docs)
    (notNil : ∀ q ∈ docs, q.id.isNil = false) : a.LaidOutBelow c root := by
  intro f item below stored
  obtain ⟨q, member, rfl⟩ := mem_of_below forest (revised.nodes forest) below
  obtain ⟨d, rfl, _, readable⟩ := forest.laidOut q member
  obtain ⟨e, token, samePlace, found⟩ := revised d member
  have isStored : item = ⟨e.toJson, token⟩ := Option.some.inj (stored.symm.trans found)
  refine ⟨e, congrArg Item.doc isStored, ?_, notNil _ member, samePlace.refs ▸ readable⟩
  rw [Document.entity, samePlace.kind, samePlace.node]
  rfl

/-! ## A plan with its tree -/

/-- Contents that hold a plan as its creation left it, with updates of any entities since. What is
stored at places of other entities does not matter. -/
inductive HoldsPlan (a : Archive) (p : Plan) : Contents → Prop
  | created {s : MemoryStore} (succeeded : (a.create p s).result = .ok ()) :
    HoldsPlan a p (a.create p s).store.contents
  | updated {s : MemoryStore} (entity : Entity) (holds : HoldsPlan a p s.contents) :
    HoldsPlan a p (a.update entity s).store.contents
  | elsewhere {c d : Contents} (holds : HoldsPlan a p c)
    (same : ∀ e ∈ p.entities, d.find? (a.key e.1 e.2) = c.find? (a.key e.1 e.2)) :
    HoldsPlan a p d

namespace HoldsPlan

theorem exists_revised (holds : a.HoldsPlan p c) :
    ∃ docs, a.validated p = .ok docs ∧ a.RevisedIn c docs := by
  induction holds with
  | created succeeded =>
    obtain ⟨docs, written, valid, _, writes, all, _⟩ := create_ok succeeded
    exact ⟨docs, valid, revisedIn_of_storedIn (writes.storedIn valid all)⟩
  | updated entity _ inductionHypothesis =>
    obtain ⟨docs, valid, revised⟩ := inductionHypothesis
    exact ⟨docs, valid, revised.patches (a.update_patches entity _)⟩
  | elsewhere _ same inductionHypothesis =>
    obtain ⟨docs, valid, revised⟩ := inductionHypothesis
    refine ⟨docs, valid, ?_⟩
    intro d member
    obtain ⟨e, token, samePlace, found⟩ := revised d member
    have isEntity : d.entity ∈ p.entities := entity_mem_of_validated valid member
    exact ⟨e, token, samePlace, (same _ isEntity).trans found⟩

theorem notNil (holds : a.HoldsPlan p c) : ∀ e ∈ p.entities, e.2.isNil = false := by
  obtain ⟨docs, valid, _⟩ := holds.exists_revised
  exact (validated_eq_ok valid).2.1

/-- From the root of a subtree all its entities are reached. -/
theorem below_of_subtree (holds : a.HoldsPlan p c) (subtree : Subtree p root below)
    (member : e ∈ below) : a.Below c root e := by
  obtain ⟨docs, valid, revised⟩ := holds.exists_revised
  obtain ⟨encoded, notNil, _⟩ := validated_eq_ok valid
  obtain ⟨own, isPart, forest, rfl⟩ := exists_forest_of_subtree notNil encoded subtree
  have ownRevised : a.RevisedIn c own := fun d member => revised d (isPart member)
  exact (below_iff_of_forest forest (ownRevised.nodes forest)).mpr member

theorem below_iff (holds : a.HoldsPlan p c) :
    a.Below c (.plan, p.id) e ↔ e ∈ p.entities := by
  obtain ⟨docs, valid, revised⟩ := holds.exists_revised
  obtain ⟨encoded, notNil, _⟩ := validated_eq_ok valid
  have forest := forest_of_documents notNil encoded
  rw [← entities_of_documents encoded]
  exact below_iff_of_forest forest (revised.nodes forest)

theorem below_eq (holds : a.HoldsPlan p c) : a.Below c (.plan, p.id) = (· ∈ p.entities) := by
  ext e
  exact holds.below_iff

theorem laidOutBelow (holds : a.HoldsPlan p c) : a.LaidOutBelow c (.plan, p.id) := by
  obtain ⟨docs, valid, revised⟩ := holds.exists_revised
  obtain ⟨encoded, notNil, _⟩ := validated_eq_ok valid
  apply revised.laidOutBelow (forest_of_documents notNil encoded)
  intro q member
  exact notNil q.entity (entity_mem_of_validated valid member)

theorem stored (holds : a.HoldsPlan p c) : ¬ a.Gone c (.plan, p.id) := by
  obtain ⟨docs, valid, revised⟩ := holds.exists_revised
  obtain ⟨encoded, notNil, _⟩ := validated_eq_ok valid
  have nodes := revised.nodes (forest_of_documents notNil encoded)
  obtain ⟨q, member, isPlan⟩ := (mem_entities_iff encoded).mp p.mem_entities_self
  obtain ⟨n, isNode, _⟩ := nodes q member
  rw [isPlan] at isNode
  exact stored_of_node? isNode

/-- A deletion without faults takes away what is left of the tree, and nothing else. -/
theorem deleted (holds : a.HoldsPlan p c) (cut : a.Cut c (.plan, p.id) s.contents)
    (stored : ¬ a.Gone s.contents (.plan, p.id)) (faultless : s.Faultless) :
    (a.delete p.id s).1 = .ok () ∧
      (∀ e ∈ p.entities, a.Gone (a.delete p.id s).2.contents e) ∧
      a.OnlyGone c (· ∈ p.entities) (a.delete p.id s).2.contents := by
  have notNil : p.id.isNil = false := holds.notNil _ p.mem_entities_self
  have removal := delete_of_cut holds.laidOutBelow cut notNil stored
  obtain ⟨_, _, succeeded⟩ := removal.total faultless
  have planGone : a.Gone (a.delete p.id s).2.contents (.plan, p.id) := removal.kept () succeeded
  refine ⟨succeeded, ?_, holds.below_eq ▸ removal.safe.only⟩
  intro e member
  exact removal.safe.below_gone planGone (holds.below_iff.mpr member)

end HoldsPlan

/-! ## One deletion after another -/

/-- A deletion that the store cuts short takes it to another store. -/
def DeletionFails (a : Archive) (id : Uuid) (s t : MemoryStore) : Prop :=
  ∃ budget e, a.delete id (s.allowing budget) = (.error e, t)

theorem deletionFails_of_error {budget : Option Nat} {e : ArchiveError}
    (failed : (a.delete id (s.allowing budget)).1 = .error e) :
    a.DeletionFails id s (a.delete id (s.allowing budget)).2 :=
  ⟨budget, e, Prod.ext failed rfl⟩

/-- A deletion that is cut short cuts the tree further and leaves the plan. -/
theorem DeletionFails.cut (fails : a.DeletionFails id s t)
    (laidOut : a.LaidOutBelow c (.plan, id)) (cut : a.Cut c (.plan, id) s.contents)
    (notNil : id.isNil = false) (stored : ¬ a.Gone s.contents (.plan, id)) :
    a.Cut c (.plan, id) t.contents ∧ ¬ a.Gone t.contents (.plan, id) := by
  obtain ⟨budget, e, failed⟩ := fails
  have removal := delete_of_cut (s := s.allowing budget) laidOut cut notNil stored
  have kept := a.delete_fails_keeping id _ _ _ failed
  rw [failed] at removal
  exact ⟨removal.safe, by rwa [Gone, kept]⟩

theorem cut_of_deletionsFail (laidOut : a.LaidOutBelow s.contents (.plan, id))
    (notNil : id.isNil = false) (stored : ¬ a.Gone s.contents (.plan, id))
    (attempts : Relation.ReflTransGen (a.DeletionFails id) s t) :
    a.Cut s.contents (.plan, id) t.contents ∧ ¬ a.Gone t.contents (.plan, id) := by
  induction attempts with
  | refl => exact ⟨.start a _ _, stored⟩
  | tail _ fails inductionHypothesis =>
    obtain ⟨cut, stillStored⟩ := inductionHypothesis
    exact fails.cut laidOut cut notNil stillStored

/-- A plan that is stored with its tree, all children that name it being its own, may be deleted
with any number of deletions that are cut short. After each of them all documents are as they were,
but for some of the tree that are gone, each with all that is below it in the plan, and the plan is
still there. A deletion without faults then succeeds, and what is missing are the documents of the
tree; deleting the plan once more does nothing. -/
theorem deletion_resumes (holds : a.HoldsPlan p s.contents)
    (alone : ∀ e, a.Owned s.contents p.id e → e ∈ p.entities)
    (attempts : Relation.ReflTransGen (a.DeletionFails p.id) s t) :
    a.OnlyGone s.contents (· ∈ p.entities) t.contents ∧
      (∀ root below, Subtree p root below → a.Gone t.contents root →
        ∀ e ∈ below, a.Gone t.contents e) ∧
      ¬ a.Gone t.contents (.plan, p.id) ∧
      ∃ u, a.delete p.id (t.allowing none) = (.ok (), u) ∧
        (∀ e ∈ p.entities, a.Gone u.contents e) ∧
        (∀ key, (∀ e ∈ p.entities, key ≠ a.key e.1 e.2) →
          u.contents.find? key = s.contents.find? key) ∧
        ∀ budget, a.delete p.id (u.allowing budget) = (.ok (), u.allowing budget) := by
  have notNil : p.id.isNil = false := holds.notNil _ p.mem_entities_self
  obtain ⟨cut, stored⟩ := cut_of_deletionsFail holds.laidOutBelow notNil holds.stored attempts
  refine ⟨holds.below_eq ▸ cut.only, ?_, stored, ?_⟩
  · intro root below subtree gone e member
    exact cut.below_gone gone (holds.below_of_subtree subtree member)
  · obtain ⟨succeeded, treeGone, only⟩ := holds.deleted (s := t.allowing none) cut stored rfl
    refine ⟨(a.delete p.id (t.allowing none)).2, Prod.ext succeeded rfl, treeGone, ?_, ?_⟩
    · intro key foreign
      rcases only key with same | ⟨_, e, isEntity, isKey⟩
      · exact same
      · exact absurd isKey (foreign e isEntity)
    · intro budget
      apply delete_of_unmarked (s := MemoryStore.allowing _ budget) notNil
        (treeGone _ p.mem_entities_self)
      intro e marked
      obtain ⟨isChild, item, found, owner⟩ := marked.owned
      have isOwn := alone e ⟨isChild, item, only.find?_eq_some found, owner⟩
      cases found.symm.trans (treeGone e isOwn)

/-- A plan that was created and then updated. -/
def intact : MemoryStore :=
  (demo.update (.plan original) (demo.create original MemoryStore.empty).store).store

/-- A deletion of it is cut short after its first write. -/
def cutOnce : MemoryStore := (demo.delete original.id (intact.allowing (some 1))).2

/-- Another one is cut short after its second write. -/
def cutTwice : MemoryStore := (demo.delete original.id (cutOnce.allowing (some 2))).2

theorem deletion_resumes_cutTwice :
    demo.HoldsPlan original intact.contents ∧
      (∀ e, demo.Owned intact.contents original.id e → e ∈ original.entities) ∧
      Relation.ReflTransGen (demo.DeletionFails original.id) intact cutTwice ∧
      (demo.Gone cutTwice.contents (.action, numbered 4) ∧
        ¬ demo.Gone cutTwice.contents (.checks, numbered 2)) ∧
      demo.OnlyGone intact.contents (· ∈ original.entities) cutTwice.contents ∧
      (∀ root below, Subtree original root below → demo.Gone cutTwice.contents root →
        ∀ e ∈ below, demo.Gone cutTwice.contents e) ∧
      ¬ demo.Gone cutTwice.contents (.plan, original.id) ∧
      ∃ u, demo.delete original.id (cutTwice.allowing none) = (.ok (), u) ∧
        (∀ e ∈ original.entities, demo.Gone u.contents e) ∧
        (∀ key, (∀ e ∈ original.entities, key ≠ demo.key e.1 e.2) →
          u.contents.find? key = intact.contents.find? key) ∧
        ∀ budget, demo.delete original.id (u.allowing budget) = (.ok (), u.allowing budget) := by
  have holds : demo.HoldsPlan original intact.contents := .updated (.plan original) (.created rfl)
  have places : intact.contents.entries.map Prod.fst =
      original.entities.map fun e => demo.key e.1 e.2 := by decide +kernel
  have alone : ∀ e, demo.Owned intact.contents original.id e → e ∈ original.entities := by
    intro e ⟨_, item, found, _⟩
    have isPlace : demo.key e.1 e.2 ∈ intact.contents.entries.map Prod.fst :=
      List.mem_map.mpr ⟨_, (List.lookup_eq_some_of_nodup intact.contents.distinct).mp found, rfl⟩
    rw [places] at isPlace
    obtain ⟨f, member, sameKey⟩ := List.mem_map.mp isPlace
    exact key_injective sameKey ▸ member
  have ⟨first, second, gone, left⟩ : (demo.delete original.id (intact.allowing (some 1))).1 =
        .error (.transport .delete .action (numbered 4) MemoryStore.injectedFailure) ∧
      (demo.delete original.id (cutOnce.allowing (some 2))).1 =
        .error (.transport .delete .checks (numbered 2) MemoryStore.injectedFailure) ∧
      (cutTwice.contents.find? (demo.key .action (numbered 4))).isNone = true ∧
      (cutTwice.contents.find? (demo.key .checks (numbered 2))).isNone = false := by
    decide +kernel
  have attempts : Relation.ReflTransGen (demo.DeletionFails original.id) intact cutTwice :=
    (Relation.ReflTransGen.single (deletionFails_of_error first)).tail
      (deletionFails_of_error second)
  refine ⟨holds, alone, attempts, ⟨Option.isNone_iff_eq_none.mp gone, ?_⟩,
    deletion_resumes holds alone attempts⟩
  intro absent
  rw [Option.isNone_iff_eq_none.mpr absent] at left
  cases left

end Archive

end PlanArchive
