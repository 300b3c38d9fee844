import PlanArchive.Proofs.Archive.Removing
import PlanArchive.Proofs.Archive.Tree

/-!
# Deleting a stored plan

A plan that is stored is deleted by a walk over the references of its documents. At whatever call
the walk is cut short, every document is as it was, or gone and below the plan; and a document that
is gone has nothing left below it (`Cut`), because documents are removed after those they refer to.
When the walk comes to its end the plan is gone, so that all below it is gone (`delete_of_stored`).
Which plans the documents name plays no part in any of this.
-/

namespace PlanArchive

namespace Archive

variable {a : Archive} {old c d : Contents} {root e : EntityRef} {id : Uuid}

/-- The document of an entity is not there. -/
def Gone (a : Archive) (c : Contents) (e : EntityRef) : Prop := c.find? (a.key e.1 e.2) = none

theorem Gone.stable (a : Archive) (e : EntityRef) : Stable fun c => a.Gone c e :=
  .find?_eq_none _

/-- In a laid out partition there is a node wherever there is a document. -/
theorem LaidOut.gone_iff (laidOut : a.LaidOut c) : a.Gone c e ↔ a.node? c e = none := by
  constructor
  · exact node?_eq_none
  · intro nothing
    by_cases gone : a.Gone c e
    · exact gone
    · obtain ⟨n, isNode, _⟩ := laidOut.node?_isSome gone
      cases nothing.symm.trans isNode

/-- All that the document of an entity referred to is gone. -/
def ChildrenGone (a : Archive) (old c : Contents) (e : EntityRef) : Prop :=
  ∀ n, a.node? old e = some n → ∀ child ∈ n.children, a.Gone c child

/-- Every document is as it was, or gone and one of some entities. -/
def OnlyGone (a : Archive) (old : Contents) (some : EntityRef → Prop) (c : Contents) : Prop :=
  ∀ key, c.find? key = old.find? key ∨
    c.find? key = none ∧ ∃ e, some e ∧ key = a.key e.1 e.2

theorem OnlyGone.find?_eq_some {some : EntityRef → Prop} (only : a.OnlyGone old some c)
    {key : DocumentKey} {item : Item} (stored : c.find? key = .some item) :
    old.find? key = .some item := by
  rcases only key with same | ⟨missing, _⟩
  · rw [← same, stored]
  · rw [missing] at stored
    cases stored

theorem OnlyGone.erase {some : EntityRef → Prop} (only : a.OnlyGone old some c)
    (isOne : some e) : a.OnlyGone old some (c.erase (a.key e.1 e.2)) := by
  intro key
  rw [Contents.find?_erase]
  by_cases isKey : key = a.key e.1 e.2
  · exact .inr ⟨if_pos isKey, e, isOne, isKey⟩
  · rw [if_neg isKey]
    exact only key

/-- What a walk from `root` has made of the contents that it began with, at any time. -/
structure Cut (a : Archive) (old : Contents) (root : EntityRef) (c : Contents) : Prop where
  only : a.OnlyGone old (a.Below old root) c
  /-- A document that is gone has left nothing behind. -/
  closed : ∀ e n, a.node? old e = some n → a.Gone c e → ∀ child ∈ n.children, a.Gone c child

theorem Cut.start (a : Archive) (c : Contents) (root : EntityRef) : a.Cut c root c where
  only := fun _ => .inl rfl
  closed := by
    intro e n isNode gone
    exact absurd gone (stored_of_node? isNode)

theorem Cut.erase (cut : a.Cut old root c) (below : a.Below old root e)
    (childrenGone : a.ChildrenGone old c e) : a.Cut old root (c.erase (a.key e.1 e.2)) where
  only := cut.only.erase below
  closed := by
    intro f n isNode gone child refers
    apply Gone.stable a child _ _ (.erase c _)
    by_cases same : f = e
    · subst same
      exact childrenGone n isNode child refers
    · have different : a.key f.1 f.2 ≠ a.key e.1 e.2 := fun keys => same (key_injective keys)
      have already : a.Gone c f := by
        rwa [Gone, Contents.find?_erase, if_neg different] at gone
      exact cut.closed f n isNode already child refers

/-- An entity that is gone has taken everything below it with it. -/
theorem Cut.below_gone {top : EntityRef} (cut : a.Cut old root c) (topGone : a.Gone c top)
    (below : a.Below old top e) : a.Gone c e := by
  induction below with
  | root => exact topGone
  | child _ stored refers inductionHypothesis =>
    exact cut.closed _ _ stored inductionHypothesis _ refers

/-! ## Single documents -/

theorem remove_cuts (below : a.Below old root e) :
    Removes (a.Cut old root) (a.ChildrenGone old · e) (a.remove e.1 e.2 none)
      fun _ c => a.Gone c e :=
  Removes.remove (fun _ cut childrenGone => cut.erase below childrenGone) (by simp)

/-- What a walk knows of a document that it found: it was there at first, laid out for its
entity. -/
structure Found (a : Archive) (old : Contents) (e : EntityRef) (d : Document)
    (token : VersionToken) : Prop where
  entity : d.entity = e
  readable : ∃ ids, CheckRefs.decode d.refs = .ok ids
  node : a.node? old e = some d.node
  stored : ∃ item, old.find? (a.key e.1 e.2) = some item ∧ item.token = token

theorem Found.childrenGone {d : Document} {token : VersionToken} (found : a.Found old e d token)
    (gone : ∀ child ∈ d.node.children, a.Gone c child) : a.ChildrenGone old c e := by
  intro n isNode
  rw [← Option.some.inj (found.node.symm.trans isNode)]
  exact gone

theorem fetchExisting_of_missing {δ : Type} {kind : EntityKind} {parse : Json → Option δ}
    {s : MemoryStore} (missing : a.Gone s.contents (kind, id)) :
    a.fetchExisting parse kind id s = (.ok none, s) := by
  have reading : DocumentStore.read s (a.key kind id) = s.read (a.key kind id) := rfl
  have failed : s.read (a.key kind id) =
      .error (.notFound (a.key kind id).collection (a.key kind id).id) := by
    rw [MemoryStore.read_eq, missing]
  simp [fetchExisting, Change.looking, fetch, reading, failed, ArchiveError.ofStore,
    ArchiveError.isNotFound]

theorem fetchExisting_of_stored {δ : Type} {kind : EntityKind} {parse : Json → Option δ}
    {wrap : δ → Document} {s : MemoryStore} {item : Item}
    (isDocument : IsDocumentOf item.doc (kind, id))
    (typed : ∀ v, Document.ofJson? kind v = (parse v).map wrap)
    (isOld : old.find? (a.key kind id) = some item)
    (stored : s.contents.find? (a.key kind id) = some item) :
    ∃ d, a.fetchExisting parse kind id s = (.ok (some (d, item.token)), s) ∧
      a.Found old (kind, id) (wrap d) item.token := by
  obtain ⟨doc, isLaidOut, isEntity, _, readable⟩ := isDocument
  have isDocument := document?_of_find? isOld isLaidOut isEntity
  have parsed : Document.ofJson? kind item.doc = some doc := by
    have opened := isDocument
    rwa [document?, isOld, Option.bind_some] at opened
  obtain ⟨d, isParsed, rfl⟩ := Option.map_eq_some_iff.mp (typed item.doc ▸ parsed)
  have reading : DocumentStore.read s (a.key kind id) = s.read (a.key kind id) := rfl
  have present := MemoryStore.read_eq_ok.mpr stored
  have isNode : a.node? old (kind, id) = some (wrap d).node := by
    rw [node?, isDocument]
    rfl
  refine ⟨d, ?_, isEntity, readable, isNode, item, isOld, rfl⟩
  simp [fetchExisting, Change.looking, fetch, reading, present, isParsed]

/-- Fetching a document below the root finds the one that was there at first, unless it is gone. -/
theorem fetchExisting_cuts {δ : Type} {kind : EntityKind} {parse : Json → Option δ}
    {wrap : δ → Document} (laidOut : a.LaidOutBelow old root)
    (below : a.Below old root (kind, id))
    (typed : ∀ v, Document.ofJson? kind v = (parse v).map wrap) :
    Removes (a.Cut old root) (fun _ => True) (a.fetchExisting parse kind id) fun found c =>
      (∀ d token, found = some (d, token) → a.Found old (kind, id) (wrap d) token) ∧
      (found = none → a.Gone c (kind, id)) := by
  apply Removes.looking
  intro s cut _
  cases stored : s.contents.find? (a.key kind id) with
  | none =>
    exact ⟨none, congrArg Prod.fst (fetchExisting_of_missing stored), by simp, fun _ => stored⟩
  | some item =>
    have isOld := cut.only.find?_eq_some stored
    have isDocument := laidOut (kind, id) item below isOld
    obtain ⟨d, fetched, found⟩ := fetchExisting_of_stored isDocument typed isOld stored
    refine ⟨some (d, item.token), congrArg Prod.fst fetched, ?_, by simp⟩
    rintro e token ⟨⟩
    exact found

/-! ## Parts of the tree -/

theorem childrenGone_action (a : Archive) (old c : Contents) (id : Uuid) :
    a.ChildrenGone old c (.action, id) := by
  intro n isNode child refers
  obtain ⟨d, isDocument, rfl⟩ := Option.map_eq_some_iff.mp isNode
  obtain ⟨item, _, parsed⟩ := Option.bind_eq_some_iff.mp isDocument
  obtain ⟨_, _, rfl⟩ := Option.map_eq_some_iff.mp parsed
  cases refers

theorem removeActions_cuts {ids : List Uuid}
    (below : ∀ id ∈ ids, a.Below old root (.action, id)) :
    Removes (a.Cut old root) (fun _ => True) (a.removeActions ids)
      fun _ c => ∀ id ∈ ids, a.Gone c (.action, id) := by
  apply Removes.each .true fun id _ => Gone.stable a (.action, id)
  intro id member
  exact (remove_cuts (below id member)).given fun c _ => childrenGone_action a old c id

/-- Deleting checks below the root removes them, after their actions. -/
theorem deleteChecks_cuts (laidOut : a.LaidOutBelow old root)
    (below : a.Below old root (.checks, id)) :
    Removes (a.Cut old root) (fun _ => True) (a.deleteChecks id)
      fun _ c => a.Gone c (.checks, id) := by
  apply Removes.bind .true (fetchExisting_cuts laidOut below fun _ => rfl)
  rintro (_ | ⟨d, token⟩)
  · exact Removes.done fun c holds => holds.2.2 rfl
  · intro s cut holds
    have found := holds.2.1 d token rfl
    have actionsBelow : ∀ x ∈ d.actions, a.Below old root (.action, x) := by
      intro x member
      exact .child below found.node (List.mem_map.mpr ⟨x, member, rfl⟩)
    have deleting := (removeActions_cuts actionsBelow).bind .true fun _ =>
      (remove_cuts below).given fun c gone => ?_
    · exact deleting s cut trivial
    · apply found.childrenGone
      intro child refers
      obtain ⟨x, member, rfl⟩ := List.mem_map.mp refers
      exact gone.2 x member

/-- Deleting the checks in slots removes all of them. -/
theorem deleteSlots_cuts {refs : CheckRefs} (kind : EntityKind) (id : Uuid)
    (laidOut : a.LaidOutBelow old root)
    (readable : ∃ ids, CheckRefs.decode refs = .ok ids)
    (below : ∀ x ∈ CheckRefs.ids refs, a.Below old root (.checks, x)) :
    Removes (a.Cut old root) (fun _ => True) (a.deleteSlots kind id refs)
      fun _ c => ∀ x ∈ CheckRefs.ids refs, a.Gone c (.checks, x) := by
  obtain ⟨ids, decodes⟩ := readable
  have present : CheckRefs.ids refs = ids.present := by rw [CheckRefs.ids, decodes]
  rw [present] at below ⊢
  have looked : Removes (a.Cut old root) (fun _ => True)
      (Change.looking fun _ : MemoryStore => decoded .delete kind id (CheckRefs.decode refs))
      fun v _ => v = ids := by
    apply Removes.looking
    intro s _ _
    exact ⟨ids, by rw [decodes, decoded], rfl⟩
  apply Removes.bind .true looked
  intro v s cut holds
  rw [holds.2]
  have deleting : Removes (a.Cut old root) (fun _ => True) (Change.each a.deleteChecks ids.present)
      fun _ c => ∀ x ∈ ids.present, a.Gone c (.checks, x) := by
    apply Removes.each .true fun x _ => Gone.stable a (.checks, x)
    intro x member
    exact deleteChecks_cuts laidOut (below x member)
  exact deleting s cut trivial

/-- The actions of sequences below the root are removed before any of the sequences. -/
theorem removeSequenceActions_cuts {sequences : List (SequenceDocument × VersionToken)}
    (below : ∀ v ∈ sequences, a.Below old root (.sequence, v.1.id))
    (found : ∀ v ∈ sequences, a.Found old (.sequence, v.1.id) (.sequence v.1) v.2) :
    Removes (a.Cut old root) (fun _ => True)
      (Change.each (fun (q, _) => a.removeActions q.actions) sequences)
      fun _ c => ∀ v ∈ sequences, ∀ y ∈ v.1.actions, a.Gone c (.action, y) := by
  apply Removes.each .true fun v _ => .forall fun y => .forall fun _ => Gone.stable a (.action, y)
  intro v member
  exact removeActions_cuts fun y isAction =>
    .child (below v member) (found v member).node (List.mem_map.mpr ⟨y, isAction, rfl⟩)

/-- Sequences of which the actions are gone are removed. -/
theorem removeSequences_cuts {sequences : List (SequenceDocument × VersionToken)}
    (below : ∀ v ∈ sequences, a.Below old root (.sequence, v.1.id))
    (found : ∀ v ∈ sequences, a.Found old (.sequence, v.1.id) (.sequence v.1) v.2) :
    Removes (a.Cut old root)
      (fun c => ∀ v ∈ sequences, ∀ y ∈ v.1.actions, a.Gone c (.action, y))
      (Change.each (fun (q, _) => a.remove .sequence q.id none) sequences)
      fun _ c => ∀ v ∈ sequences, a.Gone c (.sequence, v.1.id) := by
  apply Removes.each
  · exact .forall fun v => .forall fun _ => .forall fun y => .forall fun _ =>
      Gone.stable a (.action, y)
  · exact fun v _ => Gone.stable a (.sequence, v.1.id)
  · intro v member
    refine (remove_cuts (below v member)).given ?_
    intro c gone
    apply (found v member).childrenGone
    intro child refers
    obtain ⟨y, isAction, rfl⟩ := List.mem_map.mp refers
    exact gone v member y isAction

/-- The sequences of a block that are still there are removed after all their actions, then the
block. -/
theorem removeBlock_cuts {d : BlockDocument} {token : VersionToken}
    {sequences : List (SequenceDocument × VersionToken)} (below : a.Below old root (.block, id))
    (found : a.Found old (.block, id) (.block d) token)
    (foundSequences : ∀ v ∈ sequences, ∃ x ∈ d.sequences,
      a.Found old (.sequence, x) (.sequence v.1) v.2) :
    Removes (a.Cut old root) (fun c => (∀ x ∈ CheckRefs.ids d.checks, a.Gone c (.checks, x)) ∧
        ∀ x ∈ d.sequences, (∃ v ∈ sequences, a.Found old (.sequence, x) (.sequence v.1) v.2) ∨
          a.Gone c (.sequence, x))
      (do
        Change.each (fun (q, _) => a.removeActions q.actions) sequences
        Change.each (fun (q, _) => a.remove .sequence q.id none) sequences
        a.remove .block id none)
      fun _ c => a.Gone c (.block, id) := by
  have sequenceFound : ∀ v ∈ sequences, a.Found old (.sequence, v.1.id) (.sequence v.1) v.2 := by
    intro v member
    obtain ⟨x, _, foundSequence⟩ := foundSequences v member
    have sameId : v.1.id = x := congrArg Prod.snd foundSequence.entity
    exact sameId ▸ foundSequence
  have sequenceBelow : ∀ v ∈ sequences, a.Below old root (.sequence, v.1.id) := by
    intro v member
    obtain ⟨x, isSequence, foundSequence⟩ := foundSequences v member
    have sameId : v.1.id = x := congrArg Prod.snd foundSequence.entity
    rw [sameId]
    exact .child below found.node
      (List.mem_append_right _ (List.mem_map.mpr ⟨x, isSequence, rfl⟩))
  have beforeStable : Stable fun c => (∀ x ∈ CheckRefs.ids d.checks, a.Gone c (.checks, x)) ∧
      ∀ x ∈ d.sequences, (∃ v ∈ sequences, a.Found old (.sequence, x) (.sequence v.1) v.2) ∨
        a.Gone c (.sequence, x) := by
    apply Stable.and
    · exact .forall fun x => .forall fun _ => Gone.stable a (.checks, x)
    · exact .forall fun x => .forall fun _ => (Gone.stable a (.sequence, x)).or_left
  have actionsStable : Stable fun c => ∀ v ∈ sequences, ∀ y ∈ v.1.actions,
      a.Gone c (.action, y) :=
    .forall fun v => .forall fun _ => .forall fun y => .forall fun _ => Gone.stable a (.action, y)
  have actions := removeSequenceActions_cuts sequenceBelow sequenceFound
  have removing := removeSequences_cuts sequenceBelow sequenceFound
  refine (actions.given fun _ _ => trivial).bind beforeStable fun _ => ?_
  refine (removing.given fun _ holds => holds.2).bind (beforeStable.and actionsStable) fun _ => ?_
  refine (remove_cuts below).given ?_
  intro c ⟨⟨⟨checksGone, allFound⟩, _⟩, foundGone⟩
  apply found.childrenGone
  intro child refers
  rcases List.mem_append.mp refers with isChecks | isSequence
  · obtain ⟨x, member, rfl⟩ := List.mem_map.mp isChecks
    exact checksGone x member
  · obtain ⟨x, member, rfl⟩ := List.mem_map.mp isSequence
    rcases allFound x member with ⟨v, isFound, foundSequence⟩ | gone
    · have sameId : v.1.id = x := congrArg Prod.snd foundSequence.entity
      exact sameId ▸ foundGone v isFound
    · exact gone

/-- Deleting a block below the root removes it, after its checks and sequences. -/
theorem deleteBlock_cuts (laidOut : a.LaidOutBelow old root)
    (below : a.Below old root (.block, id)) :
    Removes (a.Cut old root) (fun _ => True) (a.deleteBlock id)
      fun _ c => a.Gone c (.block, id) := by
  apply Removes.bind .true (fetchExisting_cuts laidOut below fun _ => rfl)
  rintro (_ | ⟨d, token⟩)
  · exact Removes.done fun c holds => holds.2.2 rfl
  · intro s cut holds
    have found : a.Found old (.block, id) (.block d) token := holds.2.1 d token rfl
    have checksBelow : ∀ x ∈ CheckRefs.ids d.checks, a.Below old root (.checks, x) := by
      intro x member
      exact .child below found.node
        (List.mem_append_left _ (List.mem_map.mpr ⟨x, member, rfl⟩))
    -- Sequences are looked up before the first of them is removed; one that is found is the one
    -- that was there at first.
    have collected : Removes (a.Cut old root) (fun _ => True)
        (Change.collect (fun id => a.fetchExisting SequenceDocument.ofJson? .sequence id)
          d.sequences) fun results c =>
            (∀ v ∈ results, ∃ x ∈ d.sequences, a.Found old (.sequence, x) (.sequence v.1) v.2) ∧
            ∀ x ∈ d.sequences, (∃ v ∈ results, a.Found old (.sequence, x) (.sequence v.1) v.2) ∨
              a.Gone c (.sequence, x) := by
      apply Removes.collect .true fun x _ => Gone.stable a (.sequence, x)
      intro x member
      have sequenceBelow : a.Below old root (.sequence, x) := .child below found.node
        (List.mem_append_right _ (List.mem_map.mpr ⟨x, member, rfl⟩))
      exact (fetchExisting_cuts laidOut sequenceBelow fun _ => rfl).weaken fun result c holds =>
        ⟨fun v isResult => holds.1 v.1 v.2 isResult, holds.2⟩
    have slotsStable : Stable fun c => ∀ x ∈ CheckRefs.ids d.checks, a.Gone c (.checks, x) :=
      .forall fun x => .forall fun _ => Gone.stable a (.checks, x)
    have slots := deleteSlots_cuts .block id laidOut found.readable checksBelow
    refine (slots.bind .true fun _ => ?_) s cut trivial
    refine (collected.given fun _ _ => trivial).bind (Stable.true.and slotsStable)
      fun sequences => ?_
    intro t tCut ⟨⟨_, checksGone⟩, foundSequences, allFound⟩
    exact removeBlock_cuts below found foundSequences t tCut ⟨checksGone, allFound⟩

/-- Deleting a plan that is stored, from contents that a deletion may have cut before: whatever is
gone in the end, or when the walk is cut short, is below the plan, and without faults the walk comes
to its end. -/
theorem delete_of_cut {s : MemoryStore} (laidOut : a.LaidOutBelow old (.plan, id))
    (cut : a.Cut old (.plan, id) s.contents) (notNil : id.isNil = false)
    (stored : ¬ a.Gone s.contents (.plan, id)) :
    Removal (a.Cut old (.plan, id)) (fun _ c => a.Gone c (.plan, id)) s (a.delete id s) := by
  obtain ⟨item, present⟩ := Option.ne_none_iff_exists'.mp stored
  have found := cut.only.find?_eq_some present
  obtain ⟨d, fetched, isFound⟩ := @fetchExisting_of_stored a old id PlanDocument .plan
    PlanDocument.ofJson? .plan s item (laidOut (.plan, id) item .root found) (fun _ => rfl) found
    present
  have notRejected :
      Change.looking (fun _ : MemoryStore => rejectNil .plan id) s = (.ok (), s) := by
    simp [Change.looking, rejectNil, notNil]
  have opened : a.delete id s = (do
      Change.each a.deleteBlock d.blocks
      a.deleteSlots .plan id d.checks
      a.remove .plan id (some item.token)) s := by
    rw [delete, Change.bind_of_ok notRejected, Change.bind_of_ok fetched]
  have checksBelow : ∀ x ∈ CheckRefs.ids d.checks, a.Below old (.plan, id) (.checks, x) := by
    intro x member
    exact .child .root isFound.node (List.mem_append_left _ (List.mem_map.mpr ⟨x, member, rfl⟩))
  have blocks : Removes (a.Cut old (.plan, id)) (fun _ => True)
      (Change.each a.deleteBlock d.blocks) fun _ c => ∀ x ∈ d.blocks, a.Gone c (.block, x) := by
    apply Removes.each .true fun x _ => Gone.stable a (.block, x)
    intro x member
    exact deleteBlock_cuts laidOut (.child .root isFound.node
      (List.mem_append_right _ (List.mem_map.mpr ⟨x, member, rfl⟩)))
  have slots := deleteSlots_cuts .plan id laidOut isFound.readable checksBelow
  have own : Removes (a.Cut old (.plan, id))
      (a.ChildrenGone old · (.plan, id)) (a.remove .plan id (some item.token))
      fun _ c => a.Gone c (.plan, id) := by
    apply Removes.remove
    · exact fun c cut childrenGone => cut.erase .root childrenGone
    · intro c current cut _ isStored token demanded
      have same := found.symm.trans (cut.only.find?_eq_some isStored)
      rw [← Option.some.inj demanded, Option.some.inj same]
  have blocksStable : Stable fun c => ∀ x ∈ d.blocks, a.Gone c (.block, x) :=
    .forall fun x => .forall fun _ => Gone.stable a (.block, x)
  rw [opened]
  refine (blocks.bind .true fun _ => ?_) s cut trivial
  refine (slots.given fun _ _ => trivial).bind (Stable.true.and blocksStable) fun _ => ?_
  refine own.given ?_
  intro c ⟨⟨_, blocksGone⟩, checksGone⟩
  apply isFound.childrenGone
  intro child refers
  rcases List.mem_append.mp refers with isChecks | isBlock
  · obtain ⟨x, member, rfl⟩ := List.mem_map.mp isChecks
    exact checksGone x member
  · obtain ⟨x, member, rfl⟩ := List.mem_map.mp isBlock
    exact blocksGone x member

/-- Deleting a plan that is stored in a laid out partition. -/
theorem delete_of_stored {s : MemoryStore} (laidOut : a.LaidOut s.contents)
    (notNil : id.isNil = false) (stored : ¬ a.Gone s.contents (.plan, id)) :
    Removal (a.Cut s.contents (.plan, id)) (fun _ c => a.Gone c (.plan, id)) s (a.delete id s) :=
  delete_of_cut (laidOut.below _) (.start a _ _) notNil stored

end Archive

end PlanArchive
