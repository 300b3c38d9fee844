import PlanArchive.Proofs.Archive.Walk

/-!
# Deleting what is left of a plan that is not stored

Without a plan document there is nothing to walk from, and the children are found by the text in
which they name the plan. The sweep removes exactly these, if they carry their own identifiers: at
whatever call it is cut short, every document is as it was, or gone and one of them, and in the end
none of them is left (`delete_of_marked`). In a laid out partition they are the children that name
the plan (`delete_of_missing`).
-/

namespace PlanArchive

namespace Archive

variable {a : Archive} {old c : Contents} {e : EntityRef} {id : Uuid}

/-- A child that names a plan. -/
def Names (a : Archive) (c : Contents) (planId : Uuid) (e : EntityRef) : Prop :=
  e.1 ≠ .plan ∧ ∃ n, a.node? c e = some n ∧ n.owner = planId

/-- A child that the sweep of a plan finds: its document has the text of the plan's identifier. -/
def Marked (a : Archive) (c : Contents) (planId : Uuid) (e : EntityRef) : Prop :=
  e.1 ≠ .plan ∧ ∃ item, c.find? (a.key e.1 e.2) = some item ∧
    Field.text? item.doc Field.planId = some planId.toText

/-- The children that a sweep finds carry the identifiers of their places. -/
def MarkedInPlace (a : Archive) (c : Contents) (planId : Uuid) : Prop :=
  ∀ kind id item, kind ≠ .plan → c.find? (a.key kind id) = some item →
    Field.text? item.doc Field.planId = some planId.toText →
    Field.id? item.doc Field.id = some id

theorem mem_childrenOf {planId : Uuid} {items : List Item} {item : Item} :
    item ∈ (childrenOf planId).run Item.doc items ↔
      item ∈ items ∧ Field.text? item.doc Field.planId = some planId.toText := by
  have selects : (childrenOf planId).selects item.doc = true ↔
      Field.text? item.doc Field.planId = some planId.toText := by
    simp only [childrenOf, Query.and, Query.orderedBy, Query.selects, List.nil_append,
      List.all_cons, List.all_nil, Bool.and_true, Condition.holds, Field.text?]
    cases (item.doc.field? Field.planId).bind Json.text? with
    | none => simp
    | some text => simp
  rw [← selects]
  simp [Query.run, childrenOf, Query.and, Query.orderedBy, Query.sort, List.mem_mergeSort]

/-- The fields by which a stored child is found say what its place in a tree says. -/
theorem LaidOut.child_fields {kind : EntityKind} {item : Item} (laidOut : a.LaidOut old)
    (isChild : kind ≠ .plan) (stored : old.find? (a.key kind id) = some item) :
    ∃ n, a.node? old (kind, id) = some n ∧ Field.id? item.doc Field.id = some id ∧
      Field.text? item.doc Field.planId = some n.owner.toText := by
  obtain ⟨d, isLaidOut, isEntity, _⟩ := laidOut (kind, id) item stored
  have sameId : d.node.id = id := congrArg Prod.snd isEntity
  have sameKind : d.kind = kind := congrArg Prod.fst isEntity
  have ⟨ownId, owner⟩ := d.child_fields (sameKind ▸ isChild)
  rw [isLaidOut, ← sameId]
  exact ⟨d.node, node?_of_find? (sameId ▸ stored) isLaidOut (sameId ▸ isEntity), ownId, owner⟩

theorem LaidOut.markedInPlace (laidOut : a.LaidOut old) (id : Uuid) : a.MarkedInPlace old id := by
  intro kind x item isChild stored _
  obtain ⟨_, _, ownId, _⟩ := laidOut.child_fields isChild stored
  exact ownId

/-- In a laid out partition the sweep finds the children that name the plan. -/
theorem LaidOut.marked_iff (laidOut : a.LaidOut old) : a.Marked old id e ↔ a.Names old id e := by
  constructor
  · rintro ⟨isChild, item, stored, text⟩
    obtain ⟨n, isNode, _, owner⟩ := laidOut.child_fields isChild stored
    have same : n.owner.toText = id.toText := Option.some.inj (owner.symm.trans text)
    exact ⟨isChild, n, isNode, Uuid.toText_injective same⟩
  · rintro ⟨isChild, n, isNode, rfl⟩
    obtain ⟨item, stored⟩ := Option.ne_none_iff_exists'.mp (stored_of_node? isNode)
    obtain ⟨m, isAlso, _, owner⟩ := laidOut.child_fields isChild stored
    rw [Option.some.inj (isAlso.symm.trans isNode)] at owner
    exact ⟨isChild, item, stored, owner⟩

/-! ## The sweep -/

/-- The query finds the children that are still there, and no others. -/
theorem childrenOfKind_removes {kind : EntityKind} (inPlace : a.MarkedInPlace old id)
    (isChild : kind ≠ .plan) :
    Removes (a.OnlyGone old (a.Marked old id)) (fun _ => True)
      (Change.looking fun s : MemoryStore => a.childrenOfKind id kind s) fun items c =>
        (∀ item ∈ items, ∀ x, Field.id? item.doc Field.id = some x → a.Marked old id (kind, x)) ∧
        ∀ x, a.Marked old id (kind, x) →
          (∃ item ∈ items, Field.id? item.doc Field.id = some x) ∨ a.Gone c (kind, x) := by
  apply Removes.looking
  intro s only _
  refine ⟨s.query a.part kind.collection (childrenOf id), rfl, ?_, ?_⟩
  · intro item selected x isId
    obtain ⟨isItem, text⟩ := mem_childrenOf.mp selected
    obtain ⟨y, stored⟩ := Contents.mem_itemsIn.mp isItem
    have isOld := only.find?_eq_some stored
    have ownId := inPlace kind y item isChild isOld text
    rw [Option.some.inj (isId.symm.trans ownId)]
    exact ⟨isChild, item, isOld, text⟩
  · intro x ⟨_, item, isOld, text⟩
    rcases only (a.key kind x) with same | ⟨missing, _⟩
    · have isItem : item ∈ s.contents.itemsIn a.part kind.collection :=
        Contents.mem_itemsIn.mpr ⟨x, same.trans isOld⟩
      exact .inl ⟨item, mem_childrenOf.mpr ⟨isItem, text⟩, inPlace kind x item isChild isOld text⟩
    · exact .inr missing

theorem removeItem_removes {kind : EntityKind} {item : Item}
    (marked : ∀ x, Field.id? item.doc Field.id = some x → a.Marked old id (kind, x)) :
    Removes (a.OnlyGone old (a.Marked old id)) (fun _ => True) (a.removeItem kind item)
      fun _ c => ∀ x, Field.id? item.doc Field.id = some x → a.Gone c (kind, x) := by
  rw [removeItem]
  cases isId : Field.id? item.doc Field.id with
  | none => exact Removes.done fun _ _ _ hasOther => by cases hasOther
  | some x =>
    have one : Removes (a.OnlyGone old (a.Marked old id)) (fun _ => True) (a.remove kind x none)
        fun _ c => a.Gone c (kind, x) :=
      Removes.remove (fun c only _ => only.erase (marked x isId)) (by simp)
    refine one.weaken fun _ c gone y hasOther => ?_
    rw [← Option.some.inj hasOther]
    exact gone

theorem sweepKind_removes {kind : EntityKind} (inPlace : a.MarkedInPlace old id)
    (isChild : kind ≠ .plan) :
    Removes (a.OnlyGone old (a.Marked old id)) (fun _ => True) (a.sweepKind id kind)
      fun _ c => ∀ x, a.Marked old id (kind, x) → a.Gone c (kind, x) := by
  apply Removes.bind .true (childrenOfKind_removes inPlace isChild)
  intro items s only ⟨_, marked, all⟩
  have removed : Removes (a.OnlyGone old (a.Marked old id)) (fun _ => True)
      (Change.each (a.removeItem kind) items) fun _ c => ∀ item ∈ items, ∀ x,
        Field.id? item.doc Field.id = some x → a.Gone c (kind, x) := by
    apply Removes.each .true
    · exact fun item _ => .forall fun x => .forall fun _ => Gone.stable a (kind, x)
    · exact fun item member => removeItem_removes (marked item member)
  have ⟨safe, within, kept, total⟩ := removed s only trivial
  refine ⟨safe, within, ?_, total⟩
  intro v isValue x isMarked
  rcases all x isMarked with ⟨item, member, isId⟩ | gone
  · exact kept v isValue item member x isId
  · exact Gone.stable a (kind, x) _ _ within gone

theorem mem_sweptKinds {kind : EntityKind} :
    kind ∈ [EntityKind.action, .checks, .sequence, .block] ↔ kind ≠ .plan := by
  cases kind <;> simp

theorem delete_eq_sweep {s : MemoryStore} (notNil : id.isNil = false)
    (missing : a.Gone s.contents (.plan, id)) : a.delete id s = a.sweep id s := by
  have notRejected :
      Change.looking (fun _ : MemoryStore => rejectNil .plan id) s = (.ok (), s) := by
    simp [Change.looking, rejectNil, notNil]
  rw [delete, Change.bind_of_ok notRejected, Change.bind_of_ok (fetchExisting_of_missing missing)]

/-- Deleting a plan that is not stored: whatever is gone in the end, or when the sweep is cut short,
is a child that the sweep finds, and without faults the sweep comes to its end and leaves none of
them. -/
theorem delete_of_marked {s : MemoryStore} (inPlace : a.MarkedInPlace s.contents id)
    (notNil : id.isNil = false) (missing : a.Gone s.contents (.plan, id)) :
    Removal (a.OnlyGone s.contents (a.Marked s.contents id))
      (fun _ c => ∀ e, a.Marked s.contents id e → a.Gone c e) s (a.delete id s) := by
  have swept : Removes (a.OnlyGone s.contents (a.Marked s.contents id)) (fun _ => True)
      (a.sweep id) fun _ c => ∀ kind ∈ [EntityKind.action, .checks, .sequence, .block],
        ∀ x, a.Marked s.contents id (kind, x) → a.Gone c (kind, x) := by
    apply Removes.each .true
    · exact fun kind _ => .forall fun x => .forall fun _ => Gone.stable a (kind, x)
    · exact fun kind member => sweepKind_removes inPlace (mem_sweptKinds.mp member)
  rw [delete_eq_sweep notNil missing]
  refine swept.weaken ?_ s (fun _ => .inl rfl) trivial
  intro _ c gone e marked
  exact gone e.1 (mem_sweptKinds.mpr marked.1) e.2 marked

/-- Deleting a plan that is not stored in a laid out partition: the children that the sweep finds
are those that name the plan. -/
theorem delete_of_missing {s : MemoryStore} (laidOut : a.LaidOut s.contents)
    (notNil : id.isNil = false) (missing : a.Gone s.contents (.plan, id)) :
    Removal (a.OnlyGone s.contents (a.Names s.contents id))
      (fun _ c => ∀ e, a.Names s.contents id e → a.Gone c e) s (a.delete id s) := by
  have same : a.Marked s.contents id = a.Names s.contents id := by
    ext e
    exact laidOut.marked_iff
  rw [← same]
  exact delete_of_marked (laidOut.markedInPlace id) notNil missing

/-! ## Nothing to sweep -/

theorem childrenOfKind_of_unmarked {kind : EntityKind} {s : MemoryStore} (isChild : kind ≠ .plan)
    (unmarked : ∀ e, ¬ a.Marked s.contents id e) : a.childrenOfKind id kind s = .ok [] := by
  have found : a.childrenOfKind id kind s =
      .ok (s.query a.part kind.collection (childrenOf id)) := rfl
  rw [found]
  refine congrArg _ (List.eq_nil_iff_forall_not_mem.mpr ?_)
  intro item selected
  obtain ⟨isItem, text⟩ := mem_childrenOf.mp selected
  obtain ⟨x, stored⟩ := Contents.mem_itemsIn.mp isItem
  exact unmarked (kind, x) ⟨isChild, item, stored, text⟩

/-- Deleting a plan of which nothing is left does nothing, whatever writes are let through. -/
theorem delete_of_unmarked {s : MemoryStore} (notNil : id.isNil = false)
    (missing : a.Gone s.contents (.plan, id)) (unmarked : ∀ e, ¬ a.Marked s.contents id e) :
    a.delete id s = (.ok (), s) := by
  have swept : ∀ kinds : List EntityKind, (∀ kind ∈ kinds, kind ≠ .plan) →
      Change.each (a.sweepKind id) kinds s = (.ok (), s) := by
    intro kinds children
    induction kinds with
    | nil => rfl
    | cons kind rest inductionHypothesis =>
      have ⟨isChild, restChildren⟩ := List.forall_mem_cons.mp children
      have looked : Change.looking (a.childrenOfKind id kind) s = (.ok [], s) := by
        rw [Change.looking, childrenOfKind_of_unmarked isChild unmarked]
      have one : a.sweepKind id kind s = (.ok (), s) := by
        rw [sweepKind, Change.bind_of_ok looked]
        rfl
      rw [Change.each, Change.bind_of_ok one]
      exact inductionHypothesis restChildren
  rw [delete_eq_sweep notNil missing]
  exact swept _ fun _ => mem_sweptKinds.mp

/-- The nil identifier is refused with nothing done. -/
theorem delete_of_nil {s : MemoryStore} (isNil : id.isNil = true) :
    a.delete id s = (.error (.validation (.nilId .plan)), s) := by
  have rejected : Change.looking (fun _ : MemoryStore => rejectNil .plan id) s =
      (.error (.validation (.nilId .plan)), s) := by
    simp [Change.looking, rejectNil, isNil]
  rw [delete, Change.bind_of_error rejected]

end Archive

end PlanArchive
