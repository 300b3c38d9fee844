import PlanArchive.Proofs.Archive.Sweep

/-!
# What a deletion removes

`Doomed` joins the two ways in which plans are deleted: below a plan that is stored everything is
doomed, and of a plan that is not stored the children that name it. A deletion removes doomed
documents only (`delete_only`); one that succeeds removes all of them (`delete_all`); one that fails
leaves the document of the plan (`delete_fails_keeping`); and without faults it succeeds
(`delete_succeeds`).
-/

namespace PlanArchive

namespace Archive

variable {a : Archive} {c d : Contents} {e : EntityRef} {id : Uuid} {s : MemoryStore}

/-- The documents that the deletion of a plan is about. -/
def Doomed (a : Archive) (c : Contents) (id : Uuid) (e : EntityRef) : Prop :=
  ¬ a.Gone c (.plan, id) ∧ a.Below c (.plan, id) e ∨ a.Gone c (.plan, id) ∧ a.Names c id e

theorem LaidOut.within (laidOut : a.LaidOut c) (within : d.Within c) : a.LaidOut d := by
  intro e item stored
  rcases within (a.key e.1 e.2) with same | gone
  · exact laidOut e item (same ▸ stored)
  · cases gone.symm.trans stored

/-- Whatever becomes of a deletion, every document is as it was, or doomed and gone. -/
theorem delete_only (id : Uuid) (laidOut : a.LaidOut s.contents) :
    a.OnlyGone s.contents (a.Doomed s.contents id) (a.delete id s).2.contents := by
  cases isNil : id.isNil with
  | true =>
    rw [delete_of_nil isNil]
    exact fun _ => .inl rfl
  | false =>
    by_cases missing : a.Gone s.contents (.plan, id)
    · intro key
      rcases (delete_of_missing laidOut isNil missing).safe key with same | ⟨gone, e, names, isKey⟩
      · exact .inl same
      · exact .inr ⟨gone, e, .inr ⟨missing, names⟩, isKey⟩
    · intro key
      rcases (delete_of_stored laidOut isNil missing).safe.only key with
        same | ⟨gone, e, below, isKey⟩
      · exact .inl same
      · exact .inr ⟨gone, e, .inl ⟨missing, below⟩, isKey⟩

theorem delete_within (id : Uuid) (laidOut : a.LaidOut s.contents) :
    (a.delete id s).2.contents.Within s.contents :=
  fun key => (delete_only id laidOut key).imp_right And.left

/-- A deletion that succeeds leaves neither the plan nor a doomed document. -/
theorem delete_all (laidOut : a.LaidOut s.contents) (succeeded : (a.delete id s).1 = .ok ()) :
    a.Gone (a.delete id s).2.contents (.plan, id) ∧
      ∀ e, a.Doomed s.contents id e → a.Gone (a.delete id s).2.contents e := by
  cases isNil : id.isNil with
  | true =>
    rw [delete_of_nil isNil] at succeeded
    cases succeeded
  | false =>
    by_cases missing : a.Gone s.contents (.plan, id)
    · have removal := delete_of_missing laidOut isNil missing
      refine ⟨removal.within.find?_eq_none missing, ?_⟩
      intro e doomed
      rcases doomed with ⟨stored, _⟩ | ⟨_, names⟩
      · exact absurd missing stored
      · exact removal.kept () succeeded e names
    · have removal := delete_of_stored laidOut isNil missing
      have gone := removal.kept () succeeded
      refine ⟨gone, ?_⟩
      intro e doomed
      rcases doomed with ⟨_, below⟩ | ⟨absent, _⟩
      · exact removal.safe.below_gone gone below
      · exact absurd absent missing

/-- Without faults the deletion of a plan succeeds, whether it is stored or not. -/
theorem delete_succeeds (laidOut : a.LaidOut s.contents) (notNil : id.isNil = false)
    (faultless : s.Faultless) : (a.delete id s).1 = .ok () := by
  by_cases missing : a.Gone s.contents (.plan, id)
  · obtain ⟨_, _, succeeded⟩ := (delete_of_missing laidOut notNil missing).total faultless
    exact succeeded
  · obtain ⟨_, _, succeeded⟩ := (delete_of_stored laidOut notNil missing).total faultless
    exact succeeded

/-! ## The documents of plans -/

section

variable {key : DocumentKey}

theorem keeps_remove_child {kind : EntityKind} {x : Uuid} (ofPlan : key.collection = .plans)
    (isChild : kind ≠ .plan) : Keeps key (a.remove kind x none) := by
  apply Keeps.remove
  rintro rfl
  exact isChild (EntityKind.collection_eq_plans.mp ofPlan)

theorem keeps_deleteSlots (ofPlan : key.collection = .plans) (kind : EntityKind) (x : Uuid)
    (refs : CheckRefs) : Keeps key (a.deleteSlots kind x refs) := by
  refine (Keeps.looking _).bind fun ids => .each fun y _ => (Keeps.looking _).bind fun found => ?_
  cases found with
  | none => exact .done ()
  | some d =>
    exact (Keeps.each fun z _ => keeps_remove_child ofPlan (by decide)).bind
      fun _ => keeps_remove_child ofPlan (by decide)

theorem keeps_deleteBlock (ofPlan : key.collection = .plans) (x : Uuid) :
    Keeps key (a.deleteBlock x) := by
  refine (Keeps.looking _).bind fun found => ?_
  cases found with
  | none => exact .done ()
  | some d =>
    refine (keeps_deleteSlots ofPlan .block x d.1.checks).bind fun _ => ?_
    refine (Keeps.collect fun y _ => Keeps.looking _).bind fun sequences => ?_
    refine (Keeps.each fun v _ => .each fun z _ => keeps_remove_child ofPlan (by decide)).bind
      fun _ => ?_
    exact (Keeps.each fun v _ => keeps_remove_child ofPlan (by decide)).bind
      fun _ => keeps_remove_child ofPlan (by decide)

theorem keeps_sweep (ofPlan : key.collection = .plans) (planId : Uuid) :
    Keeps key (a.sweep planId) := by
  refine .each fun kind isSwept => (Keeps.looking _).bind fun items => .each fun item _ => ?_
  rw [removeItem]
  split
  · exact keeps_remove_child ofPlan (mem_sweptKinds.mp isSwept)
  · exact .done ()

/-- A deletion leaves every document of a plan as it was, or clears its place and succeeds,
whatever the store holds: the document of the plan is the last to go. -/
theorem delete_keepsOrClears (ofPlan : key.collection = .plans) (id : Uuid) :
    KeepsOrClears key (a.delete id : Change MemoryStore Unit) := by
  refine .bind (Keeps.looking _) fun _ => .bind (Keeps.looking _) fun found => ?_
  cases found with
  | none => exact (keeps_sweep ofPlan id).orClears
  | some d =>
    refine .bind (Keeps.each fun x _ => keeps_deleteBlock ofPlan x) fun _ => ?_
    exact .bind (keeps_deleteSlots ofPlan .plan id d.1.checks) fun _ => .remove

/-- A deletion that fails leaves the document of the plan as it was. -/
theorem delete_fails_keeping (a : Archive) (id : Uuid) (s t : MemoryStore) (e : ArchiveError)
    (failed : a.delete id s = (.error e, t)) :
    t.contents.find? (a.key .plan id) = s.contents.find? (a.key .plan id) := by
  have outcome : KeepsOrClears (a.key .plan id) (a.delete id : Change MemoryStore Unit) :=
    delete_keepsOrClears rfl id
  have kept := outcome s
  rw [failed] at kept
  rcases kept with same | ⟨⟨_, succeeded⟩, _⟩
  · exact same
  · cases succeeded

end

end Archive

end PlanArchive
