import PlanArchive.Proofs.Archive.History
import PlanArchive.Proofs.Archive.ReadFrame

/-!
# Whose documents a deletion removes

The walk of a deletion does not ask the documents that it removes which plan they belong to. It
spares the documents of other plans exactly when every document below the deleted plan names it
(`spares_iff_ownTree`). A deletion that was cut short can break that: the plan still refers to
documents that are gone, and another plan may be created with documents of the same identifiers,
which the next deletion removes (`delete_removes_other`). It never happens to plans that have no
entity in common (`ownTree_of_unshared`), and as long as every deletion begins with a tree of its
own, a plan that was created is read the same for ever (`deletion_spares_others`).
-/

namespace PlanArchive

theorem Document.owner_of_plan {d : Document} (isPlan : d.kind = .plan) :
    d.node.owner = d.node.id := by
  cases d <;> first | rfl | cases isPlan

namespace Archive

variable {a : Archive} {c d : Contents} {p : Plan} {s : MemoryStore} {id : Uuid} {e : EntityRef}

/-! ## One deletion -/

/-- Deleting a plan removes and changes no document but those of the plan and of the children that
name it. -/
def Spares (a : Archive) (id : Uuid) (s : MemoryStore) : Prop :=
  ∀ key, (∀ e, key = a.key e.1 e.2 → e ≠ (.plan, id) ∧ ¬ a.Names s.contents id e) →
    (a.delete id s).2.contents.find? key = s.contents.find? key

theorem LaidOut.plan_owner {n : Node} (laidOut : a.LaidOut c)
    (isNode : a.node? c (.plan, id) = some n) : n.owner = id := by
  obtain ⟨item, stored⟩ := Option.ne_none_iff_exists'.mp (stored_of_node? isNode)
  obtain ⟨doc, isDocument, isEntity, _⟩ := laidOut (.plan, id) item stored
  rw [node?_of_find? stored isDocument isEntity] at isNode
  rw [← Option.some.inj isNode, Document.owner_of_plan (congrArg Prod.fst isEntity)]
  exact congrArg Prod.snd isEntity

theorem spares_of_ownTree (laidOut : a.LaidOut s.contents) (own : a.OwnTree s.contents id) :
    a.Spares id s := by
  intro key foreign
  rcases delete_only id laidOut key with same | ⟨gone, e, doomed, rfl⟩
  · exact same
  · obtain ⟨different, notNamed⟩ := foreign e rfl
    rw [gone]
    cases isNode : a.node? s.contents e with
    | none => exact (laidOut.gone_iff.mpr isNode).symm
    | some n =>
      exfalso
      have owned : n.owner = id := doomed.owner own isNode
      obtain ⟨kind, x⟩ := e
      by_cases isPlan : kind = .plan
      · subst isPlan
        rw [laidOut.plan_owner isNode] at owned
        exact different (owned ▸ rfl)
      · exact notNamed ⟨isPlan, n, isNode, owned⟩

/-- A deletion that is not cut short removes whatever is below the plan. -/
theorem ownTree_of_spares (laidOut : a.LaidOut s.contents) (faultless : s.Faultless)
    (spares : a.Spares id s) : a.OwnTree s.contents id := by
  by_cases absent : a.Gone s.contents (.plan, id)
  · exact ownTree_of_gone absent
  · intro e n below isNode
    have succeeded := delete_succeeds laidOut (laidOut.notNil absent) faultless
    have gone : a.Gone (a.delete id s).2.contents e :=
      (delete_all laidOut succeeded).2 e (.inl ⟨absent, below⟩)
    by_cases foreign : e ≠ (.plan, id) ∧ ¬ a.Names s.contents id e
    · exfalso
      have same := spares (a.key e.1 e.2) fun f isKey => key_injective isKey ▸ foreign
      exact stored_of_node? isNode (same.symm.trans gone)
    · rcases Classical.not_and_iff_not_or_not.mp foreign with isPlan | isNamed
      · rw [Classical.not_not.mp isPlan] at isNode
        exact laidOut.plan_owner isNode
      · obtain ⟨_, m, isAlso, named⟩ := Classical.not_not.mp isNamed
        rw [← named, Option.some.inj (isAlso.symm.trans isNode)]

/-- However it is cut short, the deletion of a plan spares the documents of other plans exactly when
every document below the plan names it. -/
theorem spares_iff_ownTree (laidOut : a.LaidOut s.contents) :
    (∀ budget, a.Spares id (s.allowing budget)) ↔ a.OwnTree s.contents id := by
  constructor
  · intro spares
    exact ownTree_of_spares (s := s.allowing none) laidOut rfl (spares none)
  · intro own budget
    exact spares_of_ownTree (s := s.allowing budget) laidOut own

/-! ## Runs of calls -/

/-- What may be called while a plan is to be kept: creations, and deletions of other plans below
which every document names them. -/
def Permits (a : Archive) (kept : Uuid) (c : Contents) : Call → Prop
  | .create _ => True
  | .update _ => False
  | .delete id => id ≠ kept ∧ a.OwnTree c id

/-- Calls of which each may be made when it is. -/
def Careful (a : Archive) (kept : Uuid) : MemoryStore → List Turn → Prop
  | _, [] => True
  | s, t :: rest => a.Permits kept s.contents t.call ∧ Careful a kept (a.turn s t) rest

theorem LaidOut.turn (laidOut : a.LaidOut s.contents) (t : Turn) :
    a.LaidOut (a.turn s t).contents := by
  rw [← s.contents_allowing t.writesLeft] at laidOut
  obtain ⟨call, budget⟩ := t
  cases call with
  | create p =>
    rcases create_writes (a := a) p (s.allowing budget) with
      same | ⟨docs, written, valid, _, isPrefix, writes⟩
    · rw [Archive.turn, perform, same]
      exact laidOut
    · exact (writes.keeps_others laidOut (laidOutFor_of_isPrefix valid isPrefix)).1
  | update entity => exact (a.update_keeps entity _ laidOut).1
  | delete id => exact laidOut.within (delete_within id laidOut)

theorem laidOut_history (a : Archive) (turns : List Turn) :
    a.LaidOut (a.history turns).contents := by
  induction turns using List.reverseRecOn with
  | nil => exact a.wellKept_empty.laidOut
  | append_singleton earlier t inductionHypothesis =>
    rw [history_append_singleton]
    exact inductionHypothesis.turn t

/-- A call that may be made leaves the complete tree of the plan as it is. -/
theorem sameBelow_turn {t : Turn} (laidOut : a.LaidOut s.contents)
    (complete : a.CompleteTree s.contents id) (permitted : a.Permits id s.contents t.call) :
    a.SameBelow s.contents (a.turn s t).contents (.plan, id) := by
  obtain ⟨call, budget⟩ := t
  rw [← s.contents_allowing budget] at laidOut complete permitted
  cases call with
  | create p =>
    rcases create_writes (a := a) p (s.allowing budget) with
      same | ⟨docs, written, valid, absent, isPrefix, writes⟩
    · intro e _
      rw [turn, perform, same]
      rfl
    · have other : id ≠ p.id := by
        rintro rfl
        obtain ⟨n, isNode, _⟩ := complete.present _ .root
        exact stored_of_node? isNode absent
      exact writes.keeps_tree laidOut (laidOutFor_of_isPrefix valid isPrefix) other complete
  | update entity => exact permitted.elim
  | delete other =>
    exact delete_keeps_tree laidOut permitted.2 permitted.1.symm complete

/-- Calls that may be made leave the complete tree of the plan as it is. -/
theorem sameBelow_turns {turns : List Turn} (laidOut : a.LaidOut s.contents)
    (complete : a.CompleteTree s.contents id) (careful : a.Careful id s turns) :
    a.SameBelow s.contents (turns.foldl a.turn s).contents (.plan, id) := by
  induction turns generalizing s with
  | nil => exact fun _ _ => rfl
  | cons t rest inductionHypothesis =>
    have first := sameBelow_turn laidOut complete careful.1
    exact first.trans (inductionHypothesis (laidOut.turn t) (first.complete complete) careful.2)

/-- A plan whose creation succeeds is stored with its complete tree, whatever was in the store. -/
theorem complete_of_create (created : (a.create p s).result = .ok ()) :
    a.CompleteTree (a.create p s).store.contents p.id := by
  obtain ⟨docs, written, valid, _, writes, all, _⟩ := create_ok created
  exact writes.complete valid all

/-! ## Plans without common entities -/

/-- A plan with an identifier was to be created with an entity. -/
def Uses (turns : List Turn) (id : Uuid) (e : EntityRef) : Prop :=
  ∃ p budget, ⟨.create p, budget⟩ ∈ turns ∧ p.id = id ∧ e ∈ p.entities

/-- No two plans have an entity in common. Creations of the same plan may. -/
def Unshared (turns : List Turn) : Prop :=
  ∀ first second e, Uses turns first e → Uses turns second e → first = second

/-- Documents and what they refer to are entities of plans that were to be created. -/
def UsedBy (a : Archive) (turns : List Turn) (c : Contents) : Prop :=
  ∀ e n, a.node? c e = some n → Uses turns n.owner e ∧ ∀ f ∈ n.children, Uses turns n.owner f

theorem UsedBy.mono {turns more : List Turn} (used : a.UsedBy turns c) (sub : turns ⊆ more) :
    a.UsedBy more c := by
  have grows : ∀ id e, Uses turns id e → Uses more id e := by
    rintro id e ⟨p, budget, member, isPlan, isEntity⟩
    exact ⟨p, budget, sub member, isPlan, isEntity⟩
  intro e n isNode
  obtain ⟨own, children⟩ := used e n isNode
  exact ⟨grows _ _ own, fun f refers => grows _ _ (children f refers)⟩

theorem UsedBy.writes {turns : List Turn} {budget : Option Nat} {docs : List PendingDocument}
    {written : List WrittenDocument} (used : a.UsedBy turns c)
    (member : ⟨.create p, budget⟩ ∈ turns) (valid : a.validated p = .ok docs)
    (isPrefix : written.map Prod.fst <+: docs) (writes : a.Writes p.id c written d) :
    a.UsedBy turns d := by
  intro e n isNode
  rcases writes.node?_cases (laidOutFor_of_isPrefix valid isPrefix) isNode with
    earlier | ⟨owned, w, isWritten, rfl, children⟩
  · exact used e n earlier
  · have isDocument : w.1 ∈ docs := isPrefix.subset (List.mem_map.mpr ⟨w, isWritten, rfl⟩)
    refine ⟨⟨p, budget, member, owned.symm, entity_mem_of_validated valid isDocument⟩, ?_⟩
    intro f refers
    rw [← children] at refers
    exact ⟨p, budget, member, owned.symm, mem_entities_of_children valid isDocument refers⟩

theorem UsedBy.within {turns : List Turn} (used : a.UsedBy turns c)
    (within : d.Within c) : a.UsedBy turns d := by
  intro e n isNode
  rcases within (a.key e.1 e.2) with same | gone
  · rw [node?_congr same] at isNode
    exact used e n isNode
  · exact absurd gone (stored_of_node? isNode)

theorem usedBy_history (a : Archive) (turns : List Turn) :
    a.UsedBy turns (a.history turns).contents := by
  induction turns using List.reverseRecOn with
  | nil =>
    intro e n isNode
    cases isNode
  | append_singleton earlier t inductionHypothesis =>
    have used := inductionHypothesis.mono (List.subset_append_left earlier [t])
    have laidOut := a.laidOut_history earlier
    rw [history_append_singleton]
    obtain ⟨call, budget⟩ := t
    cases call with
    | create p =>
      rcases create_writes (a := a) p ((a.history earlier).allowing budget) with
        same | ⟨docs, written, valid, _, isPrefix, writes⟩
      · rw [turn, perform, same]
        exact used
      · exact used.writes (List.mem_append_right _ List.mem_cons_self) valid isPrefix writes
    | update entity =>
      intro e n isNode
      have keeps := a.update_keeps entity ((a.history earlier).allowing budget) laidOut
      exact used e n ((keeps.2 e).symm.trans isNode)
    | delete id =>
      exact used.within (delete_within id (s := (a.history earlier).allowing budget) laidOut)

/-- When no two plans have an entity in common, every document below a plan names it, and the
deletion of the plan spares the documents of all other plans, however calls are cut short. -/
theorem ownTree_of_unshared {turns : List Turn} (unshared : Unshared turns) (id : Uuid) :
    a.OwnTree (a.history turns).contents id := by
  have used := a.usedBy_history turns
  intro e n below isNode
  induction below generalizing n with
  | root => exact (a.laidOut_history turns).plan_owner isNode
  | @child parent child m _ stored refers inductionHypothesis =>
    have owned : m.owner = id := inductionHypothesis m stored
    have ofPlan : Uses turns id child := owned ▸ (used parent m stored).2 child refers
    exact unshared n.owner id child (used child n isNode).1 ofPlan

/-! ## Every history -/

/-- Whatever calls were made and however they were cut short, the deletion of a plan spares all
documents of other plans exactly when every document below the plan names it; and a plan whose
creation succeeded is read the same after all further creations and deletions of other plans, cut
short or not, as long as each deletion begins with that. -/
theorem deletion_spares_others (turns : List Turn) :
    (∀ id, (∀ budget, a.Spares id ((a.history turns).allowing budget)) ↔
      a.OwnTree (a.history turns).contents id) ∧
    ∀ p budget later, (a.create p ((a.history turns).allowing budget)).result = .ok () →
      a.Careful p.id (a.history (turns ++ [⟨.create p, budget⟩])) later →
      a.read (a.history (turns ++ ⟨.create p, budget⟩ :: later)) p.id =
        a.read (a.history (turns ++ [⟨.create p, budget⟩])) p.id := by
  constructor
  · intro id
    exact spares_iff_ownTree (a.laidOut_history turns)
  · intro p budget later created careful
    have split : a.history (turns ++ ⟨.create p, budget⟩ :: later) =
        later.foldl a.turn (a.history (turns ++ [⟨.create p, budget⟩])) := by
      simp [history]
    have complete : a.CompleteTree
        (a.history (turns ++ [⟨.create p, budget⟩])).contents p.id := by
      rw [history_append_singleton]
      exact complete_of_create created
    rw [split]
    exact read_congr (sameBelow_turns (a.laidOut_history _) complete careful)

/-- A plan whose only children are checks with actions. -/
def actionPlan (id checks : Uuid) (actions : List Uuid) : Plan :=
  let action (id : Uuid) : Action :=
    ⟨id, none, "", "", "shell", .zero, 0, none, [], .initial⟩
  { demoPlan with
    id := id
    checks := { Slots.fill none with
      pre := some ⟨checks, none, .zero, actions.map action, .initial⟩ }
    blocks := [] }

/-- A plan with two actions. -/
def original : Plan := actionPlan (numbered 1) (numbered 2) [numbered 3, numbered 4]

/-- The plan is created, and the first of its actions is removed by a deletion that is cut short. -/
def halfDeleted : List Turn := [⟨.create original, none⟩, ⟨.delete original.id, some 1⟩]

/-- Another plan with other entities. -/
def bystander : Plan := actionPlan (numbered 5) (numbered 6) [numbered 7]

/-- Another plan that takes the identifier of the action that was removed. -/
def heir : Plan := actionPlan (numbered 5) (numbered 6) [numbered 3]

theorem unshared_bystander (later : List Turn) (deletions : ∀ t ∈ later, ∀ p, t.call ≠ .create p) :
    Unshared (halfDeleted ++ ⟨.create bystander, none⟩ :: later) := by
  have oneOf : ∀ p budget, ⟨.create p, budget⟩ ∈ halfDeleted ++ ⟨.create bystander, none⟩ :: later →
      p = original ∨ p = bystander := by
    intro p budget member
    simp only [halfDeleted, List.cons_append, List.nil_append, List.mem_cons, Turn.mk.injEq,
      Call.create.injEq, reduceCtorEq, false_and, false_or] at member
    rcases member with ⟨rfl, _⟩ | ⟨rfl, _⟩ | isLater
    · exact .inl rfl
    · exact .inr rfl
    · exact absurd rfl (deletions _ isLater p)
  have apart : ∀ e ∈ original.entities, e ∉ bystander.entities := by decide
  rintro _ _ e ⟨p, _, isFirst, rfl, ofFirst⟩ ⟨q, _, isSecond, rfl, ofSecond⟩
  rcases oneOf p _ isFirst with rfl | rfl <;> rcases oneOf q _ isSecond with rfl | rfl
  · rfl
  · exact absurd ofSecond (apart e ofFirst)
  · exact absurd ofFirst (apart e ofSecond)
  · rfl

theorem deletion_spares_others_bystander :
    (∀ id, (∀ budget, demo.Spares id ((demo.history halfDeleted).allowing budget)) ↔
      demo.OwnTree (demo.history halfDeleted).contents id) ∧
    demo.read (demo.history (halfDeleted ++ [⟨.create bystander, none⟩,
        ⟨.delete original.id, some 1⟩, ⟨.delete original.id, none⟩])) bystander.id =
      demo.read (demo.history (halfDeleted ++ [⟨.create bystander, none⟩])) bystander.id := by
  have isOk : (demo.create bystander ((demo.history halfDeleted).allowing none)).result.isOk =
      true := by decide +kernel
  have created :
      (demo.create bystander ((demo.history halfDeleted).allowing none)).result = .ok () := by
    cases result : (demo.create bystander ((demo.history halfDeleted).allowing none)).result with
    | error e =>
      rw [result] at isOk
      cases isOk
    | ok _ => rfl
  have first := ownTree_of_unshared (a := demo) (unshared_bystander [] (by simp)) original.id
  have second := ownTree_of_unshared (a := demo)
    (unshared_bystander [⟨.delete original.id, some 1⟩] (by simp)) original.id
  have different : original.id ≠ bystander.id := by decide
  obtain ⟨spares, reads⟩ := deletion_spares_others (a := demo) halfDeleted
  refine ⟨spares, reads bystander none _ created ?_⟩
  simp only [Careful, Permits, and_true]
  refine ⟨⟨different, first⟩, different, ?_⟩
  rw [← history_append_singleton, List.append_assoc]
  exact second

/-- The child of the other plan names that plan, and is removed all the same; the other plan can no
longer be read. -/
theorem delete_removes_other :
    (demo.node? (demo.history (halfDeleted ++ [⟨.create heir, none⟩])).contents
      (.action, numbered 3)).map Node.owner = some heir.id ∧
    (demo.read (demo.history (halfDeleted ++ [⟨.create heir, none⟩])) heir.id).isOk = true ∧
    ((demo.delete original.id
      (demo.history (halfDeleted ++ [⟨.create heir, none⟩]))).2.contents.find?
      (demo.key .action (numbered 3))).isNone = true ∧
    (demo.read (demo.delete original.id
      (demo.history (halfDeleted ++ [⟨.create heir, none⟩]))).2 heir.id).isOk = false := by
  decide +kernel

end Archive

end PlanArchive
