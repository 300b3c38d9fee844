import Mathlib.Data.List.Induction
import PlanArchive.Proofs.Archive.Keeping

/-!
# Histories of the archive

A history is a list of calls from the empty store, each with the number of its writes that the
store lets through before it fails. `WellKept` is what all of them keep while deletions are not cut
short: every plan that is stored is stored with its complete tree. It holds after every call and
between any two writes of a creation (`trees_complete`).
-/

namespace PlanArchive

/-- A call that may write to the store. -/
inductive Call where
  | create (p : Plan)
  | update (e : Entity)
  | delete (id : Uuid)

/-- A call with the number of its writes that are let through; `none` lets all of them through. -/
structure Turn where
  call : Call
  writesLeft : Option Nat

/-- The store with another number of writes that are let through. -/
def MemoryStore.allowing (s : MemoryStore) (count : Option Nat) : MemoryStore :=
  { s with writesLeft := count }

@[simp] theorem MemoryStore.contents_allowing (s : MemoryStore) (count : Option Nat) :
    (s.allowing count).contents = s.contents := rfl

namespace Archive

/-- The store after a call. -/
def perform (a : Archive) (s : MemoryStore) : Call → MemoryStore
  | .create p => (a.create p s).store
  | .update e => (a.update e s).store
  | .delete id => (a.delete id s).2

/-- The store after a call for which some number of writes is let through. -/
def turn (a : Archive) (s : MemoryStore) (t : Turn) : MemoryStore :=
  a.perform (s.allowing t.writesLeft) t.call

/-- The store after calls that begin with an empty one. -/
def history (a : Archive) (turns : List Turn) : MemoryStore := turns.foldl a.turn .empty

/-- The store when a creation has gone through at most some number of its documents. -/
def partway (a : Archive) (p : Plan) (count : Nat) (s : MemoryStore) : MemoryStore :=
  match a.validated p, a.hasPlan p.id s with
  | .ok documents, .ok false => (a.commit p.id (documents.take count) s).store
  | _, _ => s

variable {a : Archive} {c d : Contents} {p : Plan} {s : MemoryStore} {id : Uuid}
  {docs : List PendingDocument} {written : List WrittenDocument}

@[simp] theorem history_append_singleton (turns : List Turn) (t : Turn) :
    a.history (turns ++ [t]) = a.turn (a.history turns) t := by
  simp [history]

/-! ## Within a creation -/

/-- The store that a creation comes to is one of those on the way. -/
theorem exists_partway_eq (p : Plan) (s : MemoryStore) :
    ∃ count, a.partway p count s = (a.create p s).store := by
  unfold create partway
  cases a.validated p with
  | error e => exact ⟨0, rfl⟩
  | ok documents =>
    cases a.hasPlan p.id s with
    | error e => exact ⟨0, rfl⟩
    | ok stored =>
      cases stored with
      | true => exact ⟨0, rfl⟩
      | false => exact ⟨documents.length, by simp⟩

/-- On the way through a creation nothing was done, or a prefix of the documents of a plan that was
not stored was written. -/
theorem partway_cases (p : Plan) (count : Nat) (s : MemoryStore) :
    a.partway p count s = s ∨ ∃ docs written, a.validated p = .ok docs ∧
      a.Gone s.contents (.plan, p.id) ∧ written.map Prod.fst <+: docs ∧
      a.Writes p.id s.contents written (a.partway p count s).contents := by
  unfold partway
  split
  · rename_i documents valid absent
    obtain ⟨written, writes, _, isPrefix, _⟩ :=
      a.commit_writes p.id (documents.take count) s
    rw [hasPlan_eq] at absent
    have missing : s.contents.find? (a.key .plan p.id) = none :=
      Option.isNone_iff_eq_none.mp (by simpa using absent)
    exact .inr ⟨documents, written, valid, missing, isPrefix.trans (List.take_prefix _ _), writes⟩
  · exact .inl rfl

theorem create_writes (p : Plan) (s : MemoryStore) :
    (a.create p s).store = s ∨ ∃ docs written, a.validated p = .ok docs ∧
      a.Gone s.contents (.plan, p.id) ∧ written.map Prod.fst <+: docs ∧
      a.Writes p.id s.contents written (a.create p s).store.contents := by
  obtain ⟨count, reached⟩ := exists_partway_eq (a := a) p s
  rw [← reached]
  exact partway_cases p count s

/-! ## Complete trees -/

/-- Every plan that is stored is stored with its complete tree. -/
structure WellKept (a : Archive) (c : Contents) : Prop where
  laidOut : a.LaidOut c
  complete : ∀ id, ¬ a.Gone c (.plan, id) → a.CompleteTree c id

theorem wellKept_empty (a : Archive) : a.WellKept .empty where
  laidOut := by
    intro e item stored
    cases stored
  complete := by
    intro id stored
    exact absurd rfl stored

theorem WellKept.ownTree (kept : a.WellKept c) (id : Uuid) : a.OwnTree c id := by
  by_cases gone : a.Gone c (.plan, id)
  · exact ownTree_of_gone gone
  · exact (kept.complete id gone).ownTree

/-- The only plan that writing the documents of a plan can store is the plan itself. -/
theorem Writes.find?_of_other_plan (valid : a.validated p = .ok docs)
    (writes : a.Writes p.id c written d) (isPrefix : written.map Prod.fst <+: docs)
    (other : id ≠ p.id) : d.find? (a.key .plan id) = c.find? (a.key .plan id) := by
  apply writes.find?_of_notMem valid isPrefix (e := (.plan, id))
  intro isEntity
  exact other (Plan.eq_id_of_mem_entities isEntity)

/-- The documents of a creation that were written are laid out for the plan. -/
theorem laidOutFor_of_isPrefix (valid : a.validated p = .ok docs)
    (isPrefix : written.map Prod.fst <+: docs) : ∀ w ∈ written, w.1.LaidOutFor p.id := by
  intro w member
  exact laidOutFor_of_validated valid (isPrefix.subset (List.mem_map.mpr ⟨w, member, rfl⟩))

theorem WellKept.writes (kept : a.WellKept c) (valid : a.validated p = .ok docs)
    (writes : a.Writes p.id c written d) (isPrefix : written.map Prod.fst <+: docs)
    (absent : a.Gone c (.plan, p.id)) : a.WellKept d := by
  have documents := laidOutFor_of_isPrefix valid isPrefix
  refine ⟨(writes.keeps_others kept.laidOut documents).1, ?_⟩
  intro id stored
  by_cases own : id = p.id
  · subst own
    exact writes.complete valid (writes.all_of_stored valid isPrefix absent stored)
  · rw [Gone, writes.find?_of_other_plan valid isPrefix own] at stored
    have complete := kept.complete id stored
    exact (writes.keeps_tree kept.laidOut documents own complete).complete complete

theorem WellKept.partway (kept : a.WellKept s.contents) (p : Plan) (count : Nat) :
    a.WellKept (a.partway p count s).contents := by
  rcases partway_cases p count s with same | ⟨docs, written, valid, absent, isPrefix, writes⟩
  · rw [same]
    exact kept
  · exact kept.writes valid writes isPrefix absent

theorem WellKept.create (kept : a.WellKept s.contents) (p : Plan) :
    a.WellKept (a.create p s).store.contents := by
  obtain ⟨count, reached⟩ := exists_partway_eq (a := a) p s
  rw [← reached]
  exact kept.partway p count

theorem WellKept.update (kept : a.WellKept s.contents) (e : Entity) :
    a.WellKept (a.update e s).store.contents := by
  obtain ⟨laidOut, same⟩ := a.update_keeps e s kept.laidOut
  refine ⟨laidOut, ?_⟩
  intro id stored
  rw [laidOut.gone_iff, same, ← kept.laidOut.gone_iff] at stored
  exact (kept.complete id stored).congr fun f _ => same f

theorem WellKept.delete (kept : a.WellKept s.contents) (faultless : s.Faultless) (id : Uuid) :
    a.WellKept (a.delete id s).2.contents := by
  cases isNil : id.isNil with
  | true =>
    rw [delete_of_nil isNil]
    exact kept
  | false =>
    have within := delete_within id kept.laidOut
    refine ⟨kept.laidOut.within within, ?_⟩
    intro other stored
    have wasStored : ¬ a.Gone s.contents (.plan, other) :=
      fun gone => stored (within.find?_eq_none gone)
    have different : other ≠ id := by
      rintro rfl
      exact stored (delete_all kept.laidOut (delete_succeeds kept.laidOut isNil faultless)).1
    have complete := kept.complete other wasStored
    exact (delete_keeps_tree kept.laidOut (kept.ownTree id) different complete).complete complete

/-- Deletions run without faults. -/
def DeletesFaultless (turns : List Turn) : Prop :=
  ∀ id budget, ⟨.delete id, budget⟩ ∈ turns → budget = none

theorem deletesFaultless_append {first second : List Turn} :
    DeletesFaultless (first ++ second) ↔ DeletesFaultless first ∧ DeletesFaultless second := by
  constructor
  · intro faultless
    exact ⟨fun id budget member => faultless id budget (List.mem_append_left _ member),
      fun id budget member => faultless id budget (List.mem_append_right _ member)⟩
  · intro ⟨inFirst, inSecond⟩ id budget member
    rcases List.mem_append.mp member with isFirst | isSecond
    · exact inFirst id budget isFirst
    · exact inSecond id budget isSecond

theorem WellKept.turn (kept : a.WellKept s.contents) {t : Turn} (faultless : DeletesFaultless [t]) :
    a.WellKept (a.turn s t).contents := by
  rw [← s.contents_allowing t.writesLeft] at kept
  obtain ⟨call, budget⟩ := t
  cases call with
  | create p => exact kept.create p
  | update e => exact kept.update e
  | delete id => exact kept.delete (faultless id budget List.mem_cons_self) id

theorem wellKept_history {turns : List Turn} (faultless : DeletesFaultless turns) :
    a.WellKept (a.history turns).contents := by
  induction turns using List.reverseRecOn with
  | nil => exact a.wellKept_empty
  | append_singleton earlier t inductionHypothesis =>
    rw [history_append_singleton]
    obtain ⟨before, last⟩ := deletesFaultless_append.mp faultless
    exact (inductionHypothesis before).turn last

/-- Whatever creations and updates are cut short, every plan that is stored is stored with its
complete tree, after every call and between any two writes of a creation, as long as deletions run
without faults. -/
theorem trees_complete (turns : List Turn) (faultless : DeletesFaultless turns) :
    a.WellKept (a.history turns).contents ∧
      ∀ p count budget,
        a.WellKept (a.partway p count ((a.history turns).allowing budget)).contents := by
  have kept : a.WellKept (a.history turns).contents := wellKept_history faultless
  refine ⟨kept, ?_⟩
  intro p count budget
  have allowed : a.WellKept ((a.history turns).allowing budget).contents := kept
  exact allowed.partway p count

/-- Creations that are cut short, what is left of one of them deleted, and a creation that comes to
its end, with an update of the plan. -/
def demoTurns : List Turn :=
  [⟨.create demoPlan, some 2⟩, ⟨.delete demoPlan.id, none⟩, ⟨.create demoPlan, some 3⟩,
    ⟨.create demoPlan, none⟩, ⟨.update (.plan demoPlan), none⟩]

theorem trees_complete_demoTurns :
    DeletesFaultless demoTurns ∧
      ¬ demo.Gone (demo.history demoTurns).contents (.plan, demoPlan.id) ∧
      demo.WellKept (demo.history demoTurns).contents ∧
      ∀ p count budget, demo.WellKept
        (demo.partway p count ((demo.history demoTurns).allowing budget)).contents := by
  have faultless : DeletesFaultless demoTurns := by simp [DeletesFaultless, demoTurns]
  have stored : ((demo.history demoTurns).contents.find?
      (demo.key .plan demoPlan.id)).isSome = true := by decide +kernel
  refine ⟨faultless, ?_, trees_complete demoTurns faultless⟩
  intro gone
  rw [show _ = none from gone] at stored
  cases stored

end Archive

end PlanArchive
