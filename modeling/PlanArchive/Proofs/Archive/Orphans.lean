import PlanArchive.Proofs.Archive.History

/-!
# What a deletion leaves behind

A plan that is stored is deleted with what is below it, and the children that name it without being
below it are not looked for. Such strays come of creations only: a creation that was cut short left
them, and a later one under the same identifier stored the plan without them. `orphans_of_delete`
says that a deletion that succeeds leaves exactly these, `orphan_after_delete` that there are some.
-/

namespace PlanArchive

namespace Archive

variable {a : Archive} {c d : Contents} {p : Plan} {s : MemoryStore} {id : Uuid} {e : EntityRef}

/-- A child that names a plan that is stored, and is not below it. -/
def Stray (a : Archive) (c : Contents) (id : Uuid) (e : EntityRef) : Prop :=
  ¬ a.Gone c (.plan, id) ∧ a.Names c id e ∧ ¬ a.Below c (.plan, id) e

/-- A call stores a plan, and a child that names the plan is there and is no part of it. -/
def LeavesOut (a : Archive) (s : MemoryStore) (t : Turn) (id : Uuid) (e : EntityRef) : Prop :=
  ∃ p, t.call = .create p ∧ p.id = id ∧ a.Gone s.contents (.plan, id) ∧
    ¬ a.Gone (a.turn s t).contents (.plan, id) ∧ a.Names s.contents id e ∧ e ∉ p.entities

/-- A call of a history left a child out, and the plan was not deleted since. -/
def LeftOut (a : Archive) (turns : List Turn) (id : Uuid) (e : EntityRef) : Prop :=
  ∃ earlier t later, turns = earlier ++ t :: later ∧ a.LeavesOut (a.history earlier) t id e ∧
    ∀ u ∈ later, u.call ≠ .delete id

/-! ## Strays, call by call -/

theorem stray_congr (plan : a.Gone d (.plan, id) ↔ a.Gone c (.plan, id))
    (names : a.Names d id e ↔ a.Names c id e)
    (below : ¬ a.Gone c (.plan, id) → (a.Below d (.plan, id) e ↔ a.Below c (.plan, id) e)) :
    a.Stray d id e ↔ a.Stray c id e := by
  by_cases gone : a.Gone c (.plan, id)
  · exact ⟨fun stray => absurd (plan.mpr gone) stray.1, fun stray => absurd gone stray.1⟩
  · rw [Stray, Stray, plan, names, below gone]

/-- Creating another plan makes no strays and gathers none. -/
theorem stray_create_other (kept : a.WellKept s.contents) (other : id ≠ p.id) :
    a.Stray (a.create p s).store.contents id e ↔ a.Stray s.contents id e := by
  rcases create_writes p s with same | ⟨docs, written, valid, absent, isPrefix, writes⟩
  · rw [same]
  · have documents := laidOutFor_of_isPrefix valid isPrefix
    apply stray_congr
    · rw [Gone, Gone, writes.find?_of_other_plan valid isPrefix other]
    · exact writes.names_iff kept.laidOut documents other
    · intro stored
      exact (writes.keeps_tree kept.laidOut documents other (kept.complete id stored)).below_iff

/-- Creating a plan makes strays of the children that name it already and are no part of it. -/
theorem stray_create_own :
    a.Stray (a.create p s).store.contents p.id e ↔ a.Stray s.contents p.id e ∨
      a.Gone s.contents (.plan, p.id) ∧ ¬ a.Gone (a.create p s).store.contents (.plan, p.id) ∧
        a.Names s.contents p.id e ∧ e ∉ p.entities := by
  rcases create_writes p s with same | ⟨docs, written, valid, absent, isPrefix, writes⟩
  · rw [same]
    constructor
    · exact .inl
    · rintro (stray | ⟨gone, stored, _⟩)
      · exact stray
      · exact absurd gone stored
  · constructor
    · intro ⟨stored, names, notBelow⟩
      have all := writes.all_of_stored valid isPrefix absent stored
      rw [writes.below_iff valid all] at notBelow
      rw [Names, node?_congr (writes.find?_of_notMem valid isPrefix notBelow)] at names
      exact .inr ⟨absent, stored, names, notBelow⟩
    · rintro (⟨stored, _⟩ | ⟨_, stored, names, notPart⟩)
      · exact absurd absent stored
      · have all := writes.all_of_stored valid isPrefix absent stored
        refine ⟨stored, ?_, ?_⟩
        · rw [Names, node?_congr (writes.find?_of_notMem valid isPrefix notPart)]
          exact names
        · rw [writes.below_iff valid all]
          exact notPart

theorem stray_update (laidOut : a.LaidOut s.contents) (entity : Entity) :
    a.Stray (a.update entity s).store.contents id e ↔ a.Stray s.contents id e := by
  obtain ⟨stillLaidOut, same⟩ := a.update_keeps entity s laidOut
  apply stray_congr
  · rw [stillLaidOut.gone_iff, laidOut.gone_iff, same]
  · rw [Names, Names, same]
  · intro _
    exact Below.congr fun f _ => same f

/-- Deleting another plan makes no strays and gathers none. -/
theorem stray_delete_other {other : Uuid} (kept : a.WellKept s.contents) (different : id ≠ other) :
    a.Stray (a.delete other s).2.contents id e ↔ a.Stray s.contents id e := by
  have own := kept.ownTree other
  have tree := fun complete => delete_keeps_tree kept.laidOut own different complete
  by_cases gone : a.Gone s.contents (.plan, id)
  · have stillGone : a.Gone (a.delete other s).2.contents (.plan, id) :=
      (delete_within other kept.laidOut).find?_eq_none gone
    exact ⟨fun stray => absurd stillGone stray.1, fun stray => absurd gone stray.1⟩
  · have same := tree (kept.complete id gone)
    apply stray_congr
    · rw [Gone, Gone, same (.plan, id) .root]
    · exact delete_names_iff kept.laidOut own different
    · intro _
      exact same.below_iff

/-- A plan that was deleted has no strays: it is not stored. -/
theorem not_stray_delete (laidOut : a.LaidOut s.contents) (faultless : s.Faultless) :
    ¬ a.Stray (a.delete id s).2.contents id e := by
  intro stray
  cases isNil : id.isNil with
  | true =>
    rw [delete_of_nil isNil] at stray
    cases isNil.symm.trans (laidOut.notNil stray.1)
  | false =>
    exact stray.1 (delete_all laidOut (delete_succeeds laidOut isNil faultless)).1

/-! ## Strays, history by history -/

theorem stray_turn {t : Turn} (kept : a.WellKept s.contents) (faultless : DeletesFaultless [t]) :
    a.Stray (a.turn s t).contents id e ↔
      a.Stray s.contents id e ∧ t.call ≠ .delete id ∨ a.LeavesOut s t id e := by
  rw [← s.contents_allowing t.writesLeft] at kept
  obtain ⟨call, budget⟩ := t
  cases call with
  | create p =>
    by_cases own : p.id = id
    · subst own
      simpa [LeavesOut, turn, perform] using stray_create_own (s := s.allowing budget)
    · simpa [LeavesOut, own, turn, perform] using stray_create_other kept (Ne.symm own)
  | update entity =>
    simpa [LeavesOut, turn, perform] using stray_update kept.laidOut entity
  | delete other =>
    by_cases own : id = other
    · subst own
      have allowed : (s.allowing budget).Faultless := faultless id budget List.mem_cons_self
      simpa [LeavesOut, turn, perform] using not_stray_delete kept.laidOut allowed
    · simpa [LeavesOut, turn, perform, Ne.symm own] using stray_delete_other kept own

theorem leftOut_append_singleton {turns : List Turn} {t : Turn} :
    a.LeftOut (turns ++ [t]) id e ↔
      a.LeftOut turns id e ∧ t.call ≠ .delete id ∨ a.LeavesOut (a.history turns) t id e := by
  constructor
  · rintro ⟨earlier, u, later, split, leaves, undeleted⟩
    rcases List.eq_nil_or_concat later with rfl | ⟨initial, last, isConcat⟩
    · obtain ⟨rfl, same⟩ := List.append_inj' split rfl
      cases same
      exact .inr leaves
    · rw [List.concat_eq_append] at isConcat
      subst isConcat
      rw [← List.cons_append, ← List.append_assoc] at split
      obtain ⟨rfl, same⟩ := List.append_inj' split rfl
      cases same
      refine .inl ⟨⟨earlier, u, initial, rfl, leaves, ?_⟩, undeleted t (by simp)⟩
      exact fun v member => undeleted v (List.mem_append_left _ member)
  · rintro (⟨⟨earlier, u, later, rfl, leaves, undeleted⟩, notDeleted⟩ | leaves)
    · refine ⟨earlier, u, later ++ [t], by simp, leaves, ?_⟩
      intro v member
      rcases List.mem_append.mp member with isEarlier | isLast
      · exact undeleted v isEarlier
      · rw [List.mem_singleton.mp isLast]
        exact notDeleted
    · exact ⟨turns, t, [], rfl, leaves, by simp⟩

/-- Strays are the children that were left out. -/
theorem stray_iff_leftOut {turns : List Turn} (faultless : DeletesFaultless turns) :
    a.Stray (a.history turns).contents id e ↔ a.LeftOut turns id e := by
  induction turns using List.reverseRecOn with
  | nil =>
    constructor
    · intro ⟨stored, _⟩
      exact absurd rfl stored
    · rintro ⟨earlier, t, later, split, _⟩
      simp at split
  | append_singleton turns t inductionHypothesis =>
    obtain ⟨before, last⟩ := deletesFaultless_append.mp faultless
    rw [history_append_singleton, stray_turn (wellKept_history before) last,
      inductionHypothesis before, leftOut_append_singleton]

/-- What names a plan after a deletion that succeeded was a stray before. -/
theorem names_delete_iff (laidOut : a.LaidOut s.contents)
    (succeeded : (a.delete id s).1 = .ok ()) :
    a.Names (a.delete id s).2.contents id e ↔ a.Stray s.contents id e := by
  obtain ⟨_, allGone⟩ := delete_all laidOut succeeded
  have only := delete_only id laidOut (a.key e.1 e.2)
  constructor
  · intro names
    obtain ⟨isChild, n, isNode, named⟩ := names
    have notDoomed : ¬ a.Doomed s.contents id e :=
      fun doomed => stored_of_node? isNode (allGone e doomed)
    have same : (a.delete id s).2.contents.find? (a.key e.1 e.2) =
        s.contents.find? (a.key e.1 e.2) := by
      rcases only with same | ⟨_, f, doomed, isKey⟩
      · exact same
      · exact absurd (key_injective isKey ▸ doomed) notDoomed
    rw [node?_congr same] at isNode
    have named : a.Names s.contents id e := ⟨isChild, n, isNode, named⟩
    have stored : ¬ a.Gone s.contents (.plan, id) :=
      fun gone => notDoomed (.inr ⟨gone, named⟩)
    exact ⟨stored, named, fun below => notDoomed (.inl ⟨stored, below⟩)⟩
  · intro ⟨stored, names, notBelow⟩
    rcases only with same | ⟨_, f, doomed, isKey⟩
    · rw [Names, node?_congr same]
      exact names
    · rw [← key_injective isKey] at doomed
      rcases doomed with ⟨_, below⟩ | ⟨gone, _⟩
      · exact absurd below notBelow
      · exact absurd gone stored

/-- After a deletion that succeeds the plan is gone. Children that name it are left exactly when
they were left out: a creation that was cut short wrote them, and the creation that then stored the
plan did not have them in its tree. -/
theorem orphans_of_delete {turns : List Turn} {budget : Option Nat}
    (faultless : DeletesFaultless turns)
    (succeeded : (a.delete id ((a.history turns).allowing budget)).1 = .ok ()) :
    a.Gone (a.delete id ((a.history turns).allowing budget)).2.contents (.plan, id) ∧
      ∀ e, a.Names (a.delete id ((a.history turns).allowing budget)).2.contents id e ↔
        a.LeftOut turns id e := by
  have laidOut : a.LaidOut ((a.history turns).allowing budget).contents :=
    (wellKept_history faultless).laidOut
  refine ⟨(delete_all laidOut succeeded).1, ?_⟩
  intro e
  rw [names_delete_iff laidOut succeeded, ← stray_iff_leftOut faultless]
  rfl

/-- A plan of nothing but checks without actions. -/
def checksPlan (checks : List Checks) : Plan :=
  { demoPlan with checks := { Slots.fill none with pre := checks.head? }, blocks := [] }

/-- A creation that is cut short after its checks, and another one without them. -/
def changedRetry : List Turn :=
  [⟨.create (checksPlan [⟨numbered 2, none, .zero, [], .initial⟩]), some 1⟩,
    ⟨.create (checksPlan []), none⟩]

theorem orphans_of_delete_changedRetry :
    DeletesFaultless changedRetry ∧
      (demo.delete demoPlan.id ((demo.history changedRetry).allowing none)).1 = .ok () ∧
      demo.Gone (demo.delete demoPlan.id ((demo.history changedRetry).allowing none)).2.contents
        (.plan, demoPlan.id) ∧
      ∀ e, demo.Names
        (demo.delete demoPlan.id ((demo.history changedRetry).allowing none)).2.contents
        demoPlan.id e ↔ demo.LeftOut changedRetry demoPlan.id e := by
  have faultless : DeletesFaultless changedRetry := by simp [DeletesFaultless, changedRetry]
  have succeeded :
      (demo.delete demoPlan.id ((demo.history changedRetry).allowing none)).1 = .ok () := rfl
  exact ⟨faultless, succeeded, orphans_of_delete faultless succeeded⟩

/-- The checks of the creation that was cut short name the plan after it was deleted. -/
theorem orphan_after_delete :
    DeletesFaultless changedRetry ∧
      (demo.delete demoPlan.id (demo.history changedRetry)).1 = .ok () ∧
      demo.Names (demo.delete demoPlan.id (demo.history changedRetry)).2.contents demoPlan.id
        (.checks, numbered 2) := by
  have owner : (demo.node? (demo.delete demoPlan.id (demo.history changedRetry)).2.contents
      (.checks, numbered 2)).map Node.owner = some demoPlan.id := by decide +kernel
  obtain ⟨n, isNode, named⟩ := Option.map_eq_some_iff.mp owner
  exact ⟨by simp [DeletesFaultless, changedRetry], rfl, by decide, n, isNode, named⟩

end Archive

end PlanArchive
