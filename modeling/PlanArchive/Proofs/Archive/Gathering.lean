import PlanArchive.Proofs.Archive.Listed
import PlanArchive.Proofs.Archive.Ownership
import PlanArchive.Proofs.Archive.Resolving

/-!
# Actions by identifier

Actions can be asked for by their identifiers alone. That goes to their documents directly, and
nothing asks which plans they belong to. In every store that archives have written to it comes to
the same as reading the plans: an action that is found inside a plan is the one that its identifier
stands for, with its token (`actions_agree_with_read`). An identifier that no action is stored under
is reported when there is an action for each one before it.
-/

namespace PlanArchive

namespace Archive

variable {a : Archive} {c : Contents} {s : MemoryStore} {ids : List Uuid} {id : Uuid} {x y : Action}

/-! ## Single actions -/

/-- An action is what the document under an identifier decodes to. -/
def KeepsAction (a : Archive) (c : Contents) (id : Uuid) (x : Action) : Prop :=
  ∃ item d, c.find? (a.key .action id) = some item ∧ ActionDocument.ofJson? item.doc = some d ∧
    d.decode item.token a.registry = .ok x

theorem KeepsAction.unique (first : a.KeepsAction c id x) (second : a.KeepsAction c id y) :
    x = y := by
  obtain ⟨item, d, stored, parsed, decodes⟩ := first
  obtain ⟨_, _, alsoStored, alsoParsed, alsoDecodes⟩ := second
  cases stored.symm.trans alsoStored
  cases parsed.symm.trans alsoParsed
  exact Except.ok.inj (decodes.symm.trans alsoDecodes)

theorem KeepsAction.id_eq (kept : a.KeepsAction c id x) (ownIds : a.OwnIds c) : x.id = id := by
  obtain ⟨item, d, stored, parsed, decodes⟩ := kept
  exact (ActionDocument.revision_of_decode decodes).1.trans
    (ownIds.id_eq stored (congrArg (Option.map Document.action) parsed))

theorem fetchAction_eq_ok :
    (do let (d, token) ← a.fetch ActionDocument.ofJson? .read .action id s
        a.decodeAction d token) = .ok x ↔ a.KeepsAction s.contents id x := by
  simp only [Except.bind_eq_ok, decodeAction, decoded_eq_ok]
  constructor
  · rintro ⟨⟨d, token⟩, fetched, decodes⟩
    obtain ⟨item, stored, parsed, rfl⟩ := fetch_eq_ok.mp fetched
    exact ⟨item, d, stored, parsed, decodes⟩
  · rintro ⟨item, d, stored, parsed, decodes⟩
    exact ⟨(d, item.token), fetch_eq_ok.mpr ⟨item, stored, parsed, rfl⟩, decodes⟩

/-- An action is reported missing when nothing is stored under the identifier that was asked for. -/
theorem fetchAction_eq_notFound {other : Uuid} :
    (do let (d, token) ← a.fetch ActionDocument.ofJson? .read .action id s
        a.decodeAction d token) = .error (.notFound .action other) ↔
      other = id ∧ s.contents.find? (a.key .action id) = none := by
  rw [fetch_eq]
  cases s.contents.find? (a.key .action id) with
  | none => simp [bind, Except.bind, eq_comm]
  | some item =>
    cases parsed : ActionDocument.ofJson? item.doc with
    | none => simp [parsed, bind, Except.bind]
    | some d =>
      cases decodes : d.decode item.token a.registry <;>
        simp [parsed, decodeAction, decoded, decodes, bind, Except.bind]

/-! ## Lists of actions -/

/-- The first identifier without an action is reported when each one before it has its action. -/
theorem actions_eq_notFound :
    a.actions s ids = .error (.notFound .action id) ↔ ∃ before after, ids = before ++ id :: after ∧
      (∀ y ∈ before, ∃ x, a.KeepsAction s.contents y x) ∧
      s.contents.find? (a.key .action id) = none := by
  rw [actions, Except.mapM_eq_error]
  simp only [fetchAction_eq_ok, fetchAction_eq_notFound]
  constructor
  · rintro ⟨before, _, after, split, kept, rfl, missing⟩
    exact ⟨before, after, split, kept, missing⟩
  · rintro ⟨before, after, split, kept, missing⟩
    exact ⟨before, id, after, split, kept, rfl, missing⟩

/-! ## Actions inside plans -/

/-- An action is found in a plan that is read. -/
def ReadsAction (a : Archive) (s : MemoryStore) (x : Action) : Prop :=
  ∃ planId q, a.read s planId = .ok q ∧ x ∈ q.actions

theorem StoresSlots.keepsAction {refs : CheckRefs} {checks : Slots (Option Checks)}
    (stored : a.StoresSlots c refs checks) (member : x ∈ checks.present.flatMap Checks.actions) :
    a.KeepsAction c x.id x := by
  obtain ⟨y, present, inChecks⟩ := List.mem_flatMap.mp member
  obtain ⟨_, _, _, _, _, _, actions⟩ := stored.2 y present
  exact actions x inChecks

/-- An action inside a plan that was read is what its own identifier stands for. -/
theorem ReadsAction.keepsAction (ownIds : a.OwnIds s.contents) (isRead : a.ReadsAction s x) :
    a.KeepsAction s.contents x.id x := by
  obtain ⟨planId, q, read, member⟩ := isRead
  obtain ⟨-, _, _, _, _, _, slots, _, blocks⟩ := storesPlan_of_read ownIds read
  rcases List.mem_append.mp member with ofChecks | below
  · exact slots.keepsAction ofChecks
  · obtain ⟨b, isBlock, inBlock⟩ := List.mem_flatMap.mp below
    obtain ⟨_, _, _, _, _, blockSlots, _, sequences⟩ := blocks b isBlock
    rcases List.mem_append.mp inBlock with ofBlockChecks | ofSequence
    · exact blockSlots.keepsAction ofBlockChecks
    · obtain ⟨y, isSequence, inSequence⟩ := List.mem_flatMap.mp ofSequence
      obtain ⟨_, _, _, _, _, _, actions⟩ := sequences y isSequence
      exact actions x inSequence

/-- Archives leave no document with an identifier that is not its own. -/
theorem ownIds_sharedHistory (a : Archive) (turns : List (Archive × Turn)) :
    a.OwnIds (sharedHistory turns).contents := by
  rintro ⟨kind, id⟩ item stored y isId
  have label := labelled_sharedHistory turns a.part kind.collection id item stored
  rw [Field.id?, label, Option.bind_some, Uuid.parse?_toText] at isId
  exact (Option.some.inj isId).symm

/-- Asking for actions by identifier agrees with reading plans. Whatever archives wrote to a store,
cut short or not: asked for identifiers of actions that are found in plans, of one plan or of many
and with repetitions, an archive answers with one action for each, in order, and each is the same as
in every plan in which it is found, with its token. And an identifier is reported as that of a
missing action exactly when nothing is stored under it and each one before it has its action. -/
theorem actions_agree_with_read (a : Archive) (turns : List (Archive × Turn)) (ids : List Uuid) :
    ((∀ id ∈ ids, ∃ x, a.ReadsAction (sharedHistory turns) x ∧ x.id = id) →
      ∃ xs, a.actions (sharedHistory turns) ids = .ok xs ∧ xs.map Action.id = ids ∧
        ∀ x ∈ xs, a.ReadsAction (sharedHistory turns) x ∧
          ∀ y, a.ReadsAction (sharedHistory turns) y → y.id = x.id → y = x) ∧
    ∀ id, a.actions (sharedHistory turns) ids = .error (.notFound .action id) ↔
      ∃ before after, ids = before ++ id :: after ∧
        (∀ y ∈ before, ∃ x, a.KeepsAction (sharedHistory turns).contents y x) ∧
        (sharedHistory turns).contents.find? (a.key .action id) = none := by
  refine ⟨?_, fun id => actions_eq_notFound⟩
  have ownIds := a.ownIds_sharedHistory turns
  intro found
  have each : ∀ id ∈ ids, ∃ x, a.KeepsAction (sharedHistory turns).contents id x ∧ x.id = id := by
    intro id isAsked
    obtain ⟨x, isRead, rfl⟩ := found id isAsked
    exact ⟨x, isRead.keepsAction ownIds, rfl⟩
  simp only [← fetchAction_eq_ok] at each
  obtain ⟨xs, answered, sameIds⟩ := Except.mapM_alike each
  refine ⟨xs, answered, sameIds.trans (List.map_id' ids), fun x isAnswer => ?_⟩
  obtain ⟨id, isAsked, made⟩ := Except.mem_of_mapM_result answered isAnswer
  have kept := fetchAction_eq_ok.mp made
  -- What is read under an identifier is what is kept under it.
  have same : ∀ y, a.ReadsAction (sharedHistory turns) y → y.id = id → y = x := by
    rintro y isRead rfl
    exact (isRead.keepsAction ownIds).unique kept
  obtain ⟨y, isRead, isId⟩ := found id isAsked
  refine ⟨same y isRead isId ▸ isRead, fun z alsoRead sameId => same z alsoRead ?_⟩
  rw [sameId, kept.id_eq ownIds]

/-- Two plans are created, an action of one of them is updated, and the creation of a third plan is
cut short after its first action. -/
def gatheringTurns : List (Archive × Turn) :=
  let running (x : Action) : Action := { x with state := ⟨.running, some (.ofNanos 3), none, none⟩ }
  let untried := demoPlan.mapActions fun x => { x with request := none, attempts := [] }
  [(demo, ⟨.create untried, none⟩), (demo, ⟨.create bystander, none⟩)] ++
    bystander.actions.map (fun x => (demo, ⟨.update (.action (running x)), none⟩)) ++
    [(demo, ⟨.create (actionPlan (numbered 10) (numbered 11) [numbered 12, numbered 13]), some 1⟩)]

/-- An action of a sequence and one of checks are found, the latter twice. So is the action that the
cut creation left, but not the next one. -/
theorem actions_agree_with_read_gatheringTurns :
    (∀ id ∈ [numbered 7, numbered 5, numbered 7],
      ∃ x, demo.ReadsAction (sharedHistory gatheringTurns) x ∧ x.id = id) ∧
    (∃ xs, demo.actions (sharedHistory gatheringTurns) [numbered 7, numbered 5, numbered 7] =
        .ok xs ∧ xs.map Action.id = [numbered 7, numbered 5, numbered 7] ∧
      ∀ x ∈ xs, demo.ReadsAction (sharedHistory gatheringTurns) x ∧
        ∀ y, demo.ReadsAction (sharedHistory gatheringTurns) y → y.id = x.id → y = x) ∧
    demo.actions (sharedHistory gatheringTurns) [numbered 7, numbered 12, numbered 13, numbered 9] =
      .error (.notFound .action (numbered 13)) := by
  have readIds : ∀ planId ids, (demo.read (sharedHistory gatheringTurns) planId).map
      (fun q => q.actions.map Action.id) = .ok ids → ∀ id ∈ ids,
      ∃ x, demo.ReadsAction (sharedHistory gatheringTurns) x ∧ x.id = id := by
    intro planId ids isRead id member
    obtain ⟨q, found, rfl⟩ := Except.map_eq_ok.mp isRead
    obtain ⟨x, inPlan, isId⟩ := List.mem_map.mp member
    exact ⟨x, ⟨planId, q, found, inPlan⟩, isId⟩
  have ofSequence := readIds (numbered 1) [numbered 5] (by decide +kernel)
  have ofChecks := readIds (numbered 5) [numbered 7] (by decide +kernel)
  have found : ∀ id ∈ [numbered 7, numbered 5, numbered 7],
      ∃ x, demo.ReadsAction (sharedHistory gatheringTurns) x ∧ x.id = id := by
    simp only [List.forall_mem_cons] at ofSequence ofChecks ⊢
    exact ⟨ofChecks.1, ofSequence.1, ofChecks⟩
  exact ⟨found, (actions_agree_with_read demo gatheringTurns _).1 found, by decide +kernel⟩

end Archive

end PlanArchive
