import PlanArchive.Proofs.Archive.RoundTrip
import PlanArchive.Proofs.Document.Restoring

/-!
# Which created plans can be read

Creating a plan writes its payloads as texts without a look at how deep they are nested, and reading
it parses these texts with a limit. `read_create_iff`: a plan that was created can be read exactly
when the payloads of all its actions are restored, which without texts inside them means that none
is nested too deep. `deepPlan` is one that is created and cannot be read.

Reading goes down the tree, and no level fails by itself: a level is read exactly when the payloads
of all actions below it are restored (`readChecks_iff` and its like).
-/

namespace PlanArchive

theorem Slots.exists_ok_mapM {ε α β : Type} {step : α → Except ε β} {slots : Slots α} :
    (∃ r, slots.mapM (fun _ => step) = .ok r) ↔ ∀ x ∈ slots.toList, ∃ y, step x = .ok y := by
  simp only [mapM, Except.exists_ok_bind, Except.exists_ok_pure, and_true, exists_and_right, toList,
    List.forall_mem_cons]
  simp

namespace Archive

variable {σ : Type} [DocumentStore σ] {a : Archive} {s : σ} {planId : Uuid}
  {tokenOf : Uuid → VersionToken} {docs : List PendingDocument}

/-! ## Level by level -/

theorem readAction_iff {actions : List Action} {x : Action}
    (encoded : a.actionDocuments planId actions = .ok docs) (holds : a.Holds s tokenOf docs)
    (member : x ∈ actions) (decodes : x.Decodes a.registry) :
    (∃ y, a.readAction s planId x.id = .ok y) ↔ x.Restorable a.registry := by
  obtain ⟨position, d, isEncoded, isRead⟩ := readAction_eq encoded holds member
  rw [← ActionDocument.exists_decode decodes isEncoded (tokenOf x.id), isRead, decodeAction]
  cases d.decode (tokenOf x.id) a.registry with
  | error e => simp [decoded]
  | ok y => simp [decoded]

theorem readActions_iff {actions : List Action}
    (encoded : a.actionDocuments planId actions = .ok docs) (holds : a.Holds s tokenOf docs)
    (decodes : ∀ x ∈ actions, x.Decodes a.registry) :
    (∃ r, (actions.map Action.id).mapM (a.readAction s planId) = .ok r) ↔
      ∀ x ∈ actions, x.Restorable a.registry := by
  rw [Except.exists_ok_mapM, List.forall_mem_map]
  exact forall₂_congr fun x member => readAction_iff encoded holds member (decodes x member)

theorem readChecks_iff {c : Checks} (encoded : a.checksDocuments planId c = .ok docs)
    (holds : a.Holds s tokenOf docs) (decodes : ∀ x ∈ c.actions, x.Decodes a.registry) :
    (∃ r, a.readChecks s planId c.id = .ok r) ↔ ∀ x ∈ c.actions, x.Restorable a.registry := by
  obtain ⟨own, ownEncoded, held, isRead⟩ := readChecks_eq encoded holds
  have actionsRead := readActions_iff ownEncoded held decodes
  simp only [isRead, Except.exists_ok_bind, Except.exists_ok_pure, and_true, actionsRead]

theorem readSequence_iff {position : Nat} {q : Sequence}
    (encoded : a.sequenceDocuments planId position q = .ok docs)
    (holds : a.Holds s tokenOf docs) (decodes : ∀ x ∈ q.actions, x.Decodes a.registry) :
    (∃ r, a.readSequence s planId q.id = .ok r) ↔ ∀ x ∈ q.actions, x.Restorable a.registry := by
  obtain ⟨own, ownEncoded, held, isRead⟩ := readSequence_eq encoded holds
  have actionsRead := readActions_iff ownEncoded held decodes
  simp only [isRead, Except.exists_ok_bind, Except.exists_ok_pure, and_true, actionsRead]

theorem readSlot_iff {c : Option Checks} : (∃ r, a.readSlot s planId (c.map Checks.id) = .ok r) ↔
    ∀ d ∈ c, ∃ r, a.readChecks s planId d.id = .ok r := by
  cases c with
  | none => exact iff_of_true ⟨none, rfl⟩ (by simp)
  | some c => cases isRead : a.readChecks s planId c.id <;> simp [readSlot, isRead, Except.map]

/-- The checks in the slots of a plan or a block. -/
theorem readSlots_iff (ownerKind : EntityKind) (ownerId : Uuid) {checks : Slots (Option Checks)}
    {docs : List (List PendingDocument)} (notNil : ∀ c ∈ checks.present, c.id.isNil = false)
    (encoded : checks.present.mapM (a.checksDocuments planId) = .ok docs)
    (holds : a.Holds s tokenOf docs.flatten)
    (decodes : ∀ x ∈ checks.present.flatMap Checks.actions, x.Decodes a.registry) :
    (∃ r, a.readSlots s planId ownerKind ownerId (CheckRefs.encode checks) = .ok r) ↔
      ∀ x ∈ checks.present.flatMap Checks.actions, x.Restorable a.registry := by
  have each : ∀ c ∈ checks.present, (∃ r, a.readChecks s planId c.id = .ok r) ↔
      ∀ x ∈ c.actions, x.Restorable a.registry := by
    intro c present
    obtain ⟨own, isList, ownEncoded⟩ := Except.mem_of_mapM encoded present
    exact readChecks_iff ownEncoded (holds.of_flatten isList)
      fun x isAction => decodes x (List.mem_flatMap.mpr ⟨c, present, isAction⟩)
  have toList : (checks.map (Option.map Checks.id)).toList =
      checks.toList.map (Option.map Checks.id) := rfl
  have isPresent : ∀ c, c ∈ checks.present ↔ some c ∈ checks.toList := by simp [Slots.present]
  have slots : (∃ r, (checks.map (Option.map Checks.id)).mapM (fun _ => a.readSlot s planId)
      = .ok r) ↔ ∀ c ∈ checks.present, ∃ r, a.readChecks s planId c.id = .ok r := by
    rw [Slots.exists_ok_mapM, toList, List.forall_mem_map]
    simp only [readSlot_iff, isPresent]
    exact ⟨fun all c isSome => all (some c) isSome c rfl,
      fun all _ isSlot c isSome => all c (isSome ▸ isSlot)⟩
  simp only [readSlots, CheckRefs.decode_encode notNil, decoded, Except.exists_ok_bind,
    Except.ok.injEq, exists_eq_left', slots, List.forall_mem_flatMap]
  exact forall₂_congr each

/-- The items of a numbered list, each read from its own documents. -/
theorem readItems_iff {α : Type} {items : List α} {docs : List (List PendingDocument)}
    {encode : α × Nat → Except ArchiveError (List PendingDocument)} (id : α → Uuid)
    {read : Uuid → Except ArchiveError α} {actions : α → List Action}
    (encoded : items.zipIdx.mapM encode = .ok docs) (holds : a.Holds s tokenOf docs.flatten)
    (each : ∀ x ∈ items, ∀ position own, encode (x, position) = .ok own →
      a.Holds s tokenOf own →
        ((∃ r, read (id x) = .ok r) ↔ ∀ y ∈ actions x, y.Restorable a.registry)) :
    (∃ r, (items.map id).mapM read = .ok r) ↔
      ∀ y ∈ items.flatMap actions, y.Restorable a.registry := by
  rw [Except.exists_ok_mapM, List.forall_mem_map, List.forall_mem_flatMap]
  refine forall₂_congr fun x member => ?_
  obtain ⟨position, own, isList, ownEncoded⟩ := Except.mem_of_numbered encoded member
  exact each x member position own ownEncoded (holds.of_flatten isList)

theorem readBlock_iff {position : Nat} {b : Block} (notNil : ∀ e ∈ b.entities, e.2.isNil = false)
    (encoded : a.blockDocuments planId position b = .ok docs) (holds : a.Holds s tokenOf docs)
    (decodes : ∀ x ∈ b.checks.present.flatMap Checks.actions ++
      b.sequences.flatMap Sequence.actions, x.Decodes a.registry) :
    (∃ r, a.readBlock s planId b.id = .ok r) ↔ ∀ x ∈ b.checks.present.flatMap Checks.actions ++
      b.sequences.flatMap Sequence.actions, x.Restorable a.registry := by
  obtain ⟨checks, sequences, checksEncoded, sequencesEncoded, checksHeld, sequencesHeld, isRead⟩ :=
    readBlock_eq encoded holds
  have checksNotNil : ∀ c ∈ b.checks.present, c.id.isNil = false :=
    fun c present => notNil _ (Block.checks_mem_entities present)
  have checksRead := readSlots_iff .block b.id checksNotNil checksEncoded checksHeld
    fun x isAction => decodes x (List.mem_append_left _ isAction)
  have sequencesRead := readItems_iff Sequence.id sequencesEncoded sequencesHeld
    fun q member position own ownEncoded held => readSequence_iff ownEncoded held fun x isAction =>
      decodes x (List.mem_append_right _ (List.mem_flatMap.mpr ⟨q, member, isAction⟩))
  simp only [isRead, Except.exists_ok_bind, Except.exists_ok_pure, and_true, exists_and_right,
    checksRead, sequencesRead, List.forall_mem_append]

/-- A plan whose documents the store holds is read exactly when its payloads are restored. -/
theorem read_iff {p : Plan} (notNil : ∀ e ∈ p.entities, e.2.isNil = false)
    (encoded : a.documents p = .ok docs) (holds : a.Holds s tokenOf docs)
    (decodes : ∀ x ∈ p.actions, x.Decodes a.registry) :
    (∃ q, a.read s p.id = .ok q) ↔ ∀ x ∈ p.actions, x.Restorable a.registry := by
  obtain ⟨checks, blocks, checksEncoded, blocksEncoded, checksHeld, blocksHeld, isRead⟩ :=
    read_eq encoded holds
  have checksNotNil : ∀ c ∈ p.checks.present, c.id.isNil = false :=
    fun c present => notNil _ (Plan.checks_mem_entities present)
  have checksRead := readSlots_iff .plan p.id checksNotNil checksEncoded checksHeld
    fun x isAction => decodes x (List.mem_append_left _ isAction)
  have blocksRead := readItems_iff Block.id blocksEncoded blocksHeld
    fun b member position own ownEncoded held =>
      readBlock_iff (fun e below => notNil e (Plan.mem_entities_of_block member below))
        ownEncoded held fun x isAction =>
          decodes x (List.mem_append_right _ (List.mem_flatMap.mpr ⟨b, member, isAction⟩))
  simp only [isRead, Except.exists_ok_bind, Except.exists_ok_pure, and_true, exists_and_right,
    checksRead, blocksRead, Plan.actions, List.forall_mem_append]

/-! ## Plans that were created -/

section

variable {p : Plan} {s : MemoryStore}

theorem read_create_iff_restorable (created : (a.create p s).result = .ok ())
    (decodes : ∀ x ∈ p.actions, x.Decodes a.registry) :
    (∃ q, a.read (a.create p s).store p.id = .ok q) ↔ ∀ x ∈ p.actions, x.Restorable a.registry := by
  obtain ⟨docs, tokenOf, valid, holds, _⟩ := holds_of_create created
  obtain ⟨encoded, notNil, _⟩ := validated_eq_ok valid
  exact read_iff notNil encoded holds decodes

/-- A plan whose payloads registered plugins decode and that was created can be read exactly when
its payloads are restored from their texts. Of payloads without texts inside this asks that no
request is nested deeper than texts may be, and no response deeper than one container less. -/
theorem read_create_iff (created : (a.create p s).result = .ok ())
    (decodes : ∀ x ∈ p.actions, x.Decodes a.registry) :
    ((∃ q, a.read (a.create p s).store p.id = .ok q) ↔
      ∀ x ∈ p.actions, x.Restorable a.registry) ∧
    ((∀ x ∈ p.actions, x.Legible) →
      ((∃ q, a.read (a.create p s).store p.id = .ok q) ↔ ∀ x ∈ p.actions, x.Shallow)) := by
  have restored := read_create_iff_restorable created decodes
  refine ⟨restored, fun legible => restored.trans ?_⟩
  exact forall₂_congr fun x member =>
    Action.restorable_iff_shallow (decodes x member) (legible x member)

end

/-- Arrays inside one another. -/
def nestedArrays : Nat → Json
  | 0 => .bool true
  | n + 1 => .arr [nestedArrays n]

theorem nesting_nestedArrays (n : Nat) : (nestedArrays n).nesting = n := by
  induction n with
  | zero => rfl
  | succ n inductionHypothesis =>
    simp [nestedArrays, Json.nesting, Json.nestingOfItems, inductionHypothesis]

theorem normalize_nestedArrays (n : Nat) : (nestedArrays n).normalize = nestedArrays n := by
  induction n with
  | zero => rfl
  | succ n inductionHypothesis =>
    simp [nestedArrays, Json.normalize, Json.normalizeItems, inductionHypothesis]

theorem legible_nestedArrays (n : Nat) : (nestedArrays n).Legible := by
  induction n with
  | zero => trivial
  | succ n inductionHypothesis => exact ⟨inductionHypothesis, trivial⟩

/-- A payload of nested arrays. -/
def nestedPayload (n : Nat) : Payload := .ofJson Plugin.untypedName (nestedArrays n)

theorem toJson_nestedPayload (n : Nat) : (nestedPayload n).toJson = .ok (nestedArrays n) :=
  congrArg Except.ok (normalize_nestedArrays n)

/-- An action with a request and a response that are nested. -/
def deepAction (request response : Nat) : Action where
  id := numbered 5
  key := none
  name := "deep"
  descr := ""
  plugin := "shell"
  timeout := .zero
  retries := 0
  request := some (nestedPayload request)
  attempts := [⟨some (nestedPayload response), none, none, none⟩]
  state := .initial

/-- The demo plan with this action only. -/
def deepPlan (request response : Nat) : Plan :=
  { demoPlan with
    checks := { Slots.fill none with
      pre := some ⟨numbered 2, none, .zero, [deepAction request response], .initial⟩ }
    blocks := [] }

theorem payloads_deepPlan {request response : Nat} {ofRequest ofResponse : Payload → Prop} :
    (∀ x ∈ (deepPlan request response).actions, x.PayloadsSatisfy ofRequest ofResponse) ↔
      ofRequest (nestedPayload request) ∧ ofResponse (nestedPayload response) := by
  have isOne : (deepPlan request response).actions = [deepAction request response] := rfl
  simp [isOne, Action.PayloadsSatisfy, deepAction]

theorem decodes_deepPlan (request response : Nat) :
    ∀ x ∈ (deepPlan request response).actions, x.Decodes demo.registry := by
  intro x isAction
  have decodes (n : Nat) : (nestedPayload n).Decodes (Plugin.untyped "shell").decodeRequest := by
    intro v isValue
    cases (toJson_nestedPayload n).symm.trans isValue
    exact ⟨(legible_nestedArrays n).exact, _, rfl, rfl⟩
  have payloads := payloads_deepPlan.mpr ⟨decodes request, decodes response⟩ x isAction
  rw [List.mem_singleton.mp isAction] at payloads ⊢
  exact ⟨.untyped "shell", rfl, payloads⟩

theorem legible_deepPlan (request response : Nat) :
    ∀ x ∈ (deepPlan request response).actions, x.Legible := by
  have legible (n : Nat) : (nestedPayload n).Legible := by
    intro v isValue
    cases (toJson_nestedPayload n).symm.trans isValue
    exact legible_nestedArrays n
  exact payloads_deepPlan.mpr ⟨legible request, legible response⟩

theorem shallow_deepPlan {request response : Nat} :
    (∀ x ∈ (deepPlan request response).actions, x.Shallow) ↔ request ≤ 127 ∧ response ≤ 126 := by
  have nests (n depth : Nat) : (nestedPayload n).NestsWithin depth ↔ n ≤ depth := by
    rw [Payload.NestsWithin, toJson_nestedPayload]
    simp [nesting_nestedArrays]
  exact payloads_deepPlan.trans (and_congr (nests request 127) (nests response 126))

/-- At the limits the plan is read. -/
theorem read_create_iff_deepPlan :
    (demo.create (deepPlan 127 126) MemoryStore.empty).result = .ok () ∧
    (∀ x ∈ (deepPlan 127 126).actions, x.Decodes demo.registry) ∧
    ∃ q, demo.read (demo.create (deepPlan 127 126) MemoryStore.empty).store demoPlan.id =
      .ok q := by
  have created : (demo.create (deepPlan 127 126) MemoryStore.empty).result = .ok () :=
    Except.eq_ok_of_isOk (by decide +kernel)
  have decodes := decodes_deepPlan 127 126
  obtain ⟨_, ofLegible⟩ := read_create_iff created decodes
  exact ⟨created, decodes, (ofLegible (legible_deepPlan 127 126)).mpr
    (shallow_deepPlan.mpr ⟨Nat.le_refl _, Nat.le_refl _⟩)⟩

theorem read_deepPlan_iff {request response : Nat}
    (created : (demo.create (deepPlan request response) MemoryStore.empty).result = .ok ()) :
    (∃ q, demo.read (demo.create (deepPlan request response) MemoryStore.empty).store demoPlan.id =
      .ok q) ↔ request ≤ 127 ∧ response ≤ 126 := by
  have decodes := decodes_deepPlan request response
  have legible := legible_deepPlan request response
  rw [← shallow_deepPlan]
  exact (read_create_iff_restorable created decodes).trans (forall₂_congr fun x member =>
    Action.restorable_iff_shallow (decodes x member) (legible x member))

/-- Beyond either limit it is created all the same, and not read. -/
theorem created_unreadable :
    ((demo.create (deepPlan 128 0) MemoryStore.empty).result = .ok () ∧
      (∀ x ∈ (deepPlan 128 0).actions, x.Decodes demo.registry) ∧
      ¬ ∃ q, demo.read (demo.create (deepPlan 128 0) MemoryStore.empty).store demoPlan.id = .ok q) ∧
    (demo.create (deepPlan 0 127) MemoryStore.empty).result = .ok () ∧
      (∀ x ∈ (deepPlan 0 127).actions, x.Decodes demo.registry) ∧
      ¬ ∃ q, demo.read (demo.create (deepPlan 0 127) MemoryStore.empty).store demoPlan.id =
        .ok q := by
  have deepRequest : (demo.create (deepPlan 128 0) MemoryStore.empty).result = .ok () :=
    Except.eq_ok_of_isOk (by decide +kernel)
  have deepResponse : (demo.create (deepPlan 0 127) MemoryStore.empty).result = .ok () :=
    Except.eq_ok_of_isOk (by decide +kernel)
  refine ⟨⟨deepRequest, decodes_deepPlan 128 0, ?_⟩, deepResponse, decodes_deepPlan 0 127, ?_⟩
  · rw [read_deepPlan_iff deepRequest]
    omega
  · rw [read_deepPlan_iff deepResponse]
    omega

end Archive

end PlanArchive
