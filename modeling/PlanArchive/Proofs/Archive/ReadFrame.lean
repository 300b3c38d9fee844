import PlanArchive.Archive.Read
import PlanArchive.Proofs.Archive.Tree
import PlanArchive.Proofs.Document.Encoding
import PlanArchive.Proofs.Store.Memory

/-!
# Reading looks at the tree only

What a plan is read as depends on the documents below it and on no others (`read_congr`): the walk
of a reader follows the same references as `Below`.
-/

namespace PlanArchive

theorem Slots.mapM_congr {ε α β : Type} {f g : Slot → α → Except ε β} {slots : Slots α}
    (same : ∀ slot, ∀ x ∈ slots.toList, f slot x = g slot x) : slots.mapM f = slots.mapM g := by
  simp only [toList, List.forall_mem_cons] at same
  simp only [mapM, (same _).1, (same _).2.1, (same _).2.2.1, (same _).2.2.2.1, (same _).2.2.2.2.1]

namespace Archive

variable {a : Archive} {s t : MemoryStore} {root : EntityRef} {planId id : Uuid}

/-- What is fetched is decided by what is stored at the place of the entity. -/
theorem fetch_eq {δ : Type} (a : Archive) (parse : Json → Option δ) (operation : Operation)
    (kind : EntityKind) (id : Uuid) (s : MemoryStore) :
    a.fetch parse operation kind id s = match s.contents.find? (a.key kind id) with
      | none => .error (.notFound kind id)
      | some item =>
        match parse item.doc with
        | some d => .ok (d, item.token)
        | none =>
          .error (.decode operation kind id (.field (.json kind.collection.name .malformed))) := by
  have reading : DocumentStore.read s (a.key kind id) = s.read (a.key kind id) := rfl
  rw [fetch, reading, MemoryStore.read_eq]
  cases s.contents.find? (a.key kind id) with
  | none => rfl
  | some item => rfl

theorem fetch_eq_ok {δ : Type} {parse : Json → Option δ} {operation : Operation}
    {kind : EntityKind} {d : δ} {token : VersionToken} :
    a.fetch parse operation kind id s = .ok (d, token) ↔
      ∃ item, s.contents.find? (a.key kind id) = some item ∧ parse item.doc = some d ∧
        item.token = token := by
  rw [fetch_eq]
  cases s.contents.find? (a.key kind id) with
  | none => simp
  | some item => cases parsed : parse item.doc with
    | none => simp [parsed]
    | some stored => simp [parsed]

theorem fetch_congr {δ : Type} (parse : Json → Option δ) (operation : Operation)
    {kind : EntityKind}
    (same : t.contents.find? (a.key kind id) = s.contents.find? (a.key kind id)) :
    a.fetch parse operation kind id t = a.fetch parse operation kind id s := by
  rw [fetch_eq, fetch_eq, same]

/-- A document that was fetched is the node of its entity. -/
theorem node?_of_fetch {δ : Type} {parse : Json → Option δ} (wrap : δ → Document)
    {operation : Operation} {kind : EntityKind} {d : δ} {token : VersionToken}
    (parses : ∀ v, Document.ofJson? kind v = (parse v).map wrap)
    (fetched : a.fetch parse operation kind id s = .ok (d, token)) :
    a.node? s.contents (kind, id) = some (wrap d).node := by
  obtain ⟨item, stored, parsed, _⟩ := fetch_eq_ok.mp fetched
  simp [node?, document?, stored, parses, parsed]

theorem readActions_congr (same : a.SameBelow s.contents t.contents root) {ids : List Uuid}
    (below : ∀ x ∈ ids, a.Below s.contents root (.action, x)) :
    ids.mapM (a.readAction t planId) = ids.mapM (a.readAction s planId) := by
  apply Except.mapM_congr
  intro x member
  rw [readAction, readAction, fetch_congr _ _ (same _ (below x member))]

theorem readChecks_congr (same : a.SameBelow s.contents t.contents root)
    (below : a.Below s.contents root (.checks, id)) :
    a.readChecks t planId id = a.readChecks s planId id := by
  rw [readChecks, readChecks, fetch_congr _ _ (same _ below)]
  apply Except.bind_congr
  rintro ⟨d, token⟩ fetched
  have isNode := node?_of_fetch .checks (fun _ => rfl) fetched
  have below := fun x member => Below.child below isNode (List.mem_map.mpr ⟨x, member, rfl⟩)
  dsimp only
  rw [readActions_congr same below]

theorem readSlots_congr (same : a.SameBelow s.contents t.contents root) (kind : EntityKind)
    (ownerId : Uuid) {refs : CheckRefs}
    (below : ∀ x ∈ CheckRefs.ids refs, a.Below s.contents root (.checks, x)) :
    a.readSlots t planId kind ownerId refs = a.readSlots s planId kind ownerId refs := by
  rw [readSlots, readSlots]
  apply Except.bind_congr
  intro ids isDecoded
  have decodes : refs.decode = .ok ids := by
    cases result : refs.decode with
    | error e =>
      rw [result] at isDecoded
      cases isDecoded
    | ok others =>
      rw [result] at isDecoded
      cases isDecoded
      rfl
  apply Slots.mapM_congr
  intro slot x isSlot
  cases x with
  | none => rfl
  | some x =>
    have isPresent : x ∈ CheckRefs.ids refs := by
      simp only [CheckRefs.ids, decodes]
      exact List.mem_filterMap.mpr ⟨some x, isSlot, rfl⟩
    rw [readSlot, readSlot, readChecks_congr same (below x isPresent)]

theorem readSequence_congr (same : a.SameBelow s.contents t.contents root)
    (below : a.Below s.contents root (.sequence, id)) :
    a.readSequence t planId id = a.readSequence s planId id := by
  rw [readSequence, readSequence, fetch_congr _ _ (same _ below)]
  apply Except.bind_congr
  rintro ⟨d, token⟩ fetched
  have isNode := node?_of_fetch .sequence (fun _ => rfl) fetched
  have below := fun x member => Below.child below isNode (List.mem_map.mpr ⟨x, member, rfl⟩)
  dsimp only
  rw [readActions_congr same below]

theorem readBlock_congr (same : a.SameBelow s.contents t.contents root)
    (below : a.Below s.contents root (.block, id)) :
    a.readBlock t planId id = a.readBlock s planId id := by
  rw [readBlock, readBlock, fetch_congr _ _ (same _ below)]
  apply Except.bind_congr
  rintro ⟨d, token⟩ fetched
  have isNode := node?_of_fetch .block (fun _ => rfl) fetched
  have checksBelow := fun x member =>
    Below.child below isNode (List.mem_append_left _ (List.mem_map.mpr ⟨x, member, rfl⟩))
  have sequences : d.sequences.mapM (a.readSequence t planId) =
      d.sequences.mapM (a.readSequence s planId) := by
    apply Except.mapM_congr
    intro x member
    exact readSequence_congr same
      (.child below isNode (List.mem_append_right _ (List.mem_map.mpr ⟨x, member, rfl⟩)))
  dsimp only
  rw [readSlots_congr same .block id checksBelow, sequences]

/-- A plan is read alike from stores that hold the same documents below it. -/
theorem read_congr (same : a.SameBelow s.contents t.contents (.plan, id)) :
    a.read t id = a.read s id := by
  rw [read, read, fetch_congr _ _ (same (.plan, id) .root)]
  apply Except.bind_congr
  rintro ⟨d, token⟩ fetched
  have isNode := node?_of_fetch .plan (fun _ => rfl) fetched
  have checksBelow := fun x member =>
    Below.child .root isNode (List.mem_append_left _ (List.mem_map.mpr ⟨x, member, rfl⟩))
  have blocks : d.blocks.mapM (a.readBlock t id) = d.blocks.mapM (a.readBlock s id) := by
    apply Except.mapM_congr
    intro x member
    exact readBlock_congr same
      (.child .root isNode (List.mem_append_right _ (List.mem_map.mpr ⟨x, member, rfl⟩)))
  dsimp only
  rw [readSlots_congr same .plan id checksBelow, blocks]

end Archive

end PlanArchive
