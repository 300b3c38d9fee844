import PlanArchive.Proofs.Archive.RoundTrip
import PlanArchive.Proofs.Archive.Tokens

/-!
# What reading a plan looks at

Reading a plan visits the entities below it in a fixed order: an entity before its children, checks
in the order of their slots before blocks or sequences, and lists in order (`visited`). It comes to
an error exactly when one of the documents on this way is not in order for its place, and then the
first of them decides which (`read_resolves`). The documents themselves may be anything, as long as
no valid identifier in one is that of another place.
-/

namespace PlanArchive

theorem Slots.verdict_mapM {ε α β : Type} {step : α → Except ε β} {slots : Slots α} :
    Except.verdict (slots.mapM fun _ => step) =
      forM slots.toList fun x => Except.verdict (step x) := by
  obtain ⟨bypass, pre, post, cont, deferred⟩ := slots
  simp only [mapM, Except.verdict_bind, toList, List.forM_cons, List.forM_nil]
  cases step bypass <;> cases step pre <;> cases step post <;> cases step cont <;>
    cases step deferred <;> rfl

theorem Slots.forM_present {ε α : Type} {check : Option α → Except ε Unit}
    (ofNone : check none = .ok ()) {slots : Slots (Option α)} :
    forM slots.toList check = forM slots.present fun x => check (some x) := by
  rw [present]
  induction slots.toList with
  | nil => rfl
  | cons x rest inductionHypothesis =>
    cases x with
    | none =>
      rw [List.forM_cons, ofNone]
      exact inductionHypothesis
    | some x =>
      rw [List.filterMap_cons_some (f := id) rfl, List.forM_cons, List.forM_cons,
        inductionHypothesis]

/-! ## Decoded documents -/

theorem ChecksDocument.decode_eq_bare {d : ChecksDocument} {token : VersionToken} {x : Checks}
    (decodes : d.decode token = .ok x) : d.decode token = .ok { x with actions := [] } := by
  rw [decodes]
  simp only [decode, Except.bind_eq_ok, pure, Except.pure, Except.ok.injEq] at decodes
  grind

theorem SequenceDocument.decode_eq_bare {d : SequenceDocument} {token : VersionToken}
    {x : Sequence} (decodes : d.decode token = .ok x) :
    d.decode token = .ok { x with actions := [] } := by
  rw [decodes]
  simp only [decode, Except.bind_eq_ok, pure, Except.pure, Except.ok.injEq] at decodes
  grind

theorem BlockDocument.decode_eq_bare {d : BlockDocument} {token : VersionToken} {x : Block}
    (decodes : d.decode token = .ok x) :
    d.decode token = .ok { x with checks := .fill none, sequences := [] } := by
  rw [decodes]
  simp only [decode, Except.bind_eq_ok, pure, Except.pure, Except.ok.injEq] at decodes
  grind

theorem PlanDocument.decode_eq_bare {d : PlanDocument} {token : VersionToken} {x : Plan}
    (decodes : d.decode token = .ok x) :
    d.decode token = .ok { x with checks := .fill none, blocks := [] } := by
  rw [decodes]
  simp only [decode, Except.bind_eq_ok] at decodes
  obtain ⟨_, _, _, _, _, _, decodes⟩ := decodes
  split at decodes <;> cases decodes
  rfl

/-- Whether a document decodes, with its payloads and its references to checks. -/
def Document.decode (registry : Registry) (token : VersionToken) :
    Document → Except FieldError Unit
  | .plan d => do
    let _ ← d.decode token
    Except.verdict d.checks.decode
  | .block d => do
    let _ ← d.decode token
    Except.verdict d.checks.decode
  | .checks d => Except.verdict (d.decode token)
  | .sequence d => Except.verdict (d.decode token)
  | .action d => Except.verdict (d.decode token registry)

namespace Archive

variable {a : Archive} {c : Contents} {s : MemoryStore} {root e : EntityRef} {planId id : Uuid}

/-! ## The way of a reader -/

/-- The entities that are visited from one, no deeper than a bound. -/
def visited (a : Archive) (c : Contents) : Nat → EntityRef → List EntityRef
  | 0, _ => []
  | depth + 1, e => e ::
    match a.node? c e with
    | none => []
    | some n => n.children.flatMap (a.visited c depth)

/-- A document below a plan must belong to it. -/
def checkChild (planId : Uuid) (e : EntityRef) (d : Document) : Except ArchiveError Unit :=
  match e.1 with
  | .plan => .ok ()
  | kind => checkOwner kind e.2 d.node.owner planId

/-- A document must decode, and one below a plan must belong to it. -/
def judge (a : Archive) (planId : Uuid) (e : EntityRef) (d : Document) (token : VersionToken) :
    Except ArchiveError Unit := do
  checkChild planId e d
  decoded .read e.1 e.2 (d.decode a.registry token)

/-- What reading a plan makes of one document. -/
def inspect (a : Archive) (s : MemoryStore) (planId : Uuid) (e : EntityRef) :
    Except ArchiveError Unit := do
  let (d, token) ← a.fetch (Document.ofJson? e.1) .read e.1 e.2 s
  a.judge planId e d token

/-- A reader that fetches a document and then judges it and visits its children in order visits
what is below it in order. -/
theorem verdict_fetch {δ α : Type} {parse : Json → Option δ} {kind : EntityKind}
    (wrap : δ → Document)
    (parses : ∀ v, Document.ofJson? kind v = (parse v).map wrap) {depth : Nat}
    {next : δ × VersionToken → Except ArchiveError α}
    (resolves : ∀ item d, s.contents.find? (a.key kind id) = some item → parse item.doc = some d →
      Except.verdict (next (d, item.token)) =
        a.judge planId (kind, id) (wrap d) item.token >>= fun _ =>
          forM (wrap d).node.children fun child =>
            forM (a.visited s.contents depth child) (a.inspect s planId)) :
    Except.verdict (a.fetch parse .read kind id s >>= next) =
      forM (a.visited s.contents (depth + 1) (kind, id)) (a.inspect s planId) := by
  rw [visited, List.forM_cons, inspect, fetch_eq, fetch_eq, node?, document?, Except.verdict_bind]
  cases stored : s.contents.find? (a.key kind id) with
  | none => rfl
  | some item =>
    simp only [parses, Option.bind_some]
    cases parsed : parse item.doc with
    | none => rfl
    | some d =>
      have resolved := resolves item d stored parsed
      simp only [Option.map_some, Except.forM_flatMap]
      exact resolved

/-- A document that is there carries no valid identifier but that of its place. -/
def OwnIds (a : Archive) (c : Contents) : Prop :=
  ∀ (e : EntityRef) (item : Item), c.find? (a.key e.1 e.2) = some item →
    ∀ x, Field.id? item.doc Field.id = some x → x = e.2

theorem ownIds_of_entries
    (each : ∀ entry ∈ c.entries, ∀ x ∈ Field.id? entry.2.doc Field.id, x = entry.1.id) :
    a.OwnIds c := by
  intro e item stored x isId
  exact each _ ((List.lookup_eq_some_of_nodup c.distinct).mp stored) x isId

theorem OwnIds.id_eq (ownIds : a.OwnIds c) {kind : EntityKind} {item : Item} {d : Document}
    (stored : c.find? (a.key kind id) = some item)
    (parsed : Document.ofJson? kind item.doc = some d) : d.node.id = id :=
  ownIds (kind, id) item stored _ (Document.fields_of_ofJson? parsed).2

theorem verdict_decoded {α : Type} (operation : Operation) (kind : EntityKind)
    (result : Except FieldError α) :
    Except.verdict (decoded operation kind id result) =
      decoded operation kind id (Except.verdict result) := by
  cases result <;> rfl

theorem decoded_bind {α β : Type} (operation : Operation) (kind : EntityKind)
    (first : Except FieldError α) (next : α → Except FieldError β) :
    decoded operation kind id (first >>= next) =
      decoded operation kind id first >>= fun v => decoded operation kind id (next v) := by
  cases first <;> rfl

/-! ## What each reader visits -/

/-- A list of readers visits what each of them does, one after the other. -/
theorem verdict_readItems {α : Type} {kind : EntityKind} {depth : Nat} {ids : List Uuid}
    {reader : Uuid → Except ArchiveError α}
    (reads : ∀ x, Except.verdict (reader x) =
      forM (a.visited s.contents depth (kind, x)) (a.inspect s planId)) :
    Except.verdict (ids.mapM reader) =
      forM (ids.map fun x => ((kind, x) : EntityRef)) fun child =>
        forM (a.visited s.contents depth child) (a.inspect s planId) := by
  simp only [Except.verdict_mapM, reads, List.forM_map]

theorem verdict_readAction (ownIds : a.OwnIds s.contents) (depth : Nat) (id : Uuid) :
    Except.verdict (a.readAction s planId id) =
      forM (a.visited s.contents (depth + 1) (.action, id)) (a.inspect s planId) := by
  apply verdict_fetch .action fun _ => rfl
  intro item d stored parsed
  have isId : d.id = id := ownIds.id_eq stored (congrArg (Option.map Document.action) parsed)
  simp only [decodeAction, isId, judge, checkChild, Document.decode, Document.node,
    List.forM_nil, Except.verdict_bind, ← verdict_decoded, bind_assoc, Except.bind_pure_unit,
    Except.verdict_verdict]

theorem verdict_readChecks (ownIds : a.OwnIds s.contents) (depth : Nat) (id : Uuid) :
    Except.verdict (a.readChecks s planId id) =
      forM (a.visited s.contents (depth + 2) (.checks, id)) (a.inspect s planId) := by
  apply verdict_fetch .checks fun _ => rfl
  intro item d stored parsed
  simp only [judge, checkChild, Document.decode, Document.node, Except.verdict_bind,
    ← verdict_decoded, bind_assoc, Except.verdict_seq, Except.verdict_pure,
    Except.bind_pure_unit, verdict_readItems (verdict_readAction ownIds depth)]

theorem verdict_readSequence (ownIds : a.OwnIds s.contents) (depth : Nat) (id : Uuid) :
    Except.verdict (a.readSequence s planId id) =
      forM (a.visited s.contents (depth + 2) (.sequence, id)) (a.inspect s planId) := by
  apply verdict_fetch .sequence fun _ => rfl
  intro item d stored parsed
  simp only [judge, checkChild, Document.decode, Document.node, Except.verdict_bind,
    ← verdict_decoded, bind_assoc, Except.verdict_seq, Except.verdict_pure,
    Except.bind_pure_unit, verdict_readItems (verdict_readAction ownIds depth)]

/-- Reading the checks in slots fails when a reference is no identifier, before it visits any. -/
theorem readSlots_seq {α : Type} (ownIds : a.OwnIds s.contents) (depth : Nat) (kind : EntityKind)
    (ownerId : Uuid) (refs : CheckRefs) (next : Except ArchiveError α) :
    (a.readSlots s planId kind ownerId refs >>= fun _ => next) =
      decoded .read kind ownerId refs.decode >>= fun _ =>
        (forM ((CheckRefs.ids refs).map fun x => ((.checks, x) : EntityRef)) fun child =>
          forM (a.visited s.contents (depth + 2) child)
            (a.inspect s planId)) >>= fun _ => next := by
  rw [readSlots, CheckRefs.ids, bind_assoc]
  cases refs.decode with
  | error e => rfl
  | ok ids =>
    change ((ids.mapM fun _ => a.readSlot s planId) >>= fun _ => next) =
      (forM (ids.present.map fun x => ((.checks, x) : EntityRef)) _ >>= fun _ => next)
    rw [← Except.verdict_seq, Slots.verdict_mapM, Slots.forM_present rfl, List.forM_map]
    simp only [readSlot, Except.verdict_map, verdict_readChecks ownIds depth]

theorem verdict_readBlock (ownIds : a.OwnIds s.contents) (depth : Nat) (id : Uuid) :
    Except.verdict (a.readBlock s planId id) =
      forM (a.visited s.contents (depth + 3) (.block, id)) (a.inspect s planId) := by
  apply verdict_fetch .block fun _ => rfl
  intro item d stored parsed
  simp only [judge, checkChild, Document.decode, Document.node, Except.verdict_bind,
    ← verdict_decoded, bind_assoc, Except.verdict_seq, Except.verdict_pure,
    Except.bind_pure_unit, decoded_bind, List.forM_append, readSlots_seq ownIds depth,
    verdict_readItems (verdict_readSequence ownIds depth)]

theorem verdict_read (ownIds : a.OwnIds s.contents) (id : Uuid) :
    Except.verdict (a.read s id) =
      forM (a.visited s.contents 4 (.plan, id)) (a.inspect s id) := by
  apply verdict_fetch .plan fun _ => rfl
  intro item d stored parsed
  simp only [judge, checkChild, Document.decode, Document.node, Except.verdict_bind,
    ← verdict_decoded, bind_assoc, Except.verdict_seq, Except.verdict_pure,
    Except.bind_pure_unit, decoded_bind, List.forM_append, readSlots_seq ownIds 1,
    verdict_readItems (verdict_readBlock ownIds 0)]
  rfl

/-! ## Documents in order -/

/-- The document of an entity is there, is one of its kind, belongs to the plan and decodes. -/
def Intact (a : Archive) (c : Contents) (planId : Uuid) (e : EntityRef) : Prop :=
  ∃ item d, c.find? (a.key e.1 e.2) = some item ∧ Document.ofJson? e.1 item.doc = some d ∧
    (e.1 ≠ .plan → d.node.owner = planId) ∧ d.decode a.registry item.token = .ok ()

/-- The error of a document that is not in order: it is missing, or it is there and does not decode
to an entity of the plan. -/
def Blames (a : Archive) (c : Contents) (e : EntityRef) (f : ArchiveError) : Prop :=
  c.find? (a.key e.1 e.2) = none ∧ f = .notFound e.1 e.2 ∨
    c.find? (a.key e.1 e.2) ≠ none ∧ ∃ fault, f = .decode .read e.1 e.2 fault

theorem checkChild_cases (planId : Uuid) (e : EntityRef) (d : Document) :
    (e.1 ≠ .plan → d.node.owner = planId) ∧ checkChild planId e d = .ok () ∨
      ¬ (e.1 ≠ .plan → d.node.owner = planId) ∧
        checkChild planId e d = .error (.decode .read e.1 e.2 (.foreign d.node.owner planId)) := by
  obtain ⟨kind, id⟩ := e
  cases kind <;> by_cases owned : d.node.owner = planId <;> simp [checkChild, checkOwner, owned]

theorem inspect_of_fetch_error (planId : Uuid) {f : ArchiveError}
    (failed : a.fetch (Document.ofJson? e.1) .read e.1 e.2 s = .error f) :
    a.inspect s planId e = .error f := by
  rw [inspect, failed]
  rfl

theorem inspect_of_fetch {d : Document} {token : VersionToken}
    (fetched : a.fetch (Document.ofJson? e.1) .read e.1 e.2 s = .ok (d, token)) :
    a.inspect s planId e = a.judge planId e d token := by
  rw [inspect, fetched]
  rfl

theorem inspect_cases (a : Archive) (s : MemoryStore) (planId : Uuid) (e : EntityRef) :
    a.Intact s.contents planId e ∧ a.inspect s planId e = .ok () ∨
      ¬ a.Intact s.contents planId e ∧
        ∃ f, a.inspect s planId e = .error f ∧ a.Blames s.contents e f := by
  cases stored : s.contents.find? (a.key e.1 e.2) with
  | none =>
    have failed := inspect_of_fetch_error planId (by rw [fetch_eq, stored])
    exact .inr ⟨by simp [Intact, stored], _, failed, .inl ⟨stored, rfl⟩⟩
  | some item =>
    have isStored : s.contents.find? (a.key e.1 e.2) ≠ none := by simp [stored]
    cases parsed : Document.ofJson? e.1 item.doc with
    | none =>
      have failed := inspect_of_fetch_error planId
        (by rw [fetch_eq, stored]; simp only [parsed]; rfl)
      exact .inr ⟨by simp [Intact, stored, parsed], _, failed, .inr ⟨isStored, _, rfl⟩⟩
    | some d =>
      rw [inspect_of_fetch (fetch_eq_ok.mpr ⟨item, stored, parsed, rfl⟩), judge]
      rcases checkChild_cases planId e d with ⟨owned, checked⟩ | ⟨foreign, failed⟩
      · rw [checked]
        cases decodes : d.decode a.registry item.token with
        | ok _ => exact .inl ⟨⟨item, d, stored, parsed, owned, decodes⟩, rfl⟩
        | error fault =>
          exact .inr ⟨by simp [Intact, stored, parsed, decodes], _, rfl, .inr ⟨isStored, _, rfl⟩⟩
      · rw [failed]
        refine .inr ⟨?_, _, rfl, .inr ⟨isStored, _, rfl⟩⟩
        simpa [Intact, stored, parsed] using fun owned => absurd owned foreign

theorem inspect_eq_ok : a.inspect s planId e = .ok () ↔ a.Intact s.contents planId e := by
  rcases a.inspect_cases s planId e with ⟨intact, isOk⟩ | ⟨broken, f, failed, _⟩
  · exact iff_of_true isOk intact
  · exact iff_of_false (by simp [failed]) broken

theorem inspect_eq_error {f : ArchiveError} (failed : a.inspect s planId e = .error f) :
    ¬ a.Intact s.contents planId e ∧ a.Blames s.contents e f := by
  rcases a.inspect_cases s planId e with ⟨_, isOk⟩ | ⟨broken, other, alsoFailed, blames⟩
  · cases isOk.symm.trans failed
  · cases alsoFailed.symm.trans failed
    exact ⟨broken, blames⟩

/-! ## What is visited is what is below -/

theorem level_lt_of_node? {n : Node} {child : EntityRef} (isNode : a.node? c e = some n)
    (refers : child ∈ n.children) : child.1.level < e.1.level := by
  obtain ⟨d, isDocument, rfl⟩ := Option.map_eq_some_iff.mp isNode
  obtain ⟨item, _, parsed⟩ := Option.bind_eq_some_iff.mp isDocument
  rw [← (Document.fields_of_ofJson? parsed).1]
  exact Document.level_lt_of_mem_children refers

theorem below_of_mem_visited {depth : Nat} (isVisited : e ∈ a.visited c depth root)
    {top : EntityRef} (below : a.Below c top root) : a.Below c top e := by
  induction depth generalizing root with
  | zero => cases isVisited
  | succ depth inductionHypothesis =>
    rcases List.mem_cons.mp isVisited with rfl | inRest
    · exact below
    · cases isNode : a.node? c root with
      | none => simp [isNode] at inRest
      | some n =>
        simp only [isNode, List.mem_flatMap] at inRest
        obtain ⟨child, refers, later⟩ := inRest
        exact inductionHypothesis later (below.child isNode refers)

/-- What is referred to from an entity that is visited is visited when the bound is not below the
levels that documents have. -/
theorem mem_visited_of_refers {depth : Nat} {n : Node} {child : EntityRef}
    (deep : root.1.level < depth) (isVisited : e ∈ a.visited c depth root)
    (isNode : a.node? c e = some n) (refers : child ∈ n.children) :
    child ∈ a.visited c depth root := by
  induction depth generalizing root with
  | zero => cases isVisited
  | succ depth inductionHypothesis =>
    rw [visited, List.mem_cons] at isVisited ⊢
    right
    rcases isVisited with rfl | inRest
    · have lower := level_lt_of_node? isNode refers
      obtain ⟨rest, rfl⟩ := Nat.exists_eq_succ_of_ne_zero (show depth ≠ 0 by omega)
      simp only [isNode, List.mem_flatMap]
      exact ⟨child, refers, List.mem_cons_self⟩
    · cases isRoot : a.node? c root with
      | none => simp [isRoot] at inRest
      | some m =>
        simp only [isRoot, List.mem_flatMap] at inRest ⊢
        obtain ⟨next, isNext, later⟩ := inRest
        have lower := level_lt_of_node? isRoot isNext
        exact ⟨next, isNext, inductionHypothesis (by omega) later⟩

/-- Reading a plan visits exactly what is below it. -/
theorem mem_visited_iff (a : Archive) (c : Contents) (id : Uuid) (e : EntityRef) :
    e ∈ a.visited c 4 (.plan, id) ↔ a.Below c (.plan, id) e := by
  constructor
  · exact fun isVisited => below_of_mem_visited isVisited .root
  · intro below
    induction below with
    | root => exact List.mem_cons_self
    | child _ isNode refers inductionHypothesis =>
      exact mem_visited_of_refers (Nat.lt_succ_self 3) inductionHypothesis isNode refers

/-! ## The tree that is read -/

/-- An action is what is stored under its identifier. -/
def StoresAction (a : Archive) (c : Contents) (x : Action) : Prop :=
  ∃ item d, c.find? (a.key .action x.id) = some item ∧ ActionDocument.ofJson? item.doc = some d ∧
    d.decode item.token a.registry = .ok x

/-- Checks are what is stored under their identifier, with an action for each reference in order. -/
def StoresChecks (a : Archive) (c : Contents) (x : Checks) : Prop :=
  ∃ item d, c.find? (a.key .checks x.id) = some item ∧ ChecksDocument.ofJson? item.doc = some d ∧
    d.decode item.token = .ok { x with actions := [] } ∧
    x.actions.map Action.id = d.actions ∧ ∀ y ∈ x.actions, a.StoresAction c y

/-- A sequence is what is stored under its identifier, with an action for each reference in
order. -/
def StoresSequence (a : Archive) (c : Contents) (x : Sequence) : Prop :=
  ∃ item d, c.find? (a.key .sequence x.id) = some item ∧
    SequenceDocument.ofJson? item.doc = some d ∧
    d.decode item.token = .ok { x with actions := [] } ∧
    x.actions.map Action.id = d.actions ∧ ∀ y ∈ x.actions, a.StoresAction c y

/-- The checks in slots are those that are referred to, each in the slot of its reference. -/
def StoresSlots (a : Archive) (c : Contents) (refs : CheckRefs) (checks : Slots (Option Checks)) :
    Prop :=
  refs.decode = .ok (checks.map (Option.map Checks.id)) ∧ ∀ y ∈ checks.present, a.StoresChecks c y

/-- A block is what is stored under its identifier, with checks for each reference in a slot and a
sequence for each reference in order. -/
def StoresBlock (a : Archive) (c : Contents) (x : Block) : Prop :=
  ∃ item d, c.find? (a.key .block x.id) = some item ∧ BlockDocument.ofJson? item.doc = some d ∧
    d.decode item.token = .ok { x with checks := .fill none, sequences := [] } ∧
    a.StoresSlots c d.checks x.checks ∧
    x.sequences.map Sequence.id = d.sequences ∧ ∀ y ∈ x.sequences, a.StoresSequence c y

/-- A plan is what is stored under its identifier, with checks for each reference in a slot and a
block for each reference in order. -/
def StoresPlan (a : Archive) (c : Contents) (x : Plan) : Prop :=
  ∃ item d, c.find? (a.key .plan x.id) = some item ∧ PlanDocument.ofJson? item.doc = some d ∧
    d.decode item.token = .ok { x with checks := .fill none, blocks := [] } ∧
    a.StoresSlots c d.checks x.checks ∧
    x.blocks.map Block.id = d.blocks ∧ ∀ y ∈ x.blocks, a.StoresBlock c y

theorem storesAction_of_read {x : Action} (ownIds : a.OwnIds s.contents)
    (isRead : a.readAction s planId id = .ok x) : x.id = id ∧ a.StoresAction s.contents x := by
  simp only [readAction, Except.bind_eq_ok, decodeAction, decoded_eq_ok] at isRead
  obtain ⟨⟨d, token⟩, fetched, _, _, decodes⟩ := isRead
  obtain ⟨item, stored, parsed, rfl⟩ := fetch_eq_ok.mp fetched
  have isId : x.id = id := (ActionDocument.revision_of_decode decodes).1.trans
    (ownIds.id_eq stored (congrArg (Option.map Document.action) parsed))
  exact ⟨isId, item, d, isId ▸ stored, parsed, decodes⟩

/-- Items that are read one by one are those of the references in order. -/
theorem stored_of_readItems {α : Type} {ids : List Uuid} {items : List α}
    {reader : Uuid → Except ArchiveError α} {idOf : α → Uuid} {Stored : α → Prop}
    (each : ∀ id x, reader id = .ok x → idOf x = id ∧ Stored x)
    (areRead : ids.mapM reader = .ok items) : items.map idOf = ids ∧ ∀ x ∈ items, Stored x := by
  have pairs := Except.mapM_eq_ok.mp areRead
  clear areRead
  induction pairs with
  | nil => exact ⟨rfl, by simp⟩
  | cons isRead _ inductionHypothesis =>
    obtain ⟨isId, isHeld⟩ := each _ _ isRead
    obtain ⟨restIds, restHeld⟩ := inductionHypothesis
    exact ⟨by rw [List.map_cons, isId, restIds], List.forall_mem_cons.mpr ⟨isHeld, restHeld⟩⟩

theorem storesChecks_of_read {x : Checks} (ownIds : a.OwnIds s.contents)
    (isRead : a.readChecks s planId id = .ok x) : x.id = id ∧ a.StoresChecks s.contents x := by
  simp only [readChecks, Except.bind_eq_ok, decoded_eq_ok, pure, Except.pure,
    Except.ok.injEq] at isRead
  obtain ⟨⟨d, token⟩, fetched, _, _, own, decodes, actions, actionsRead, rfl⟩ := isRead
  obtain ⟨item, stored, parsed, rfl⟩ := fetch_eq_ok.mp fetched
  have isId : own.id = id := (ChecksDocument.revision_of_decode decodes).1.trans
    (ownIds.id_eq stored (congrArg (Option.map Document.checks) parsed))
  have bare := ChecksDocument.decode_eq_bare decodes
  exact ⟨isId, item, d, isId ▸ stored, parsed, bare,
    stored_of_readItems (fun _ _ => storesAction_of_read ownIds) actionsRead⟩

theorem storesSequence_of_read {x : Sequence} (ownIds : a.OwnIds s.contents)
    (isRead : a.readSequence s planId id = .ok x) : x.id = id ∧ a.StoresSequence s.contents x := by
  simp only [readSequence, Except.bind_eq_ok, decoded_eq_ok, pure, Except.pure,
    Except.ok.injEq] at isRead
  obtain ⟨⟨d, token⟩, fetched, _, _, own, decodes, actions, actionsRead, rfl⟩ := isRead
  obtain ⟨item, stored, parsed, rfl⟩ := fetch_eq_ok.mp fetched
  have isId : own.id = id := (SequenceDocument.revision_of_decode decodes).1.trans
    (ownIds.id_eq stored (congrArg (Option.map Document.sequence) parsed))
  have bare := SequenceDocument.decode_eq_bare decodes
  exact ⟨isId, item, d, isId ▸ stored, parsed, bare,
    stored_of_readItems (fun _ _ => storesAction_of_read ownIds) actionsRead⟩

theorem storesChecks_of_readSlot {ref : Option Uuid} {x : Option Checks}
    (ownIds : a.OwnIds s.contents) (isRead : a.readSlot s planId ref = .ok x) :
    x.map Checks.id = ref ∧ ∀ y ∈ x, a.StoresChecks s.contents y := by
  cases ref with
  | none =>
    cases isRead
    exact ⟨rfl, by simp⟩
  | some id =>
    obtain ⟨y, isChecks, rfl⟩ : ∃ y, a.readChecks s planId id = .ok y ∧ some y = x := by
      rw [readSlot] at isRead
      cases found : a.readChecks s planId id with
      | error e => simp [found, Except.map] at isRead
      | ok y => exact ⟨y, rfl, by simpa [found, Except.map] using isRead⟩
    obtain ⟨isId, isHeld⟩ := storesChecks_of_read ownIds isChecks
    exact ⟨congrArg some isId, by simpa using isHeld⟩

theorem storesSlots_of_read {kind : EntityKind} {ownerId : Uuid} {refs : CheckRefs}
    {checks : Slots (Option Checks)} (ownIds : a.OwnIds s.contents)
    (areRead : a.readSlots s planId kind ownerId refs = .ok checks) :
    a.StoresSlots s.contents refs checks := by
  simp only [readSlots, Except.bind_eq_ok, decoded_eq_ok] at areRead
  obtain ⟨ids, decodes, slotsRead⟩ := areRead
  have held : ∀ y ∈ checks.present, a.StoresChecks s.contents y := by
    intro y present
    have isSlot : some y ∈ checks.toList := by simpa [Slots.present] using present
    obtain ⟨_, _, isRead⟩ := Slots.mem_of_mapM_result slotsRead isSlot
    exact (storesChecks_of_readSlot ownIds isRead).2 y rfl
  refine ⟨decodes.trans (congrArg _ ?_), held⟩
  simp only [Slots.mapM, Except.bind_eq_ok, pure, Except.pure, Except.ok.injEq] at slotsRead
  obtain ⟨_, bypass, _, pre, _, post, _, cont, _, deferred, rfl⟩ := slotsRead
  simp only [Slots.map, (storesChecks_of_readSlot ownIds bypass).1,
    (storesChecks_of_readSlot ownIds pre).1, (storesChecks_of_readSlot ownIds post).1,
    (storesChecks_of_readSlot ownIds cont).1, (storesChecks_of_readSlot ownIds deferred).1]

theorem storesBlock_of_read {x : Block} (ownIds : a.OwnIds s.contents)
    (isRead : a.readBlock s planId id = .ok x) : x.id = id ∧ a.StoresBlock s.contents x := by
  simp only [readBlock, Except.bind_eq_ok, decoded_eq_ok, pure, Except.pure,
    Except.ok.injEq] at isRead
  obtain ⟨⟨d, token⟩, fetched, _, _, own, decodes, checks, checksRead, sequences, sequencesRead,
    rfl⟩ := isRead
  obtain ⟨item, stored, parsed, rfl⟩ := fetch_eq_ok.mp fetched
  have isId : own.id = id := (BlockDocument.revision_of_decode decodes).1.trans
    (ownIds.id_eq stored (congrArg (Option.map Document.block) parsed))
  have bare := BlockDocument.decode_eq_bare decodes
  exact ⟨isId, item, d, isId ▸ stored, parsed, bare,
    storesSlots_of_read ownIds checksRead,
    stored_of_readItems (fun _ _ => storesSequence_of_read ownIds) sequencesRead⟩

theorem storesPlan_of_read {x : Plan} (ownIds : a.OwnIds s.contents)
    (isRead : a.read s id = .ok x) : x.id = id ∧ a.StoresPlan s.contents x := by
  simp only [read, Except.bind_eq_ok, decoded_eq_ok, pure, Except.pure, Except.ok.injEq] at isRead
  obtain ⟨⟨d, token⟩, fetched, own, decodes, checks, checksRead, blocks, blocksRead, rfl⟩ := isRead
  obtain ⟨item, stored, parsed, rfl⟩ := fetch_eq_ok.mp fetched
  have isId : own.id = id := (PlanDocument.revision_of_decode decodes).1.trans
    (ownIds.id_eq stored (congrArg (Option.map Document.plan) parsed))
  have bare := PlanDocument.decode_eq_bare decodes
  exact ⟨isId, item, d, isId ▸ stored, parsed, bare,
    storesSlots_of_read ownIds checksRead,
    stored_of_readItems (fun _ _ => storesBlock_of_read ownIds) blocksRead⟩

/-- Reading resolves exactly the tree that is referred to, or it fails at the first document that is
not in order. A plan is read when every document below it is in order, and then each entity of it is
what is stored for a reference. Otherwise the error is that of the first of the visited documents
that is not in order. -/
theorem read_resolves (ownIds : a.OwnIds s.contents) (id : Uuid) :
    ((∃ q, a.read s id = .ok q) ↔
        ∀ e, a.Below s.contents (.plan, id) e → a.Intact s.contents id e) ∧
      (∀ q, a.read s id = .ok q → q.id = id ∧ a.StoresPlan s.contents q) ∧
      ∀ f, a.read s id = .error f → ∃ before e after,
        a.visited s.contents 4 (.plan, id) = before ++ e :: after ∧
          (∀ x ∈ before, a.Intact s.contents id x) ∧ ¬ a.Intact s.contents id e ∧
          a.Blames s.contents e f := by
  refine ⟨?_, fun q => storesPlan_of_read ownIds, ?_⟩
  · rw [← Except.verdict_eq_ok, verdict_read ownIds, Except.forM_eq_ok]
    simp only [inspect_eq_ok, mem_visited_iff]
  · intro f failed
    rw [← Except.verdict_eq_error, verdict_read ownIds] at failed
    obtain ⟨before, e, after, split, succeeded, fails⟩ := Except.first_of_forM_eq_error failed
    exact ⟨before, e, after, split, fun x member => inspect_eq_ok.mp (succeeded x member),
      inspect_eq_error fails⟩

/-- A store with a plan whose sequence is missing. -/
def withoutSequence : MemoryStore :=
  let created := (demo.create demoPlan MemoryStore.empty).store
  { created with contents := created.contents.erase (demo.key .sequence (numbered 4)) }

theorem read_resolves_withoutSequence :
    demo.OwnIds withoutSequence.contents ∧
      demo.read withoutSequence demoPlan.id = .error (.notFound .sequence (numbered 4)) ∧
      ¬ (∀ e, demo.Below withoutSequence.contents (.plan, demoPlan.id) e →
        demo.Intact withoutSequence.contents demoPlan.id e) ∧
      ∃ before e after,
        demo.visited withoutSequence.contents 4 (.plan, demoPlan.id) = before ++ e :: after ∧
          (∀ x ∈ before, demo.Intact withoutSequence.contents demoPlan.id x) ∧
          ¬ demo.Intact withoutSequence.contents demoPlan.id e ∧
          demo.Blames withoutSequence.contents e (.notFound .sequence (numbered 4)) := by
  have ownIds : demo.OwnIds withoutSequence.contents := ownIds_of_entries (by decide +kernel)
  have failed : demo.read withoutSequence demoPlan.id =
      .error (.notFound .sequence (numbered 4)) := by decide +kernel
  obtain ⟨readable, _, blamed⟩ := read_resolves ownIds demoPlan.id
  refine ⟨ownIds, failed, fun intact => ?_, blamed _ failed⟩
  obtain ⟨q, isRead⟩ := readable.mpr intact
  cases failed.symm.trans isRead

end Archive

end PlanArchive
