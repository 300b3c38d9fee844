import PlanArchive.Proofs.Archive.RoundTrip
import PlanArchive.Proofs.Archive.Sweep

/-!
# Whose a child is

Three calls decide whether a stored child belongs to a plan. Reading compares the identifier that
the document was parsed to, creating parses the text in the document, and the sweep after a lost
plan asks the database for one text. The first two come to the same, whatever spelling of the
identifier the text is (`reads_iff`, `takesOver_iff`). The sweep finds the canonical spelling only
(`sweeps_iff`): a child whose text is another spelling can be read and taken over and is never
swept. The archive writes no such text, so in a partition that it laid out the three agree.
-/

namespace PlanArchive

/-- The document names a plan: its text for the owner is some spelling of the identifier. -/
def NamesPlan (doc : Json) (planId : Uuid) : Prop :=
  ∃ text, Field.text? doc Field.planId = some text ∧ Uuid.parse? text = some planId

/-- The document has the canonical text of a plan's identifier for its owner. -/
def SpellsPlan (doc : Json) (planId : Uuid) : Prop :=
  Field.text? doc Field.planId = some planId.toText

instance (doc : Json) (planId : Uuid) : Decidable (SpellsPlan doc planId) := by
  unfold SpellsPlan
  infer_instance

theorem SpellsPlan.names {doc : Json} {planId : Uuid} (spells : SpellsPlan doc planId) :
    NamesPlan doc planId :=
  ⟨_, spells, planId.parse?_toText⟩

theorem namesPlan_iff {doc : Json} {planId : Uuid} :
    NamesPlan doc planId ↔ Field.id? doc Field.planId = some planId :=
  Option.bind_eq_some_iff.symm

/-- What is parsed as a document of a child has its owner from the field of that name. -/
theorem Document.owner_of_ofJson? {kind : EntityKind} {v : Json} {d : Document}
    (isChild : kind ≠ .plan) (parsed : ofJson? kind v = some d) :
    Field.id? v Field.planId = some d.node.owner := by
  cases kind
  case plan => exact absurd rfl isChild
  all_goals
    obtain ⟨fields, read, rfl⟩ := Option.map_eq_some_iff.mp parsed
    repeat obtain ⟨_, _, read⟩ := exists_of_bind read
    cases read
    assumption

/-- Replacing a document never reports that its place is taken. -/
theorem MemoryStore.isConflict_of_replace {s t : MemoryStore} {key : DocumentKey} {doc : Json}
    {demanded : Option VersionToken} {e : StoreError}
    (failed : s.replace key doc demanded = (.error e, t)) : e.isConflict = false := by
  unfold replace at failed
  rcases admitting_cases failed with ⟨_, refused⟩ | ⟨u, _, replaced⟩
  · cases refused
    rfl
  · cases found : u.current key demanded with
    | ok item =>
      rw [found] at replaced
      cases replaced
    | error why =>
      rw [found] at replaced
      cases replaced
      unfold current at found
      split at found
      · cases found
        rfl
      · split at found
        · cases found
        · split at found
          · cases found
          · cases found
            rfl

namespace Archive

variable {a : Archive} {s : MemoryStore} {planId : Uuid} {p : PendingDocument} {item : Item}
  {d : Document}

/-! ## The three tests -/

/-- A child can be read as part of a plan exactly when its document names the plan. -/
theorem reads_iff (isChild : p.kind ≠ .plan) (parsed : Document.ofJson? p.kind item.doc = some d) :
    checkOwner p.kind p.id d.node.owner planId = .ok () ↔ NamesPlan item.doc planId := by
  rw [namesPlan_iff, Document.owner_of_ofJson? isChild parsed, checkOwner]
  by_cases same : d.node.owner = planId <;> simp [same]

/-- A create takes over a child exactly when its document names the plan; else it reports that the
identifier is taken. -/
theorem takesOver_iff (stored : s.contents.find? (a.place p) = some item) :
    (a.takeOver planId p s).1 ≠ .error (.alreadyExists p.kind p.id) ↔
      NamesPlan item.doc planId := by
  have reading : DocumentStore.read s (a.place p) = .ok item := MemoryStore.read_eq_ok.mpr stored
  rw [namesPlan_iff, ← owner?]
  by_cases owned : owner? item.doc = some planId
  · refine iff_of_true (fun isTaken => ?_) owned
    generalize replaced : DocumentStore.replace s (a.place p) p.doc (some item.token) = outcome
      at *
    obtain ⟨result, t⟩ := outcome
    cases result with
    | ok token => simp [takeOver, reading, owned, replaced] at isTaken
    | error e =>
      simp only [takeOver, reading, if_pos owned, replaced, Except.error.injEq] at isTaken
      have isConflict := ArchiveError.isConflict_of_ofStore isTaken
      have notConflict : e.isConflict = false := MemoryStore.isConflict_of_replace replaced
      rw [notConflict] at isConflict
      cases isConflict
  · refine iff_of_false (fun notTaken => notTaken ?_) owned
    simp [takeOver, reading, owned]

/-- Without faults a child that names the plan is replaced. -/
theorem takeOver_of_names (isChild : p.kind ≠ .plan)
    (stored : s.contents.find? (a.place p) = some item) (faultless : s.Faultless)
    (names : NamesPlan item.doc planId) :
    ∃ token t, a.takeOver planId p s = (.ok token, t) ∧ s.Puts (a.place p) p.doc token t := by
  have isOpen : a.Open planId s.contents p :=
    .inr ⟨isChild, item, stored, namesPlan_iff.mp names⟩
  rcases takeOver_cases planId stored with ⟨_, _, _, _, refused⟩ | ⟨token, t, taken, _, puts⟩
  · exact absurd isOpen (refused.closed faultless)
  · exact ⟨token, t, taken, puts⟩

/-- A sweep finds a child exactly when its document has the canonical text of the plan. -/
theorem sweeps_iff (stored : s.contents.find? (a.place p) = some item) :
    ∃ items, a.childrenOfKind planId p.kind s = .ok items ∧
      (item ∈ items ↔ SpellsPlan item.doc planId) := by
  have isItem : item ∈ s.contents.itemsIn a.part p.kind.collection :=
    Contents.mem_itemsIn.mpr ⟨p.id, stored⟩
  exact ⟨_, rfl, mem_childrenOf.trans (and_iff_right isItem)⟩

/-! ## Where they agree -/

/-- The archive writes the canonical text, so what names a plan there spells it. -/
theorem LaidOut.spells_of_names (laidOut : a.LaidOut s.contents) (isChild : p.kind ≠ .plan)
    (stored : s.contents.find? (a.place p) = some item) (names : NamesPlan item.doc planId) :
    SpellsPlan item.doc planId := by
  obtain ⟨n, _, _, isOwner⟩ := laidOut.child_fields isChild stored
  obtain ⟨text, hasText, denotes⟩ := names
  cases Option.some.inj (isOwner.symm.trans hasText)
  rw [Uuid.parse?_toText, Option.some.injEq] at denotes
  rw [SpellsPlan, isOwner, denotes]

/-- Whether a stored child is one of a plan is decided alike by reads and by creates, for every
spelling of the identifier in its document. A sweep finds those of them whose text is the canonical
one and nothing else. So the three agree on every child but those that name the plan in another
spelling, and in a partition that archives laid out they agree on every child. -/
theorem ownership_tests (isChild : p.kind ≠ .plan)
    (stored : s.contents.find? (a.place p) = some item)
    (parsed : Document.ofJson? p.kind item.doc = some d) :
    (checkOwner p.kind p.id d.node.owner planId = .ok () ↔ NamesPlan item.doc planId) ∧
      ((a.takeOver planId p s).1 ≠ .error (.alreadyExists p.kind p.id) ↔
        NamesPlan item.doc planId) ∧
      (s.Faultless → NamesPlan item.doc planId →
        ∃ token t, a.takeOver planId p s = (.ok token, t) ∧ s.Puts (a.place p) p.doc token t) ∧
      (∃ items, a.childrenOfKind planId p.kind s = .ok items ∧
        (item ∈ items ↔ SpellsPlan item.doc planId)) ∧
      (SpellsPlan item.doc planId → NamesPlan item.doc planId) ∧
      (a.LaidOut s.contents → NamesPlan item.doc planId → SpellsPlan item.doc planId) :=
  ⟨reads_iff isChild parsed, takesOver_iff stored, takeOver_of_names isChild stored,
    sweeps_iff stored, SpellsPlan.names, fun laidOut => laidOut.spells_of_names isChild stored⟩

/-! ### Checks with some text for their plan -/

/-- Checks whose document has a given text for the plan that they belong to. -/
def checksOwnedBy (owner : String) : Json :=
  .obj [("partitionKey", .str "plans"), (Field.id, .str (numbered 2).toText), ("key", .str ""),
    (Field.planId, .str owner), ("actions", .arr []), ("delay", .ofInt64 0),
    (Field.status, .ofInt64 0), (Field.start, .ofInt64 0), (Field.finish, .ofInt64 0)]

/-- A store with these checks alone. -/
def withChecks (owner : String) : MemoryStore :=
  (MemoryStore.empty.commit (demo.key .checks (numbered 2)) (checksOwnedBy owner)).2

/-- A create of checks in the same place. -/
def newChecks : PendingDocument := ⟨.checks, numbered 2, checksOwnedBy (numbered 1).toText⟩

theorem withChecks_find? (owner : String) (key : DocumentKey) :
    (withChecks owner).contents.find? key =
      if key = demo.place newChecks then some ⟨checksOwnedBy owner, .minted 0⟩ else none :=
  Contents.find?_put ..

/-- The tests on checks with the text that the archive writes: all of them find that the checks are
of the plan. -/
theorem ownership_tests_canonical :
    let text := (numbered 1).toText
    let s := withChecks text
    (∃ d, Document.ofJson? .checks (checksOwnedBy text) = some d ∧
      checkOwner .checks (numbered 2) d.node.owner (numbered 1) = .ok ()) ∧
      (∃ token t, demo.takeOver (numbered 1) newChecks s = (.ok token, t)) ∧
      ∃ items, demo.childrenOfKind (numbered 1) .checks s = .ok items ∧
        ⟨checksOwnedBy text, .minted 0⟩ ∈ items := by
  intro text s
  let d : Document := .checks ⟨"plans", numbered 2, "", numbered 1, [], 0, ⟨0, 0, 0⟩⟩
  have isDocument : checksOwnedBy text = d.toJson := rfl
  have parsed : Document.ofJson? newChecks.kind (checksOwnedBy text) = some d :=
    isDocument ▸ d.ofJson?_toJson
  have stored := (withChecks_find? text (demo.place newChecks)).trans (if_pos rfl)
  have spells : SpellsPlan (checksOwnedBy text) (numbered 1) := rfl
  obtain ⟨reads, _, replaces, ⟨items, found, sweeps⟩, _⟩ :=
    @ownership_tests demo s (numbered 1) newChecks _ d (by decide) stored parsed
  obtain ⟨token, t, taken, _⟩ := replaces rfl spells.names
  exact ⟨⟨d, parsed, reads.mpr spells.names⟩, ⟨token, t, taken⟩, items, found, sweeps.mpr spells⟩

/-- Checks that name their plan without hyphens. They can be read as part of it and are taken over
by a create, and deleting the plan, which is not stored, leaves them where they are. -/
theorem never_swept_without_hyphens :
    let s := withChecks "00000000000000000000000000000001"
    (∃ d, Document.ofJson? .checks (checksOwnedBy "00000000000000000000000000000001") = some d ∧
      checkOwner .checks (numbered 2) d.node.owner (numbered 1) = .ok ()) ∧
      (∃ t, demo.takeOver (numbered 1) newChecks s = (.ok (.minted 1), t)) ∧
      demo.childrenOfKind (numbered 1) .checks s = .ok [] ∧
      demo.delete (numbered 1) s = (.ok (), s) := by
  intro s
  have unmarked : ∀ e, ¬ demo.Marked s.contents (numbered 1) e := by
    rintro e ⟨_, item, stored, spelt⟩
    rw [withChecks_find?] at stored
    split at stored
    · cases stored
      exact absurd spelt (by decide)
    · cases stored
  exact ⟨⟨_, rfl, rfl⟩, ⟨_, rfl⟩, childrenOfKind_of_unmarked (by decide) unmarked,
    delete_of_unmarked rfl rfl unmarked⟩

end Archive

end PlanArchive
