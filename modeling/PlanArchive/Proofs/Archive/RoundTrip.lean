import PlanArchive.Proofs.Archive.Commit
import PlanArchive.Proofs.Archive.ReadBack
import PlanArchive.Proofs.Plan.States

/-!
# What is created is read back

A creation is refused with nothing done or writes documents of the plan in order (`create_cases`,
`Attempted`). `read_create`: a plan whose creation succeeded is read as its normal form, each entity
with the token that the creation recorded on it, whatever the store held before. The normal form is
the plan up to what documents have no values for, and leap seconds are among that
(`leap_second_not_kept`).
-/

namespace PlanArchive

theorem Plan.withoutTokens_stamp (p : Plan) (tokenOf : Uuid → VersionToken) :
    (p.mapStates (stamp tokenOf)).withoutTokens = p.withoutTokens := by
  rw [withoutTokens, mapStates_mapStates]
  rfl

namespace Archive

variable {a : Archive} {p : Plan} {s : MemoryStore}

theorem hasPlan_eq (a : Archive) (id : Uuid) (s : MemoryStore) :
    a.hasPlan id s = .ok (s.contents.find? (a.key .plan id)).isSome := by
  have reading : DocumentStore.read s (a.key .plan id) = s.read (a.key .plan id) := rfl
  rw [hasPlan, reading, MemoryStore.read_eq]
  cases s.contents.find? (a.key .plan id) with
  | none => rfl
  | some item => rfl

/-- What a creation came to that was let write documents of a plan. -/
structure Attempted (a : Archive) (p : Plan) (s : MemoryStore) (docs : List PendingDocument)
    (written : List WrittenDocument) : Prop where
  valid : a.validated p = .ok docs
  absent : s.contents.find? (a.key .plan p.id) = none
  writes : a.Writes p.id s.contents written (a.create p s).store.contents
  entity : (a.create p s).entity = recordTokens (written.map fun w => (w.1.id, w.2)) p
  minted : written.map Prod.snd = (List.range' s.minted written.length).map .minted
  /-- It succeeded with all documents written, or failed with the one after those written. -/
  ended : (a.create p s).result = .ok () ∧ written.map Prod.fst = docs ∨
    ∃ e q rest, (a.create p s).result = .error e ∧ docs = written.map Prod.fst ++ q :: rest ∧
      a.Refused p.id q (a.create p s).store.contents s.Faultless e

/-- Creating a plan is refused with nothing done, because the plan is not valid or is stored
already, or writes documents of it. -/
theorem create_cases (a : Archive) (p : Plan) (s : MemoryStore) :
    (∃ e, a.validated p = .error e ∧ a.create p s = ⟨.error e, p, s⟩) ∨
      (∃ docs, a.validated p = .ok docs) ∧ s.contents.find? (a.key .plan p.id) ≠ none ∧
        a.create p s = ⟨.error (.alreadyExists .plan p.id), p, s⟩ ∨
      ∃ docs written, a.Attempted p s docs written := by
  cases valid : a.validated p with
  | error e => exact .inl ⟨e, rfl, by simp only [create, valid]⟩
  | ok docs =>
    cases stored : s.contents.find? (a.key .plan p.id) with
    | some item =>
      have present : a.hasPlan p.id s = .ok true := by rw [hasPlan_eq, stored]; rfl
      exact .inr (.inl ⟨⟨docs, rfl⟩, by simp, by simp only [create, valid, present]⟩)
    | none =>
      have absent : a.hasPlan p.id s = .ok false := by rw [hasPlan_eq, stored]; rfl
      obtain ⟨written, writes, tokens, minted, ended⟩ := a.exists_committed p.id docs s
      have store : (a.create p s).store = (a.commit p.id docs s).store := by
        simp only [create, valid, absent]
      refine .inr (.inr ⟨docs, written, valid, stored, store ▸ writes, ?_, minted, ?_⟩)
      · simp only [create, valid, absent, tokens]
      · rw [store]
        rcases ended with ⟨succeeded, all⟩ | ⟨e, q, rest, failed, split, refused⟩
        · exact .inl ⟨by simp only [create, valid, absent, succeeded], all⟩
        · exact .inr ⟨e, q, rest, by simp only [create, valid, absent, failed], split, refused⟩

/-- A creation that succeeded has written all documents of a plan that was not stored. -/
theorem create_ok (created : (a.create p s).result = .ok ()) :
    ∃ docs written, a.validated p = .ok docs ∧ s.contents.find? (a.key .plan p.id) = none ∧
      a.Writes p.id s.contents written (a.create p s).store.contents ∧
      written.map Prod.fst = docs ∧
      (a.create p s).entity = recordTokens (written.map fun w => (w.1.id, w.2)) p := by
  rcases a.create_cases p s with ⟨e, _, refused⟩ | ⟨_, _, refused⟩ | ⟨docs, written, attempted⟩
  · rw [refused] at created
    cases created
  · rw [refused] at created
    cases created
  · rcases attempted.ended with ⟨_, all⟩ | ⟨e, _, _, failed, _⟩
    · exact ⟨docs, written, attempted.valid, attempted.absent, attempted.writes, all,
        attempted.entity⟩
    · cases created.symm.trans failed

/-- Of documents with different identifiers each has its token recorded under its own. -/
theorem lookup_token {written : List WrittenDocument}
    (distinct : (written.map fun w => w.1.id).Nodup) {w : WrittenDocument}
    (member : w ∈ written) : (written.map fun w => (w.1.id, w.2)).lookup w.1.id = some w.2 := by
  have keys : ((written.map fun w => (w.1.id, w.2)).map Prod.fst).Nodup := by rwa [List.map_map]
  exact (List.lookup_eq_some_of_nodup keys).mpr (List.mem_map.mpr ⟨w, member, rfl⟩)

/-- After a creation that succeeded the store holds the documents of the plan, under the tokens
that were recorded on its entities. -/
theorem holds_of_create (created : (a.create p s).result = .ok ()) :
    ∃ docs tokenOf, a.validated p = .ok docs ∧ a.Holds (a.create p s).store tokenOf docs ∧
      (a.create p s).entity = p.mapStates (stamp tokenOf) := by
  obtain ⟨docs, written, valid, _, writes, all, entity⟩ := create_ok created
  obtain ⟨encoded, _, distinct⟩ := validated_eq_ok valid
  have entities : docs.map PendingDocument.entity = p.entities := entities_of_documents encoded
  have ids : written.map (fun w => w.1.id) = p.entities.map Prod.snd := by
    rw [← entities, ← all, List.map_map, List.map_map]
    rfl
  let tokenOf (id : Uuid) : VersionToken :=
    ((written.map fun w => (w.1.id, w.2)).lookup id).getD (.minted 0)
  have found : ∀ w ∈ written, tokenOf w.1.id = w.2 := by
    intro w member
    simp only [tokenOf, lookup_token (ids ▸ distinct) member, Option.getD_some]
  refine ⟨docs, tokenOf, valid, ?_, ?_⟩
  · intro d member
    rw [← all] at member
    obtain ⟨w, isWritten, rfl⟩ := List.mem_map.mp member
    have stored := writes.find?_of_mem (ids ▸ distinct) isWritten
    rw [found w isWritten]
    exact MemoryStore.read_eq_ok.mpr stored
  · rw [entity, recordTokens]
    apply Plan.mapStates_congr
    intro e member
    have isId : e.2 ∈ written.map fun w => w.1.id := by
      rw [ids]
      exact List.mem_map.mpr ⟨e, member, rfl⟩
    obtain ⟨w, isWritten, same⟩ := List.mem_map.mp isId
    funext state
    rw [← same]
    simp only [lookup_token (ids ▸ distinct) isWritten, stamp, found w isWritten]

/-- A plan that was created is read back as its normal form, with the tokens that the creation
recorded on its entities, provided that its payloads are given back. Recording the tokens changes
nothing else of the plan. -/
theorem read_create (created : (a.create p s).result = .ok ())
    (readable : ∀ x ∈ p.actions, x.Readable a.registry) :
    ∃ q, a.read (a.create p s).store p.id = .ok q ∧
      q.mapActions .comparable = (a.create p s).entity.normal.mapActions .comparable ∧
      (a.create p s).entity.withoutTokens = p.withoutTokens := by
  obtain ⟨docs, tokenOf, valid, holds, entity⟩ := holds_of_create created
  obtain ⟨encoded, notNil, _⟩ := validated_eq_ok valid
  obtain ⟨q, isRead, alike⟩ := read_of_holds notNil encoded holds readable
  refine ⟨q, isRead, ?_, ?_⟩
  · rw [entity]
    exact alike
  · rw [entity, Plan.withoutTokens_stamp]

/-- An archive whose one plugin keeps payloads as they are. -/
def demo : Archive := ⟨"plans", .ofList [.untyped "shell"]⟩

/-- The identifier that is a small number. -/
def numbered (n : UInt8) : Uuid := ⟨n.toNat, Nat.lt_trans n.toNat_lt (by decide)⟩

/-- A plan with checks that have no actions and with one action, which was tried once. -/
def demoPlan : Plan where
  id := numbered 1
  groupId := some .nil
  name := "deploy"
  descr := ""
  metadata := [0, 255]
  checks := { Slots.fill none with pre := some ⟨numbered 2, none, .zero, [], .initial⟩ }
  blocks := [{
    id := numbered 3
    key := none
    name := "block"
    descr := ""
    entranceDelay := .zero
    exitDelay := .zero
    concurrency := 1
    toleratedFailures := 0
    checks := .fill none
    sequences := [{
      id := numbered 4
      key := none
      name := "sequence"
      descr := ""
      actions := [{
        id := numbered 5
        key := none
        name := "list"
        descr := ""
        plugin := "shell"
        timeout := .zero
        retries := 0
        request := some (.ofJson "json" (.obj [("command", .arr [.str "ls", .int 3])]))
        attempts := [⟨some (.ofJson "json" (.bool true)), some ⟨1, "slow", false⟩, none,
          some (.ofNanos 1000000000)⟩]
        state := .initial }]
      state := .initial }]
    state := .initial }]
  state := .initial
  submitTime := none
  reason := .unknown

/-- The payloads of its action are given back. -/
theorem readable_demoPlan : ∀ x ∈ demoPlan.actions, x.Readable demo.registry := by
  intro x member
  rw [List.mem_singleton.mp member]
  refine ⟨.untyped "shell", rfl, ?_, ?_⟩
  · rintro p ⟨⟩
    exact Plugin.untyped_readsBack "shell"
      ⟨rfl, ⟨trivial, ⟨by decide, by decide⟩, trivial⟩, trivial⟩ (by decide)
  · intro attempt isAttempt p isResponse
    rw [List.mem_singleton.mp isAttempt] at isResponse
    cases isResponse
    exact ⟨Plugin.untyped_readsBack "shell" trivial (by decide), by rintro ⟨⟩⟩

theorem read_create_demoPlan :
    (demo.create demoPlan MemoryStore.empty).result = .ok () ∧
    ∃ q, demo.read (demo.create demoPlan MemoryStore.empty).store demoPlan.id = .ok q ∧
      q.mapActions .comparable =
        (demo.create demoPlan MemoryStore.empty).entity.normal.mapActions .comparable ∧
      (demo.create demoPlan MemoryStore.empty).entity.withoutTokens = demoPlan.withoutTokens :=
  ⟨rfl, read_create rfl readable_demoPlan⟩

/-- The leap second at the end of the year 2016, when half of it is over. -/
def leapSecond : Instant := ⟨1483228799, 1500000000, by decide⟩

/-- Half a second into the year 2017, which is as far from the epoch. -/
def newYear : Instant := ⟨1483228800, 500000000, by decide⟩

/-- The demo plan, started within the leap second. -/
def leapPlan : Plan := { demoPlan with state := { demoPlan.state with start := some leapSecond } }

/-- A plan that was started within a leap second, long after the epoch, is created and read back as
started in the second after it. -/
theorem leap_second_not_kept :
    (demo.create leapPlan MemoryStore.empty).result = .ok () ∧
    (∀ x ∈ leapPlan.actions, x.Readable demo.registry) ∧
    Instant.afterEpoch? leapPlan.state.start = leapPlan.state.start ∧
    ∃ q, demo.read (demo.create leapPlan MemoryStore.empty).store leapPlan.id = .ok q ∧
      q.state.start = some newYear ∧ q.state.start ≠ leapPlan.state.start := by
  have outcome : (demo.read (demo.create leapPlan MemoryStore.empty).store leapPlan.id).map
      (fun q => q.state.start) = .ok (some newYear) := by decide +kernel
  obtain ⟨q, isRead, start⟩ := Except.map_eq_ok.mp outcome
  refine ⟨rfl, readable_demoPlan, by decide, q, isRead, start, ?_⟩
  rw [start]
  decide

end Archive

end PlanArchive
