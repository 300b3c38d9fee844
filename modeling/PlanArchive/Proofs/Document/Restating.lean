import PlanArchive.Plan.Entities
import PlanArchive.Proofs.Document.Encoding

/-!
# Documents of entities with other states

The document of an entity has the state of the entity and the identifiers of its children, but not
their states: replacing the states of a whole tree changes the document as replacing the state of
the one entity does (`ChecksDocument.encode_mapStates` and its like). That in turn replaces the
state in the document and nothing else (`ChecksDocument.encode_withState` and its like).
-/

namespace PlanArchive

variable {part : String} {planId : Uuid} {position : Nat} {state : State} {r : StateRecord}

/-! ## States of children -/

theorem CheckRefs.encode_mapStates (f : StateChange) (checks : Slots (Option Checks)) :
    encode (checks.map (Option.map (Checks.mapStates f))) = encode checks := by
  have each : ∀ c : Option Checks,
      Field.encodeId ((c.map (Checks.mapStates f)).map Checks.id) =
        Field.encodeId (c.map Checks.id) := by
    intro c
    cases c <;> rfl
  simp only [encode, Slots.map, each]

theorem Action.map_id_mapState (f : StateChange) (actions : List Action) :
    (actions.map (mapState f)).map id = actions.map id := by
  rw [List.map_map]
  rfl

theorem ChecksDocument.encode_mapStates (f : StateChange) (c : Checks) :
    encode part planId (c.mapStates f) =
      encode part planId { c with state := f .checks c.id c.state } := by
  rw [encode, encode, Checks.mapStates, Action.map_id_mapState]

theorem SequenceDocument.encode_mapStates (f : StateChange) (q : Sequence) :
    encode part planId position (q.mapStates f) =
      encode part planId position { q with state := f .sequence q.id q.state } := by
  rw [encode, encode, Sequence.mapStates, Action.map_id_mapState]

theorem BlockDocument.encode_mapStates (f : StateChange) (b : Block) :
    encode part planId position (b.mapStates f) =
      encode part planId position { b with state := f .block b.id b.state } := by
  have sequences : (b.sequences.map (Sequence.mapStates f)).map Sequence.id =
      b.sequences.map Sequence.id := by
    rw [List.map_map]
    rfl
  rw [encode, encode, Block.mapStates, CheckRefs.encode_mapStates, sequences]

theorem PlanDocument.encode_mapStates (f : StateChange) (p : Plan) :
    encode part (p.mapStates f) = encode part { p with state := f .plan p.id p.state } := by
  have blocks : (p.blocks.map (Block.mapStates f)).map Block.id = p.blocks.map Block.id := by
    rw [List.map_map]
    rfl
  rw [encode, encode, Plan.mapStates, CheckRefs.encode_mapStates, blocks]

/-! ## The state itself -/

theorem ActionDocument.encode_withState {x : Action} {d : ActionDocument}
    (encoded : encode part planId position x = .ok d)
    (stateEncoded : StateRecord.encode state = .ok r) :
    encode part planId position { x with state := state } = .ok { d with state := r } := by
  simp only [encode, Except.bind_eq_ok, pure, Except.pure, Except.ok.injEq] at encoded ⊢
  obtain ⟨request, isRequest, place, isPlace, timeout, isTimeout, attempts, isAttempts, _, _,
    rfl⟩ := encoded
  exact ⟨request, isRequest, place, isPlace, timeout, isTimeout, attempts, isAttempts, r,
    stateEncoded, rfl⟩

theorem ChecksDocument.encode_withState {c : Checks} {d : ChecksDocument}
    (encoded : encode part planId c = .ok d) (stateEncoded : StateRecord.encode state = .ok r) :
    encode part planId { c with state := state } = .ok { d with state := r } := by
  simp only [encode, Except.bind_eq_ok, pure, Except.pure, Except.ok.injEq] at encoded ⊢
  obtain ⟨delay, isDelay, _, _, rfl⟩ := encoded
  exact ⟨delay, isDelay, r, stateEncoded, rfl⟩

theorem SequenceDocument.encode_withState {q : Sequence} {d : SequenceDocument}
    (encoded : encode part planId position q = .ok d)
    (stateEncoded : StateRecord.encode state = .ok r) :
    encode part planId position { q with state := state } = .ok { d with state := r } := by
  simp only [encode, Except.bind_eq_ok, pure, Except.pure, Except.ok.injEq] at encoded ⊢
  obtain ⟨place, isPlace, _, _, rfl⟩ := encoded
  exact ⟨place, isPlace, r, stateEncoded, rfl⟩

theorem BlockDocument.encode_withState {b : Block} {d : BlockDocument}
    (encoded : encode part planId position b = .ok d)
    (stateEncoded : StateRecord.encode state = .ok r) :
    encode part planId position { b with state := state } = .ok { d with state := r } := by
  simp only [encode, Except.bind_eq_ok, pure, Except.pure, Except.ok.injEq] at encoded ⊢
  obtain ⟨place, isPlace, entrance, isEntrance, exit_, isExit, _, _, rfl⟩ := encoded
  exact ⟨place, isPlace, entrance, isEntrance, exit_, isExit, r, stateEncoded, rfl⟩

theorem PlanDocument.encode_withState {p : Plan} {d : PlanDocument}
    (encoded : encode part p = .ok d) (stateEncoded : StateRecord.encode state = .ok r) :
    encode part { p with state := state } = .ok { d with state := r } := by
  simp only [encode, Except.bind_eq_ok, pure, Except.pure, Except.ok.injEq] at encoded ⊢
  obtain ⟨_, _, submitTime, isSubmitTime, rfl⟩ := encoded
  exact ⟨r, stateEncoded, submitTime, isSubmitTime, rfl⟩

/-- The document of a plan with another submission time and failure reason. -/
theorem PlanDocument.encode_withSubmission {p : Plan} {d : PlanDocument} (reason : FailureReason)
    {time : Option Instant} {submitTime : Int64} (encoded : encode part p = .ok d)
    (timeEncoded : Field.encodeInstant Field.submitTime time = .ok submitTime) :
    encode part { p with submitTime := time, reason := reason } =
      .ok { d with submitTime := submitTime, reason := reason.code } := by
  simp only [encode, Except.bind_eq_ok, pure, Except.pure, Except.ok.injEq] at encoded ⊢
  obtain ⟨state, isState, _, _, rfl⟩ := encoded
  exact ⟨state, isState, submitTime, timeEncoded, rfl⟩

end PlanArchive
