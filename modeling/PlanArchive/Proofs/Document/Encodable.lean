import Mathlib.Tactic.MkIffOfInductiveProp
import PlanArchive.Proofs.Document.Encoding

/-!
# Which entities have documents

There are few reasons for an entity to have no document: a point in time or a length of time whose
nanoseconds do not fit into 64 bits, a place in a list that does not, and a payload that refuses to
be encoded. `Encodable` excludes them for each kind of entity and all below it, and the encodings of
the kinds succeed exactly then (`PlanDocument.exists_encode` and its like).
-/

namespace PlanArchive

/-- A number is one of 64 bits with a sign. -/
def FitsInt64 (n : Int) : Prop := -0x8000000000000000 ≤ n ∧ n < 0x8000000000000000

/-- All places in a list of some length have numbers of 64 bits. -/
def FitsPositions (length : Nat) : Prop := ∀ position < length, FitsInt64 position

/-- Steps that are told the places of their items succeed when each would at a place that fits, and
all places do. -/
theorem Except.exists_ok_numbered {ε α β : Type} {step : α × Nat → Except ε β} {items : List α}
    {condition : α → Prop}
    (each : ∀ x position, (∃ y, step (x, position) = .ok y) ↔ condition x ∧ FitsInt64 position) :
    (∃ r, items.zipIdx.mapM step = .ok r) ↔
      (∀ x ∈ items, condition x) ∧ FitsPositions items.length := by
  rw [exists_ok_mapM]
  constructor
  · intro all
    have atPosition : ∀ (position : Nat) x, items[position]? = some x →
        condition x ∧ FitsInt64 position := by
      intro position x found
      exact (each x position).mp (all (x, position) (List.mk_mem_zipIdx_iff_getElem?.mpr found))
    constructor
    · intro x member
      obtain ⟨position, found⟩ := List.mem_iff_getElem?.mp member
      exact (atPosition position x found).1
    · intro position isPlace
      exact (atPosition position _ (List.getElem?_eq_getElem isPlace)).2
  · rintro ⟨conditions, positions⟩ ⟨x, position⟩ member
    have found := List.mk_mem_zipIdx_iff_getElem?.mp member
    obtain ⟨isPlace, _⟩ := List.getElem?_eq_some_iff.mp found
    exact (each x position).mpr
      ⟨conditions x (List.mem_of_getElem? found), positions position isPlace⟩

/-! ## Entities that can be encoded -/

/-- A point in time is a number of nanoseconds that fits. -/
def Instant.Encodable (t : Instant) : Prop := FitsInt64 t.sinceEpoch

/-- A length of time is a number of nanoseconds that fits. -/
def Span.Encodable (d : Span) : Prop := FitsInt64 d.toNanos

/-- A payload does not refuse to be encoded. -/
def Payload.Encodable (p : Payload) : Prop := ∃ v, p.encoding = .value v

/-- A state can be encoded. -/
@[mk_iff]
structure State.Encodable (s : State) : Prop where
  start : ∀ t ∈ s.start, t.Encodable
  finish : ∀ t ∈ s.finish, t.Encodable

/-- An attempt can be encoded. -/
@[mk_iff]
structure Attempt.Encodable (x : Attempt) : Prop where
  response : ∀ p ∈ x.response, p.Encodable
  start : ∀ t ∈ x.start, t.Encodable
  finish : ∀ t ∈ x.finish, t.Encodable

/-- An action can be encoded. -/
@[mk_iff]
structure Action.Encodable (x : Action) : Prop where
  request : ∀ p ∈ x.request, p.Encodable
  timeout : x.timeout.Encodable
  attempts : ∀ y ∈ x.attempts, y.Encodable
  state : x.state.Encodable

/-- Checks and their actions can be encoded. -/
@[mk_iff]
structure Checks.Encodable (c : Checks) : Prop where
  actions : ∀ x ∈ c.actions, x.Encodable
  positions : FitsPositions c.actions.length
  delay : c.delay.Encodable
  state : c.state.Encodable

/-- A sequence and its actions can be encoded. -/
@[mk_iff]
structure Sequence.Encodable (q : Sequence) : Prop where
  actions : ∀ x ∈ q.actions, x.Encodable
  positions : FitsPositions q.actions.length
  state : q.state.Encodable

/-- A block and all below it can be encoded. -/
@[mk_iff]
structure Block.Encodable (b : Block) : Prop where
  checks : ∀ c ∈ b.checks.present, c.Encodable
  sequences : ∀ q ∈ b.sequences, q.Encodable
  positions : FitsPositions b.sequences.length
  entranceDelay : b.entranceDelay.Encodable
  exitDelay : b.exitDelay.Encodable
  state : b.state.Encodable

/-- A plan and all below it can be encoded. -/
@[mk_iff]
structure Plan.Encodable (p : Plan) : Prop where
  checks : ∀ c ∈ p.checks.present, c.Encodable
  blocks : ∀ b ∈ p.blocks, b.Encodable
  positions : FitsPositions p.blocks.length
  state : p.state.Encodable
  submitTime : ∀ t ∈ p.submitTime, t.Encodable

/-! ## Single fields -/

namespace Field

theorem exists_encodeInt64 {tooLarge : FieldError} {n : Int} :
    (∃ m, encodeInt64 tooLarge n = .ok m) ↔ FitsInt64 n := by
  unfold encodeInt64 Json.toInt64? FitsInt64
  by_cases fits : -0x8000000000000000 ≤ n ∧ n < 0x8000000000000000 <;> simp [fits]

theorem exists_encodeInstant {field : String} {t : Option Instant} :
    (∃ m, encodeInstant field t = .ok m) ↔ ∀ x ∈ t, x.Encodable := by
  cases t with
  | none => simp [encodeInstant]
  | some t => simp [encodeInstant, exists_encodeInt64, Instant.Encodable]

theorem exists_encodeSpan {field : String} {d : Span} :
    (∃ m, encodeSpan field d = .ok m) ↔ d.Encodable :=
  exists_encodeInt64

theorem exists_encodePosition {position : Nat} :
    (∃ m, encodePosition position = .ok m) ↔ FitsInt64 position :=
  exists_encodeInt64

end Field

theorem StateRecord.exists_encode {s : State} : (∃ r, encode s = .ok r) ↔ s.Encodable := by
  simp only [encode, Except.exists_ok_bind, Except.exists_ok_pure, and_true, exists_and_right,
    Field.exists_encodeInstant, State.encodable_iff]

/-! ## Payloads -/

theorem Attempt.exists_encodePayload {field : String} {payload : Option Payload} :
    (∃ v, encodePayload field payload = .ok v) ↔ ∀ p ∈ payload, p.Encodable := by
  cases payload with
  | none => simp [encodePayload]
  | some p =>
    cases encoding : p.encoding with
    | value v => simp [encodePayload, Payload.toJson, Payload.Encodable, encoding]
    | refused reason => simp [encodePayload, Payload.toJson, Payload.Encodable, encoding]

theorem Attempt.exists_encode {x : Attempt} : (∃ r, encode x = .ok r) ↔ x.Encodable := by
  simp only [encode, Except.exists_ok_bind, Except.exists_ok_pure, and_true, exists_and_right,
    exists_encodePayload, Field.exists_encodeInstant, Attempt.encodable_iff]

theorem Action.exists_encodeRequest {request : Option Payload} :
    (∃ text, encodeRequest request = .ok text) ↔ ∀ p ∈ request, p.Encodable := by
  rw [encodeRequest, Except.exists_ok_bind]
  refine Iff.trans (exists_congr fun v => and_iff_left ?_) Attempt.exists_encodePayload
  cases v with
  | none => exact ⟨"", rfl⟩
  | some v => exact ⟨v.toText, rfl⟩

/-! ## Documents -/

variable {part : String} {planId : Uuid} {position : Nat}

theorem PlanDocument.exists_encode {p : Plan} :
    (∃ d, encode part p = .ok d) ↔ p.state.Encodable ∧ ∀ t ∈ p.submitTime, t.Encodable := by
  simp only [encode, Except.exists_ok_bind, Except.exists_ok_pure, and_true, exists_and_right,
    StateRecord.exists_encode, Field.exists_encodeInstant]

theorem BlockDocument.exists_encode {b : Block} :
    (∃ d, encode part planId position b = .ok d) ↔
      FitsInt64 position ∧ b.entranceDelay.Encodable ∧ b.exitDelay.Encodable ∧
        b.state.Encodable := by
  simp only [encode, Except.exists_ok_bind, Except.exists_ok_pure, and_true, exists_and_right,
    Field.exists_encodePosition, Field.exists_encodeSpan, StateRecord.exists_encode]

theorem ChecksDocument.exists_encode {c : Checks} :
    (∃ d, encode part planId c = .ok d) ↔ c.delay.Encodable ∧ c.state.Encodable := by
  simp only [encode, Except.exists_ok_bind, Except.exists_ok_pure, and_true, exists_and_right,
    Field.exists_encodeSpan, StateRecord.exists_encode]

theorem SequenceDocument.exists_encode {q : Sequence} :
    (∃ d, encode part planId position q = .ok d) ↔ FitsInt64 position ∧ q.state.Encodable := by
  simp only [encode, Except.exists_ok_bind, Except.exists_ok_pure, and_true, exists_and_right,
    Field.exists_encodePosition, StateRecord.exists_encode]

theorem ActionDocument.exists_encode {x : Action} :
    (∃ d, encode part planId position x = .ok d) ↔ x.Encodable ∧ FitsInt64 position := by
  simp only [encode, Except.exists_ok_bind, Except.exists_ok_pure, and_true, exists_and_right,
    Except.exists_ok_mapM, Action.exists_encodeRequest, Field.exists_encodePosition,
    Field.exists_encodeSpan, Attempt.exists_encode, StateRecord.exists_encode,
    Action.encodable_iff]
  constructor
  · rintro ⟨request, fits, timeout, attempts, state⟩
    exact ⟨⟨request, timeout, attempts, state⟩, fits⟩
  · rintro ⟨⟨request, timeout, attempts, state⟩, fits⟩
    exact ⟨request, fits, timeout, attempts, state⟩

end PlanArchive
