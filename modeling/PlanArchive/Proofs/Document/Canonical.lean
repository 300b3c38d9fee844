import PlanArchive.Proofs.Document.Acceptance
import PlanArchive.Proofs.Document.Encodable

/-!
# Documents that are written again

The entity of a document can be encoded again. The document that comes out has the fields of the
first one in their canonical form: identifiers and digits in lower case, points in time that stand
for none as zero, numbers as they were. References to children are not the entity's and are left
out; the partition, the plan and the position are those that it is encoded for.

A canonical document is decoded to the entity that it was written from (`decode_canonical` for each
kind without payloads). What becomes of payloads is left to the module on the stored form of
actions.
-/

namespace PlanArchive

/-! ## Single fields -/

namespace Field

/-- An optional identifier in its canonical spelling. The nil one stands for none. -/
def canonicalId (text : String) : String :=
  match Uuid.parse? text with
  | none => ""
  | some id => if id.isNil then "" else id.toText

/-- A point in time; zero when it is not after the epoch. -/
def canonicalInstant (nanos : Int64) : Int64 := if 0 < nanos.toInt then nanos else 0

variable {field other text : String} {n : Int64}

theorem encodeInt64_toInt {tooLarge : FieldError} : encodeInt64 tooLarge n.toInt = .ok n := by
  rw [encodeInt64, Json.toInt64?_toInt]

theorem encodePosition_of_fits {position : Nat} (fits : FitsInt64 position) :
    encodePosition position = .ok (Int64.ofInt position) := by
  unfold FitsInt64 at fits
  rw [encodePosition, encodeInt64, Json.toInt64?, if_pos fits]

theorem encodeInstant_decodeInstant :
    encodeInstant field (decodeInstant n) = .ok (canonicalInstant n) := by
  unfold decodeInstant canonicalInstant
  split
  · rw [encodeInstant, Instant.sinceEpoch_ofNanos, encodeInt64_toInt]
  · rfl

/-- A number keeps the point in time that it was decoded to. -/
theorem kept?_decodeInstant : Instant.kept? (decodeInstant n) = decodeInstant n := by
  unfold decodeInstant
  split
  · exact Instant.kept?_some_ofNanos ‹_›
  · rfl

theorem encodeSpan_of_decodeSpan {d : Span} (decoded : decodeSpan field n = .ok d) :
    encodeSpan other d = .ok n := by
  rw [encodeSpan, decodeSpan_eq_ok.mp decoded, encodeInt64_toInt]

theorem ofUInt32_of_toUInt32 {m : UInt32} (decoded : toUInt32 field n = .ok m) :
    ofUInt32 m = n := by
  rw [ofUInt32, toUInt32_eq_ok.mp decoded, Int64.ofInt_toInt]

theorem ofInt32_of_toInt32 {m : Int32} (decoded : toInt32 field n = .ok m) : ofInt32 m = n := by
  rw [ofInt32, toInt32_eq_ok.mp decoded, Int64.ofInt_toInt]

theorem encodeId_of_decodeId {id : Option Uuid} (decoded : decodeId field text = .ok id) :
    encodeId id = canonicalId text := by
  rw [(decodeId_eq_ok.mp decoded).2, canonicalId]
  cases Uuid.parse? text with
  | none => rfl
  | some x =>
    by_cases isNil : x.isNil = true <;> simp [Uuid.notNil?, Option.filter, isNil, encodeId]

theorem notNil?_of_decodeId {id : Option Uuid} (decoded : decodeId field text = .ok id) :
    Uuid.notNil? id = id := by
  rw [(decodeId_eq_ok.mp decoded).2, Uuid.notNil?_notNil?]

end Field

/-! ## States -/

variable {token : VersionToken}

/-- The state with points in time that stand for none as zero. -/
def StateRecord.canonical (r : StateRecord) : StateRecord :=
  { r with
    start := Field.canonicalInstant r.start
    finish := Field.canonicalInstant r.finish }

theorem StateRecord.encode_of_decode {r : StateRecord} {s : State}
    (decoded : r.decode token = .ok s) :
    encode s = .ok r.canonical ∧ { s.normal with token := some token } = s := by
  unfold decode at decoded
  cases found : Status.ofCode? r.status with
  | none => simp [found] at decoded
  | some status =>
    simp only [found, Except.ok.injEq] at decoded
    subst decoded
    constructor
    · simp [encode, Field.encodeInstant_decodeInstant, Status.ofCode?_eq_some.mp found, canonical,
        bind, Except.bind, pure, Except.pure]
    · simp only [State.normal, Field.kept?_decodeInstant]

/-! ## Documents without payloads -/

variable {position : Nat}

/-- The document of the plan that the document is decoded to. -/
def PlanDocument.canonical (part : String) (d : PlanDocument) : PlanDocument :=
  { d with
    part := part
    groupId := Field.canonicalId d.groupId
    metadata := String.ofList (d.metadata.toList.map Char.toLower)
    checks := .fill ""
    blocks := []
    state := d.state.canonical
    submitTime := Field.canonicalInstant d.submitTime }

/-- The document of the block that the document is decoded to. -/
def BlockDocument.canonical (part : String) (planId : Uuid) (position : Nat) (d : BlockDocument) :
    BlockDocument :=
  { d with
    part := part
    planId := planId
    key := Field.canonicalId d.key
    position := Int64.ofInt position
    checks := .fill ""
    sequences := []
    state := d.state.canonical }

/-- The document of the checks that the document is decoded to. -/
def ChecksDocument.canonical (part : String) (planId : Uuid) (d : ChecksDocument) :
    ChecksDocument :=
  { d with
    part := part
    key := Field.canonicalId d.key
    planId := planId
    actions := []
    state := d.state.canonical }

/-- The document of the sequence that the document is decoded to. -/
def SequenceDocument.canonical (part : String) (planId : Uuid) (position : Nat)
    (d : SequenceDocument) : SequenceDocument :=
  { d with
    part := part
    key := Field.canonicalId d.key
    planId := planId
    position := Int64.ofInt position
    actions := []
    state := d.state.canonical }

theorem CheckRefs.encode_none : encode (.fill none) = .fill "" := rfl

theorem PlanDocument.encode_of_decode {d : PlanDocument} {p : Plan}
    (decoded : d.decode token = .ok p) (part : String) :
    encode part p = .ok (d.canonical part) ∧ (d.canonical part).decode token = .ok p := by
  unfold decode at decoded
  simp only [Except.bind_eq_ok] at decoded
  obtain ⟨groupId, isGroupId, metadata, isMetadata, state, isState, decoded⟩ := decoded
  cases found : FailureReason.ofCode? d.reason with
  | none => simp [found] at decoded
  | some reason =>
    simp only [found, pure, Except.pure, Except.ok.injEq] at decoded
    subst decoded
    obtain ⟨stateEncoded, stateNormal⟩ := StateRecord.encode_of_decode isState
    have digits : Hex.encode metadata = String.ofList (d.metadata.toList.map Char.toLower) := by
      cases bytes : Hex.decode d.metadata with
      | error fault => simp [bytes, Except.mapError] at isMetadata
      | ok _ =>
        rw [bytes] at isMetadata
        cases isMetadata
        exact Hex.encode_of_decode bytes
    have encoded : encode part ⟨d.id, groupId, d.name, d.descr, metadata, .fill none, [], state,
        Field.decodeInstant d.submitTime, reason⟩ = .ok (d.canonical part) := by
      rw [encode, stateEncoded, Field.encodeInstant_decodeInstant]
      simp only [Field.encodeId_of_decodeId isGroupId, digits, CheckRefs.encode_none,
        FailureReason.ofCode?_eq_some.mp found]
      rfl
    refine ⟨encoded, (decode_of_encode encoded token).trans ?_⟩
    simp [Plan.normal, Field.notNil?_of_decodeId isGroupId, Field.kept?_decodeInstant,
      stateNormal]

theorem BlockDocument.encode_of_decode {d : BlockDocument} {b : Block}
    (decoded : d.decode token = .ok b) (fits : FitsInt64 position) (part : String)
    (planId : Uuid) :
    encode part planId position b = .ok (d.canonical part planId position) ∧
      (d.canonical part planId position).decode token = .ok b := by
  simp only [decode, Except.bind_eq_ok, pure, Except.pure, Except.ok.injEq] at decoded
  obtain ⟨key, isKey, entranceDelay, isEntrance, exitDelay, isExit, concurrency, isConcurrency,
    toleratedFailures, isTolerated, state, isState, rfl⟩ := decoded
  obtain ⟨stateEncoded, stateNormal⟩ := StateRecord.encode_of_decode isState
  have encoded : encode part planId position ⟨d.id, key, d.name, d.descr, entranceDelay, exitDelay,
      concurrency, toleratedFailures, .fill none, [], state⟩ =
        .ok (d.canonical part planId position) := by
    rw [encode, Field.encodePosition_of_fits fits, Field.encodeSpan_of_decodeSpan isEntrance,
      Field.encodeSpan_of_decodeSpan isExit, stateEncoded]
    simp only [Field.encodeId_of_decodeId isKey, Field.ofUInt32_of_toUInt32 isConcurrency,
      Field.ofInt32_of_toInt32 isTolerated, CheckRefs.encode_none]
    rfl
  refine ⟨encoded, (decode_of_encode encoded token).trans ?_⟩
  simp [Block.normal, Field.notNil?_of_decodeId isKey, stateNormal]

theorem ChecksDocument.encode_of_decode {d : ChecksDocument} {c : Checks}
    (decoded : d.decode token = .ok c) (part : String) (planId : Uuid) :
    encode part planId c = .ok (d.canonical part planId) ∧
      (d.canonical part planId).decode token = .ok c := by
  simp only [decode, Except.bind_eq_ok, pure, Except.pure, Except.ok.injEq] at decoded
  obtain ⟨key, isKey, delay, isDelay, state, isState, rfl⟩ := decoded
  obtain ⟨stateEncoded, stateNormal⟩ := StateRecord.encode_of_decode isState
  have encoded : encode part planId ⟨d.id, key, delay, [], state⟩ =
      .ok (d.canonical part planId) := by
    rw [encode, Field.encodeSpan_of_decodeSpan isDelay, stateEncoded]
    simp only [Field.encodeId_of_decodeId isKey]
    rfl
  refine ⟨encoded, (decode_of_encode encoded token).trans ?_⟩
  simp [Checks.normal, Field.notNil?_of_decodeId isKey, stateNormal]

theorem SequenceDocument.encode_of_decode {d : SequenceDocument} {q : Sequence}
    (decoded : d.decode token = .ok q) (fits : FitsInt64 position) (part : String)
    (planId : Uuid) :
    encode part planId position q = .ok (d.canonical part planId position) ∧
      (d.canonical part planId position).decode token = .ok q := by
  simp only [decode, Except.bind_eq_ok, pure, Except.pure, Except.ok.injEq] at decoded
  obtain ⟨key, isKey, state, isState, rfl⟩ := decoded
  obtain ⟨stateEncoded, stateNormal⟩ := StateRecord.encode_of_decode isState
  have encoded : encode part planId position ⟨d.id, key, d.name, d.descr, [], state⟩ =
      .ok (d.canonical part planId position) := by
    rw [encode, Field.encodePosition_of_fits fits, stateEncoded]
    simp only [Field.encodeId_of_decodeId isKey]
    rfl
  refine ⟨encoded, (decode_of_encode encoded token).trans ?_⟩
  simp [Sequence.normal, Field.notNil?_of_decodeId isKey, stateNormal]

end PlanArchive
