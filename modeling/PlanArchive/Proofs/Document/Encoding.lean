import PlanArchive.Document.Basic
import PlanArchive.Proofs.Steps
import PlanArchive.Proofs.Text.Spelling
import PlanArchive.Proofs.Plan.Normal

/-!
# Encodings are inverted by decodings

The entity that is decoded from an encoded document is the normal form of the one that was encoded,
without its children and with the token of the revision it was read from. Payloads are not the
subject here, so that actions are left to the module on payloads.
-/

namespace PlanArchive

/-! ## Single fields -/

theorem Field.toInt_of_encodeInt64 {tooLarge : FieldError} {n : Int} {m : Int64}
    (encoded : encodeInt64 tooLarge n = .ok m) : m.toInt = n := by
  unfold encodeInt64 Json.toInt64? at encoded
  by_cases fits : -0x8000000000000000 ≤ n ∧ n < 0x8000000000000000
  · rw [if_pos fits] at encoded
    cases encoded
    exact Int64.toInt_ofInt_of_le fits.1 fits.2
  · rw [if_neg fits] at encoded
    cases encoded

theorem Span.ofNanos_toNanos (d : Span) : ofNanos d.toNanos = d := by
  obtain ⟨seconds, nanos, nanos_lt⟩ := d
  simp only [ofNanos, toNanos, Span.mk.injEq]
  omega

namespace Field

theorem decodeInstant_of_encodeInstant {field : String} {t : Option Instant} {n : Int64}
    (encoded : encodeInstant field t = .ok n) : decodeInstant n = Instant.kept? t := by
  cases t with
  | none =>
    cases encoded
    rfl
  | some t =>
    rw [encodeInstant] at encoded
    rw [decodeInstant, toInt_of_encodeInt64 encoded, Instant.kept?_some, Instant.regular]

theorem decodeSpan_of_encodeSpan {field other : String} {d : Span} {n : Int64}
    (encoded : encodeSpan field d = .ok n) : decodeSpan other n = .ok d := by
  rw [encodeSpan] at encoded
  have value : n.toInt = d.toNanos := toInt_of_encodeInt64 encoded
  have notNegative : ¬ n.toInt < 0 := by omega
  rw [decodeSpan, if_neg notNegative, value, Int.toNat_natCast, Span.ofNanos_toNanos]

theorem decodeId_encodeId (field : String) (id : Option Uuid) :
    decodeId field (encodeId id) = .ok (Uuid.notNil? id) := by
  cases id with
  | none => rfl
  | some id =>
    simp only [decodeId, encodeId, Uuid.isEmpty_toText, Uuid.parse?_toText, Bool.false_eq_true,
      if_false, Uuid.notNil?, Option.filter]
    by_cases isNil : id.isNil = true <;> simp [isNil]

theorem toUInt32_ofUInt32 (field : String) (n : UInt32) : toUInt32 field (ofUInt32 n) = .ok n := by
  have below : n.toNat < 2 ^ 32 := n.toNat_lt
  have value : (ofUInt32 n).toInt = n.toNat := Int64.toInt_ofInt_of_le (by omega) (by omega)
  rw [toUInt32, value, if_pos (by omega), Int.toNat_natCast, UInt32.ofNat_toNat]

theorem toInt32_ofInt32 (field : String) (n : Int32) : toInt32 field (ofInt32 n) = .ok n := by
  have above := n.le_toInt
  have below := n.toInt_lt
  have value : (ofInt32 n).toInt = n.toInt := Int64.toInt_ofInt_of_le (by omega) (by omega)
  rw [toInt32, value, if_pos ⟨above, below⟩, Int32.ofInt_toInt]

end Field

theorem Status.ofCode?_code (s : Status) : ofCode? s.code = some s := by
  cases s <;> rfl

theorem FailureReason.ofCode?_code (r : FailureReason) : ofCode? r.code = some r := by
  cases r <;> rfl

theorem Uuid.notNil?_of_not_isNil {id : Uuid} (notNil : id.isNil = false) :
    notNil? (some id) = some id := by
  simp [notNil?, notNil]

/-! ## Parts that documents share -/

theorem StateRecord.decode_of_encode {s : State} {r : StateRecord} (encoded : encode s = .ok r)
    (token : VersionToken) : r.decode token = .ok { s.normal with token := some token } := by
  simp only [encode, Except.bind_eq_ok, pure, Except.pure, Except.ok.injEq] at encoded
  obtain ⟨start, startEncoded, finish, finishEncoded, rfl⟩ := encoded
  simp [decode, Status.ofCode?_code, Field.decodeInstant_of_encodeInstant startEncoded,
    Field.decodeInstant_of_encodeInstant finishEncoded, State.normal]

/-- References to checks with proper identifiers are decoded as those identifiers. -/
theorem CheckRefs.decode_encode {checks : Slots (Option Checks)}
    (notNil : ∀ c ∈ checks.present, c.id.isNil = false) :
    decode (encode checks) = .ok (checks.map (Option.map Checks.id)) := by
  have each : ∀ c ∈ checks.toList, ∀ field,
      Field.decodeId field (Field.encodeId (c.map Checks.id)) = .ok (c.map Checks.id) := by
    intro c member field
    rw [Field.decodeId_encodeId]
    cases c with
    | none => rfl
    | some c =>
      have present : c ∈ checks.present := by simpa [Slots.present] using member
      rw [Option.map_some, Uuid.notNil?_of_not_isNil (notNil c present)]
  simp only [Slots.toList, List.forall_mem_cons] at each
  obtain ⟨bypass, pre, post, cont, deferred, -⟩ := each
  simp [decode, encode, Slots.mapM, Slots.map, bypass, pre, post, cont, deferred, bind, Except.bind,
    pure, Except.pure]

/-! ## Documents -/

theorem PlanDocument.decode_of_encode {part : String} {p : Plan} {d : PlanDocument}
    (encoded : encode part p = .ok d) (token : VersionToken) :
    d.decode token = .ok { p.normal with
      checks := .fill none
      blocks := []
      state := { p.state.normal with token := some token } } := by
  simp only [encode, Except.bind_eq_ok, pure, Except.pure, Except.ok.injEq] at encoded
  obtain ⟨state, stateEncoded, submitTime, submitTimeEncoded, rfl⟩ := encoded
  have metadata :
      (Hex.decode (Hex.encode p.metadata)).mapError FieldError.badMetadata = .ok p.metadata := by
    rw [Hex.decode_encode]
    rfl
  simp [decode, Field.decodeId_encodeId, metadata,
    StateRecord.decode_of_encode stateEncoded, FailureReason.ofCode?_code,
    Field.decodeInstant_of_encodeInstant submitTimeEncoded, Plan.normal, bind, Except.bind, pure,
    Except.pure]

theorem BlockDocument.decode_of_encode {part : String} {planId : Uuid} {position : Nat} {b : Block}
    {d : BlockDocument} (encoded : encode part planId position b = .ok d) (token : VersionToken) :
    d.decode token = .ok { b.normal with
      checks := .fill none
      sequences := []
      state := { b.state.normal with token := some token } } := by
  simp only [encode, Except.bind_eq_ok, pure, Except.pure, Except.ok.injEq] at encoded
  obtain ⟨position, -, entranceDelay, entranceEncoded, exitDelay, exitEncoded, state, stateEncoded,
    rfl⟩ := encoded
  simp [decode, Field.decodeId_encodeId, Field.decodeSpan_of_encodeSpan entranceEncoded,
    Field.decodeSpan_of_encodeSpan exitEncoded, Field.toUInt32_ofUInt32, Field.toInt32_ofInt32,
    StateRecord.decode_of_encode stateEncoded, Block.normal, bind, Except.bind, pure, Except.pure]

theorem ChecksDocument.decode_of_encode {part : String} {planId : Uuid} {c : Checks}
    {d : ChecksDocument} (encoded : encode part planId c = .ok d) (token : VersionToken) :
    d.decode token = .ok { c.normal with
      actions := []
      state := { c.state.normal with token := some token } } := by
  simp only [encode, Except.bind_eq_ok, pure, Except.pure, Except.ok.injEq] at encoded
  obtain ⟨delay, delayEncoded, state, stateEncoded, rfl⟩ := encoded
  simp [decode, Field.decodeId_encodeId, Field.decodeSpan_of_encodeSpan delayEncoded,
    StateRecord.decode_of_encode stateEncoded, Checks.normal, bind, Except.bind, pure, Except.pure]

theorem SequenceDocument.decode_of_encode {part : String} {planId : Uuid} {position : Nat}
    {s : Sequence} {d : SequenceDocument} (encoded : encode part planId position s = .ok d)
    (token : VersionToken) :
    d.decode token = .ok { s.normal with
      actions := []
      state := { s.state.normal with token := some token } } := by
  simp only [encode, Except.bind_eq_ok, pure, Except.pure, Except.ok.injEq] at encoded
  obtain ⟨position, -, state, stateEncoded, rfl⟩ := encoded
  simp [decode, Field.decodeId_encodeId, StateRecord.decode_of_encode stateEncoded, Sequence.normal,
    bind, Except.bind, pure, Except.pure]

/-! ## References

What an encoded document says about the place of its entity in the tree. -/

theorem PlanDocument.references_of_encode {part : String} {p : Plan} {d : PlanDocument}
    (encoded : encode part p = .ok d) :
    d.id = p.id ∧ d.checks = CheckRefs.encode p.checks ∧ d.blocks = p.blocks.map Block.id := by
  simp only [encode, Except.bind_eq_ok, pure, Except.pure, Except.ok.injEq] at encoded
  obtain ⟨_, _, _, _, rfl⟩ := encoded
  exact ⟨rfl, rfl, rfl⟩

theorem BlockDocument.references_of_encode {part : String} {planId : Uuid} {position : Nat}
    {b : Block} {d : BlockDocument} (encoded : encode part planId position b = .ok d) :
    d.id = b.id ∧ d.planId = planId ∧ d.checks = CheckRefs.encode b.checks ∧
      d.sequences = b.sequences.map Sequence.id := by
  simp only [encode, Except.bind_eq_ok, pure, Except.pure, Except.ok.injEq] at encoded
  obtain ⟨_, _, _, _, _, _, _, _, rfl⟩ := encoded
  exact ⟨rfl, rfl, rfl, rfl⟩

theorem ChecksDocument.references_of_encode {part : String} {planId : Uuid} {c : Checks}
    {d : ChecksDocument} (encoded : encode part planId c = .ok d) :
    d.id = c.id ∧ d.planId = planId ∧ d.actions = c.actions.map Action.id := by
  simp only [encode, Except.bind_eq_ok, pure, Except.pure, Except.ok.injEq] at encoded
  obtain ⟨_, _, _, _, rfl⟩ := encoded
  exact ⟨rfl, rfl, rfl⟩

theorem SequenceDocument.references_of_encode {part : String} {planId : Uuid} {position : Nat}
    {s : Sequence} {d : SequenceDocument} (encoded : encode part planId position s = .ok d) :
    d.id = s.id ∧ d.planId = planId ∧ d.actions = s.actions.map Action.id := by
  simp only [encode, Except.bind_eq_ok, pure, Except.pure, Except.ok.injEq] at encoded
  obtain ⟨_, _, _, _, rfl⟩ := encoded
  exact ⟨rfl, rfl, rfl⟩

theorem ActionDocument.references_of_encode {part : String} {planId : Uuid} {position : Nat}
    {a : Action} {d : ActionDocument} (encoded : encode part planId position a = .ok d) :
    d.id = a.id ∧ d.planId = planId := by
  simp only [encode, Except.bind_eq_ok, pure, Except.pure, Except.ok.injEq] at encoded
  obtain ⟨_, _, _, _, _, _, _, _, _, _, rfl⟩ := encoded
  exact ⟨rfl, rfl⟩

/-! ## Positions -/

theorem Field.toInt_of_encodePosition {position : Nat} {n : Int64}
    (encoded : encodePosition position = .ok n) : n.toInt = position :=
  toInt_of_encodeInt64 encoded

theorem BlockDocument.position_of_encode {part : String} {planId : Uuid} {position : Nat}
    {b : Block} {d : BlockDocument} (encoded : encode part planId position b = .ok d) :
    d.position.toInt = position := by
  simp only [encode, Except.bind_eq_ok, pure, Except.pure, Except.ok.injEq] at encoded
  obtain ⟨_, positionEncoded, _, _, _, _, _, _, rfl⟩ := encoded
  exact Field.toInt_of_encodePosition positionEncoded

theorem SequenceDocument.position_of_encode {part : String} {planId : Uuid} {position : Nat}
    {s : Sequence} {d : SequenceDocument} (encoded : encode part planId position s = .ok d) :
    d.position.toInt = position := by
  simp only [encode, Except.bind_eq_ok, pure, Except.pure, Except.ok.injEq] at encoded
  obtain ⟨_, positionEncoded, _, _, rfl⟩ := encoded
  exact Field.toInt_of_encodePosition positionEncoded

theorem ActionDocument.position_of_encode {part : String} {planId : Uuid} {position : Nat}
    {a : Action} {d : ActionDocument} (encoded : encode part planId position a = .ok d) :
    d.position.toInt = position := by
  simp only [encode, Except.bind_eq_ok, pure, Except.pure, Except.ok.injEq] at encoded
  obtain ⟨_, _, _, positionEncoded, _, _, _, _, _, _, rfl⟩ := encoded
  exact Field.toInt_of_encodePosition positionEncoded

end PlanArchive
