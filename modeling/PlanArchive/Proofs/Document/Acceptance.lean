import Mathlib.Tactic.IntervalCases
import Mathlib.Tactic.MkIffOfInductiveProp
import PlanArchive.Plan.Path
import PlanArchive.Proofs.Archive.Tree
import PlanArchive.Proofs.Document.Encoding
import PlanArchive.Proofs.Text.Hexadecimal

/-!
# Which documents are accepted

Any JSON value with the fields of a schema is parsed to a document, and whether an entity is decoded
from it is up to the values of these fields. `Valid` says for each kind of document what they must
be: numbers within their ranges, texts that are optional identifiers or digits, and for an action
payloads that a registered plugin takes. Nothing else is asked, and nothing less
(`Document.exists_decodeEntity`); a number out of its range is refused and never cut to fit.
-/

namespace PlanArchive

/-- A number lies between two others. -/
def InRange (low high : Int) (n : Int64) : Prop := low ≤ n.toInt ∧ n.toInt ≤ high

instance (low high : Int) (n : Int64) : Decidable (InRange low high n) := by
  unfold InRange
  infer_instance

/-- A text that stands for an identifier or for none: it is empty, or a spelling of one. -/
def IsOptionalId (text : String) : Prop := text = "" ∨ ∃ id, Uuid.parse? text = some id

/-- A text of pairs of digits, of either case. -/
def IsHex (text : String) : Prop :=
  text.toList.length % 2 = 0 ∧ ∀ c ∈ text.toList, Hex.IsDigit c

/-! ## Codes -/

theorem Status.ofCode?_eq_some {c : Int64} {s : Status} : ofCode? c = some s ↔ s.code = c := by
  constructor
  · intro found
    simpa using List.find?_some found
  · rintro rfl
    exact ofCode?_code s

theorem FailureReason.ofCode?_eq_some {c : Int64} {r : FailureReason} :
    ofCode? c = some r ↔ r.code = c := by
  constructor
  · intro found
    simpa using List.find?_some found
  · rintro rfl
    exact ofCode?_code r

theorem Status.exists_ofCode? {c : Int64} : (∃ s, ofCode? c = some s) ↔ InRange 0 4 c := by
  constructor
  · rintro ⟨s, found⟩
    rw [← ofCode?_eq_some.mp found]
    cases s <;> decide
  · rintro ⟨above, below⟩
    have isCode : c = Int64.ofInt c.toInt := (Int64.ofInt_toInt c).symm
    generalize c.toInt = n at *
    subst isCode
    interval_cases n <;> exact ⟨_, rfl⟩

theorem FailureReason.exists_ofCode? {c : Int64} :
    (∃ r, ofCode? c = some r) ↔ InRange 0 5 c := by
  constructor
  · rintro ⟨r, found⟩
    rw [← ofCode?_eq_some.mp found]
    cases r <;> decide
  · rintro ⟨above, below⟩
    have isCode : c = Int64.ofInt c.toInt := (Int64.ofInt_toInt c).symm
    generalize c.toInt = n at *
    subst isCode
    interval_cases n <;> exact ⟨_, rfl⟩

/-! ## Single fields -/

namespace Field

theorem decodeId_eq_ok {field text : String} {id : Option Uuid} :
    decodeId field text = .ok id ↔ IsOptionalId text ∧ id = Uuid.notNil? (Uuid.parse? text) := by
  unfold IsOptionalId
  by_cases isEmpty : text = ""
  · subst isEmpty
    have decoded : decodeId field "" = .ok none := rfl
    have noId : Uuid.notNil? (Uuid.parse? "") = none := rfl
    rw [decoded, noId, Except.ok.injEq]
    exact ⟨fun same => ⟨.inl rfl, same.symm⟩, fun same => same.2.symm⟩
  · cases parsed : Uuid.parse? text with
    | none => simp [decodeId, isEmpty, parsed]
    | some x =>
      have decoded : decodeId field text = .ok (Uuid.notNil? (some x)) := by
        by_cases isNil : x.isNil = true <;>
          simp [decodeId, isEmpty, parsed, isNil, Uuid.notNil?, Option.filter]
      rw [decoded, Except.ok.injEq]
      exact ⟨fun same => ⟨.inr ⟨x, rfl⟩, same.symm⟩, fun same => same.2.symm⟩

theorem exists_decodeId {field text : String} :
    (∃ id, decodeId field text = .ok id) ↔ IsOptionalId text := by
  simp [decodeId_eq_ok]

theorem decodeSpan_eq_ok {field : String} {n : Int64} {d : Span} :
    decodeSpan field n = .ok d ↔ (d.toNanos : Int) = n.toInt := by
  unfold decodeSpan
  split
  · refine iff_of_false (by simp) ?_
    omega
  · rw [Except.ok.injEq]
    constructor
    · rintro rfl
      simp only [Span.ofNanos, Span.toNanos]
      omega
    · intro same
      rw [← same, Int.toNat_natCast, Span.ofNanos_toNanos]

theorem exists_decodeSpan {field : String} {n : Int64} :
    (∃ d, decodeSpan field n = .ok d) ↔ 0 ≤ n.toInt := by
  unfold decodeSpan
  by_cases negative : n.toInt < 0
  · simp [negative]
  · simp [negative]
    omega

theorem toUInt32_eq_ok {field : String} {n : Int64} {m : UInt32} :
    toUInt32 field n = .ok m ↔ (m.toNat : Int) = n.toInt := by
  have bound : m.toNat < 2 ^ 32 := m.toNat_lt
  unfold toUInt32
  split
  · rename_i fits
    rw [Except.ok.injEq]
    constructor
    · rintro rfl
      have value : (UInt32.ofNat n.toInt.toNat).toNat = n.toInt.toNat :=
        Nat.mod_eq_of_lt (by omega)
      omega
    · intro same
      rw [← same, Int.toNat_natCast, UInt32.ofNat_toNat]
  · refine iff_of_false (by simp) ?_
    omega

theorem exists_toUInt32 {field : String} {n : Int64} :
    (∃ m, toUInt32 field n = .ok m) ↔ InRange 0 0xFFFFFFFF n := by
  unfold toUInt32 InRange
  by_cases fits : 0 ≤ n.toInt ∧ n.toInt < 0x100000000
  · simp [fits]
    omega
  · simp [fits]
    omega

theorem toInt32_eq_ok {field : String} {n : Int64} {m : Int32} :
    toInt32 field n = .ok m ↔ m.toInt = n.toInt := by
  have above := m.le_toInt
  have below := m.toInt_lt
  unfold toInt32
  split
  · rename_i fits
    rw [Except.ok.injEq]
    constructor
    · rintro rfl
      exact Int32.toInt_ofInt_of_le fits.1 fits.2
    · intro same
      rw [← same, Int32.ofInt_toInt]
  · refine iff_of_false (by simp) ?_
    omega

theorem exists_toInt32 {field : String} {n : Int64} :
    (∃ m, toInt32 field n = .ok m) ↔ InRange (-0x80000000) 0x7FFFFFFF n := by
  unfold toInt32 InRange
  by_cases fits : -0x80000000 ≤ n.toInt ∧ n.toInt < 0x80000000
  · simp [fits]
    omega
  · simp [fits]
    omega

theorem exists_decodeMetadata {text : String} :
    (∃ bytes, (Hex.decode text).mapError FieldError.badMetadata = .ok bytes) ↔ IsHex text := by
  rw [IsHex, ← Hex.exists_decode]
  cases Hex.decode text <;> simp [Except.mapError]

end Field

theorem StateRecord.exists_decode {r : StateRecord} {token : VersionToken} :
    (∃ s, r.decode token = .ok s) ↔ InRange 0 4 r.status := by
  rw [← Status.exists_ofCode?, decode]
  cases Status.ofCode? r.status <;> simp

/-! ## Texts that a plugin takes -/

namespace Plugin

variable {plugin : Plugin} {text : String}

/-- A text is empty, for no request, or denotes a request of the plugin. -/
def TakesRequest (plugin : Plugin) (text : String) : Prop :=
  text = "" ∨ ∃ v, Json.read? Json.storedDepth text = some v ∧
    ∃ p, plugin.decodeRequest v.normalize = some p

/-- A text denotes an attempt, and the response in it, if there is one, is of the plugin. -/
def TakesAttempt (plugin : Plugin) (text : String) : Prop :=
  ∃ r, AttemptRecord.ofText? text = some r ∧
    ∀ v ∈ r.response, ∃ p, plugin.decodeResponse v.normalize = some p

theorem decodeRequest_eq_ok {q : Option Payload} :
    Action.decodeRequest plugin text = .ok q ↔ text = "" ∧ q = none ∨
      text ≠ "" ∧ ∃ v, Json.read? Json.storedDepth text = some v ∧
        ∃ p, plugin.decodeRequest v.normalize = some p ∧ q = some p := by
  unfold Action.decodeRequest
  by_cases isEmpty : text = ""
  · simp [isEmpty, @eq_comm _ none q]
  · cases isRead : Json.read? Json.storedDepth text with
    | none => simp [isEmpty]
    | some v =>
      cases decoded : plugin.decodeRequest v.normalize <;>
        simp [isEmpty, decoded, @eq_comm _ (some _) q]

theorem decodeResponse_eq_ok {response : Option Json} {q : Option Payload} :
    Attempt.decodeResponse plugin response = .ok q ↔ response = none ∧ q = none ∨
      ∃ v, response = some v ∧ ∃ p, plugin.decodeResponse v.normalize = some p ∧ q = some p := by
  cases response with
  | none => simp [Attempt.decodeResponse, @eq_comm _ none q]
  | some v =>
    cases decoded : plugin.decodeResponse v.normalize <;>
      simp [Attempt.decodeResponse, decoded, @eq_comm _ (some _) q]

theorem decodeAttempt_eq_ok {y : Attempt} :
    Attempt.decode plugin text = .ok y ↔ ∃ r, AttemptRecord.ofText? text = some r ∧
      ∃ q, Attempt.decodeResponse plugin r.response = .ok q ∧
        ⟨q, r.error, Field.decodeInstant r.start, Field.decodeInstant r.finish⟩ = y := by
  unfold Attempt.decode
  cases AttemptRecord.ofText? text with
  | none => simp
  | some r => simp [Except.bind_eq_ok, pure, Except.pure]

theorem takesRequest_iff :
    plugin.TakesRequest text ↔ ∃ q, Action.decodeRequest plugin text = .ok q := by
  simp only [decodeRequest_eq_ok, TakesRequest]
  by_cases isEmpty : text = "" <;> simp [isEmpty]

theorem takesAttempt_iff :
    plugin.TakesAttempt text ↔ ∃ y, Attempt.decode plugin text = .ok y := by
  simp only [decodeAttempt_eq_ok, decodeResponse_eq_ok, TakesAttempt]
  constructor
  · rintro ⟨r, isRead, taken⟩
    cases response : r.response with
    | none => exact ⟨_, r, isRead, none, .inl ⟨response, rfl⟩, rfl⟩
    | some v =>
      obtain ⟨p, decoded⟩ := taken v response
      exact ⟨_, r, isRead, some p, .inr ⟨v, response, p, decoded, rfl⟩, rfl⟩
  · rintro ⟨_, r, isRead, q, decoded, rfl⟩
    refine ⟨r, isRead, fun v isResponse => ?_⟩
    rcases decoded with ⟨isNone, _⟩ | ⟨w, isSome, p, decoded, _⟩
    · simp [isNone] at isResponse
    · rw [isSome] at isResponse
      cases isResponse
      exact ⟨p, decoded⟩

end Plugin

/-! ## Documents of each kind -/

/-- What must hold of the document of a plan. -/
@[mk_iff]
structure PlanDocument.Valid (d : PlanDocument) : Prop where
  groupId : IsOptionalId d.groupId
  metadata : IsHex d.metadata
  status : InRange 0 4 d.state.status
  reason : InRange 0 5 d.reason

/-- What must hold of the document of a block. -/
@[mk_iff]
structure BlockDocument.Valid (d : BlockDocument) : Prop where
  key : IsOptionalId d.key
  entranceDelay : 0 ≤ d.entranceDelay.toInt
  exitDelay : 0 ≤ d.exitDelay.toInt
  concurrency : InRange 0 0xFFFFFFFF d.concurrency
  toleratedFailures : InRange (-0x80000000) 0x7FFFFFFF d.toleratedFailures
  status : InRange 0 4 d.state.status

/-- What must hold of the document of checks. -/
@[mk_iff]
structure ChecksDocument.Valid (d : ChecksDocument) : Prop where
  key : IsOptionalId d.key
  delay : 0 ≤ d.delay.toInt
  status : InRange 0 4 d.state.status

/-- What must hold of the document of a sequence. -/
@[mk_iff]
structure SequenceDocument.Valid (d : SequenceDocument) : Prop where
  key : IsOptionalId d.key
  status : InRange 0 4 d.state.status

/-- What must hold of the document of an action: a registered plugin takes its payloads. -/
@[mk_iff]
structure ActionDocument.Valid (registry : Registry) (d : ActionDocument) : Prop where
  payloads : ∃ plugin, registry.lookup? d.plugin = some plugin ∧ plugin.TakesRequest d.request ∧
    ∀ text ∈ d.attempts, plugin.TakesAttempt text
  key : IsOptionalId d.key
  timeout : 0 ≤ d.timeout.toInt
  retries : InRange 0 0xFFFFFFFF d.retries
  status : InRange 0 4 d.state.status

variable {token : VersionToken}

theorem PlanDocument.decodes_iff_valid {d : PlanDocument} :
    (∃ p, d.decode token = .ok p) ↔ d.Valid := by
  rw [PlanDocument.valid_iff, ← FailureReason.exists_ofCode?]
  simp only [decode, Except.exists_ok_bind]
  cases FailureReason.ofCode? d.reason with
  | none => simp
  | some reason =>
    simp only [Except.exists_ok_pure, and_true, exists_and_right, Field.exists_decodeId,
      Field.exists_decodeMetadata, StateRecord.exists_decode, Option.some.injEq, exists_eq']

theorem BlockDocument.decodes_iff_valid {d : BlockDocument} :
    (∃ b, d.decode token = .ok b) ↔ d.Valid := by
  simp only [decode, Except.exists_ok_bind, Except.exists_ok_pure, and_true, exists_and_right,
    Field.exists_decodeId, Field.exists_decodeSpan, Field.exists_toUInt32, Field.exists_toInt32,
    StateRecord.exists_decode, BlockDocument.valid_iff]

theorem ChecksDocument.decodes_iff_valid {d : ChecksDocument} :
    (∃ c, d.decode token = .ok c) ↔ d.Valid := by
  simp only [decode, Except.exists_ok_bind, Except.exists_ok_pure, and_true, exists_and_right,
    Field.exists_decodeId, Field.exists_decodeSpan, StateRecord.exists_decode,
    ChecksDocument.valid_iff]

theorem SequenceDocument.decodes_iff_valid {d : SequenceDocument} :
    (∃ q, d.decode token = .ok q) ↔ d.Valid := by
  simp only [decode, Except.exists_ok_bind, Except.exists_ok_pure, and_true, exists_and_right,
    Field.exists_decodeId, StateRecord.exists_decode, SequenceDocument.valid_iff]

theorem ActionDocument.decodes_iff_valid {d : ActionDocument} {registry : Registry} :
    (∃ x, d.decode token registry = .ok x) ↔ d.Valid registry := by
  rw [decode, ActionDocument.valid_iff]
  cases registered : registry.lookup? d.plugin with
  | none => simp
  | some plugin =>
    simp only [Except.exists_ok_bind, Except.exists_ok_pure, Except.exists_ok_mapM, and_true,
      exists_and_right, Field.exists_decodeId, Field.exists_decodeSpan, Field.exists_toUInt32,
      StateRecord.exists_decode, ← Plugin.takesRequest_iff, ← Plugin.takesAttempt_iff,
      Option.some.injEq, exists_eq_left', and_assoc]

/-! ## Documents of any kind -/

namespace Document

/-- The entity of a document, without its children. -/
def decodeEntity (registry : Registry) (token : VersionToken) :
    Document → Except FieldError Entity
  | .plan d => (d.decode token).map .plan
  | .block d => (d.decode token).map .block
  | .checks d => (d.decode token).map .checks
  | .sequence d => (d.decode token).map .sequence
  | .action d => (d.decode token registry).map .action

/-- What must hold of a document for an entity to be decoded from it. -/
def Valid (registry : Registry) : Document → Prop
  | .plan d => d.Valid
  | .block d => d.Valid
  | .checks d => d.Valid
  | .sequence d => d.Valid
  | .action d => d.Valid registry

/-- Exactly the valid documents are accepted. -/
theorem exists_decodeEntity {d : Document} {registry : Registry} :
    (∃ x, d.decodeEntity registry token = .ok x) ↔ d.Valid registry := by
  cases d with
  | plan d => rw [decodeEntity, Except.exists_ok_map, PlanDocument.decodes_iff_valid, Valid]
  | block d => rw [decodeEntity, Except.exists_ok_map, BlockDocument.decodes_iff_valid, Valid]
  | checks d => rw [decodeEntity, Except.exists_ok_map, ChecksDocument.decodes_iff_valid, Valid]
  | sequence d => rw [decodeEntity, Except.exists_ok_map, SequenceDocument.decodes_iff_valid, Valid]
  | action d => rw [decodeEntity, Except.exists_ok_map, ActionDocument.decodes_iff_valid, Valid]

end Document

end PlanArchive
