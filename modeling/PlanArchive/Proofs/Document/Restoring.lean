import PlanArchive.Proofs.Document.Encodable
import PlanArchive.Proofs.Document.Payload
import PlanArchive.Proofs.Json.Embedded

/-!
# Which payloads are restored

An action is stored with the texts of its payloads, whatever these look like. It is decoded again
exactly when each of them is `Restorable`: nested no deeper than the reader of its text allows, and
with texts inside that denote something the plugin decodes (`ActionDocument.exists_decode`). Where
no text is inside a payload that the plugin decodes, only the nesting counts
(`Action.restorable_iff_shallow`).
-/

namespace PlanArchive

/-! ## Conditions on payloads -/

/-- The plugin decodes the encoding of the payload, whose numbers are exact, to an equal payload. -/
def Payload.Decodes (decode : Json → Option Payload) (p : Payload) : Prop :=
  ∀ v, p.toJson = .ok v → v.Exact ∧ ∃ q, decode v = some q ∧ q.comparable = p.comparable

/-- The encoding of the payload is nested no deeper than `depth`, and what it denotes with the texts
inside it read is decoded. -/
def Payload.Restorable (decode : Json → Option Payload) (depth : Nat) (p : Payload) : Prop :=
  ∀ v, p.toJson = .ok v → v.nesting ≤ depth ∧
    ∃ w, v.expand (Json.read? Json.storedDepth) = some w ∧ ∃ q, decode w.normalize = some q

/-- The encoding of the payload has no text inside. -/
def Payload.Legible (p : Payload) : Prop := ∀ v, p.toJson = .ok v → v.Legible

/-- The encoding of the payload is nested no deeper than `depth`. -/
def Payload.NestsWithin (depth : Nat) (p : Payload) : Prop :=
  ∀ v, p.toJson = .ok v → v.nesting ≤ depth

namespace Action

/-- The requests and the responses of the action have properties. -/
def PayloadsSatisfy (request response : Payload → Prop) (a : Action) : Prop :=
  (∀ p ∈ a.request, request p) ∧ ∀ attempt ∈ a.attempts, ∀ p ∈ attempt.response, response p

/-- A registered plugin decodes the payloads of the action to equal ones. -/
def Decodes (registry : Registry) (a : Action) : Prop :=
  ∃ plugin, registry.lookup? a.plugin = some plugin ∧
    a.PayloadsSatisfy (·.Decodes plugin.decodeRequest) (·.Decodes plugin.decodeResponse)

/-- The payloads of the action are restored. A response is stored inside the text of its attempt,
so that it may be nested one container less deep than a request. -/
def Restorable (registry : Registry) (a : Action) : Prop :=
  ∃ plugin, registry.lookup? a.plugin = some plugin ∧
    a.PayloadsSatisfy (·.Restorable plugin.decodeRequest Json.storedDepth)
      (·.Restorable plugin.decodeResponse (Json.storedDepth - 1))

/-- The payloads of the action have no texts inside. -/
def Legible (a : Action) : Prop := a.PayloadsSatisfy Payload.Legible Payload.Legible

/-- The payloads of the action are nested no deeper than texts may be. -/
def Shallow (a : Action) : Prop :=
  a.PayloadsSatisfy (·.NestsWithin Json.storedDepth) (·.NestsWithin (Json.storedDepth - 1))

end Action

variable {plugin : Plugin}

/-- Of a legible payload that is decoded only the nesting counts. -/
theorem Payload.restorable_iff_nestsWithin {decode : Json → Option Payload} {depth : Nat}
    {p : Payload} (decodes : p.Decodes decode) (legible : p.Legible) :
    p.Restorable decode depth ↔ p.NestsWithin depth := by
  constructor
  · exact fun restorable v isValue => (restorable v isValue).1
  · intro shallow v isValue
    obtain ⟨_, q, decoded, _⟩ := decodes v isValue
    refine ⟨shallow v isValue, v, Json.expand_of_legible _ v (legible v isValue), q, ?_⟩
    rw [normalize_of_toJson isValue, decoded]

theorem Action.restorable_iff_shallow {registry : Registry} {a : Action}
    (decodes : a.Decodes registry) (legible : a.Legible) : a.Restorable registry ↔ a.Shallow := by
  obtain ⟨plugin, registered, requestDecodes, responsesDecode⟩ := decodes
  have requests : (∀ p ∈ a.request, p.Restorable plugin.decodeRequest Json.storedDepth) ↔
      ∀ p ∈ a.request, p.NestsWithin Json.storedDepth :=
    forall₂_congr fun p isRequest =>
      Payload.restorable_iff_nestsWithin (requestDecodes p isRequest) (legible.1 p isRequest)
  have responses : (∀ attempt ∈ a.attempts, ∀ p ∈ attempt.response,
        p.Restorable plugin.decodeResponse (Json.storedDepth - 1)) ↔
      ∀ attempt ∈ a.attempts, ∀ p ∈ attempt.response, p.NestsWithin (Json.storedDepth - 1) :=
    forall₂_congr fun x member => forall₂_congr fun p isResponse =>
      Payload.restorable_iff_nestsWithin (responsesDecode x member p isResponse)
        (legible.2 x member p isResponse)
  simp only [Restorable, registered, Option.some.injEq, exists_eq_left', PayloadsSatisfy, Shallow,
    requests, responses]

/-! ## Requests -/

/-- What is decoded from the text of a request. -/
theorem Action.decodeRequest_toText {v : Json} (isExact : v.Exact) {q : Option Payload} :
    decodeRequest plugin v.toText = .ok q ↔ v.nesting ≤ Json.storedDepth ∧
      ∃ w, v.expand (Json.read? Json.storedDepth) = some w ∧
        ∃ p, plugin.decodeRequest w.normalize = some p ∧ q = some p := by
  rw [decodeRequest, Json.isEmpty_toText isExact, Json.read?_toText_eq isExact,
    Json.Reader.within?]
  by_cases shallow : v.nesting ≤ Json.storedDepth
  · cases expanded : v.expand (Json.read? Json.storedDepth) with
    | none => simp [shallow, expanded]
    | some w =>
      cases decoded : plugin.decodeRequest w.normalize <;>
        simp [shallow, expanded, decoded, eq_comm]
  · simp [shallow]

theorem Action.exists_decodeRequest {request : Option Payload} {text : String}
    (decodes : ∀ p ∈ request, p.Decodes plugin.decodeRequest)
    (encoded : encodeRequest request = .ok text) :
    (∃ d, decodeRequest plugin text = .ok d) ↔
      ∀ p ∈ request, p.Restorable plugin.decodeRequest Json.storedDepth := by
  obtain ⟨rfl, rfl⟩ | ⟨p, v, rfl, isValue, rfl⟩ := encodeRequest_cases encoded
  · exact iff_of_true ⟨none, rfl⟩ (by simp)
  · obtain ⟨isExact, _⟩ := decodes p rfl v isValue
    simp only [decodeRequest_toText isExact, Payload.Restorable, Option.mem_some_iff, forall_eq',
      isValue, Except.ok.injEq]
    constructor
    · rintro ⟨_, shallow, w, expanded, r, decoded, rfl⟩
      exact ⟨shallow, w, expanded, r, decoded⟩
    · rintro ⟨shallow, w, expanded, r, decoded⟩
      exact ⟨some r, shallow, w, expanded, r, decoded, rfl⟩

/-! ## Responses -/

/-- What is decoded from the text of an attempt depends on its response. -/
theorem Attempt.decode_toText {r : AttemptRecord} (isExact : ∀ v ∈ r.response, v.Exact)
    {y : Attempt} :
    decode plugin r.toText = .ok y ↔
      (AttemptRecord.optional r.response).nesting ≤ Json.storedDepth - 1 ∧
        ∃ w, AttemptRecord.responseOf? (r.response.bind AttemptRecord.present?) = some w ∧
          ∃ q, decodeResponse plugin w = .ok q ∧
            ⟨q, r.error, Field.decodeInstant r.start, Field.decodeInstant r.finish⟩ = y := by
  rw [decode, AttemptRecord.ofText?_toText_eq isExact, Json.Reader.within?]
  by_cases shallow : (AttemptRecord.optional r.response).nesting ≤ Json.storedDepth - 1
  · cases restored : AttemptRecord.responseOf? (r.response.bind AttemptRecord.present?) with
    | none => simp [shallow]
    | some w => simp [shallow, Except.bind_eq_ok, pure, Except.pure]
  · simp [shallow]

/-- A response is decoded from a value in the text of an attempt when the value is not null, which
stands for no response, and the plugin decodes what it denotes. -/
theorem Attempt.decodeResponse_stored {v : Json} {p : Payload} :
    (∃ w, AttemptRecord.responseOf? (AttemptRecord.present? v) = some w ∧
        decodeResponse plugin w = .ok (some p)) ↔
      v ≠ .null ∧ ∃ w, v.expand (Json.read? Json.storedDepth) = some w ∧
        plugin.decodeResponse w.normalize = some p := by
  by_cases isNull : v = .null
  · subst isNull
    refine iff_of_false ?_ fun decoded => decoded.1 rfl
    rintro ⟨w, restored, decoded⟩
    cases restored
    cases decoded
  · simp only [AttemptRecord.present?_of_ne isNull, AttemptRecord.responseOf?, ne_eq, isNull,
      not_false_eq_true, true_and, Option.map_eq_some_iff]
    constructor
    · rintro ⟨_, ⟨w, expanded, rfl⟩, decoded⟩
      refine ⟨w, expanded, ?_⟩
      cases known : plugin.decodeResponse w.normalize <;> simp_all [decodeResponse]
    · rintro ⟨w, expanded, decoded⟩
      exact ⟨some w, ⟨w, expanded, rfl⟩, by simp [decodeResponse, decoded]⟩

theorem Attempt.exists_decode_toText {r : AttemptRecord} (isExact : ∀ v ∈ r.response, v.Exact) :
    (∃ b, decode plugin r.toText = .ok b) ↔
      (AttemptRecord.optional r.response).nesting ≤ Json.storedDepth - 1 ∧
        ∃ w, AttemptRecord.responseOf? (r.response.bind AttemptRecord.present?) = some w ∧
          ∃ d, decodeResponse plugin w = .ok d := by
  simp only [decode_toText isExact]
  constructor
  · rintro ⟨_, shallow, w, restored, q, decoded, _⟩
    exact ⟨shallow, w, restored, q, decoded⟩
  · rintro ⟨shallow, w, restored, q, decoded⟩
    exact ⟨_, shallow, w, restored, q, decoded, rfl⟩

theorem Attempt.exists_decode {x : Attempt} {r : AttemptRecord}
    (decodes : ∀ p ∈ x.response, p.Decodes plugin.decodeResponse) (encoded : x.encode = .ok r) :
    (∃ b, decode plugin r.toText = .ok b) ↔
      ∀ p ∈ x.response, p.Restorable plugin.decodeResponse (Json.storedDepth - 1) := by
  simp only [encode, Except.bind_eq_ok, pure, Except.pure, Except.ok.injEq] at encoded
  obtain ⟨stored, responseEncoded, start, _, finish, _, rfl⟩ := encoded
  cases response : x.response with
  | none =>
    rw [response] at responseEncoded
    cases responseEncoded
    rw [exists_decode_toText (by simp)]
    exact iff_of_true ⟨Nat.zero_le _, none, rfl, none, rfl⟩ (by simp)
  | some p =>
    rw [response] at responseEncoded
    obtain ⟨v, isValue, rfl⟩ := Attempt.encodePayload_some responseEncoded
    obtain ⟨isExact, q, decoded, _⟩ := decodes p response v isValue
    rw [exists_decode_toText (by simpa using isExact)]
    simp only [Option.mem_some_iff, forall_eq', Payload.Restorable, isValue, Except.ok.injEq]
    by_cases isNull : v = .null
    · subst isNull
      refine iff_of_true ⟨Nat.zero_le _, none, rfl, none, rfl⟩ ⟨Nat.zero_le _, .null, rfl, q, ?_⟩
      exact decoded
    · have present := AttemptRecord.present?_of_ne isNull
      refine and_congr Iff.rfl ?_
      simp only [Option.bind_some, present, AttemptRecord.responseOf?, Option.map_eq_some_iff]
      cases v.expand (Json.read? Json.storedDepth) with
      | none => simp
      | some w => cases known : plugin.decodeResponse w.normalize <;> simp [decodeResponse, known]

/-! ## Actions -/

/-- An action is decoded from its document exactly when its payloads are restored. -/
theorem ActionDocument.exists_decode {part : String} {planId : Uuid} {position : Nat} {a : Action}
    {d : ActionDocument} {registry : Registry} (decodes : a.Decodes registry)
    (encoded : encode part planId position a = .ok d) (token : VersionToken) :
    (∃ b, d.decode token registry = .ok b) ↔ a.Restorable registry := by
  simp only [encode, Except.bind_eq_ok, pure, Except.pure, Except.ok.injEq] at encoded
  obtain ⟨request, requestEncoded, position, -, timeout, timeoutEncoded, attempts,
    attemptsEncoded, state, stateEncoded, rfl⟩ := encoded
  obtain ⟨plugin, registered, requestDecodes, responsesDecode⟩ := decodes
  have requests := Action.exists_decodeRequest requestDecodes requestEncoded
  have each : ∀ x ∈ a.attempts, ∀ r, x.encode = .ok r →
      ((∃ b, Attempt.decode plugin r.toText = .ok b) ↔
        ∀ p ∈ x.response, p.Restorable plugin.decodeResponse (Json.storedDepth - 1)) :=
    fun x member r isRecord => Attempt.exists_decode (responsesDecode x member) isRecord
  have responses := Except.forall_mem_mapM each attemptsEncoded
  have texts : (∃ xs, (attempts.map AttemptRecord.toText).mapM (Attempt.decode plugin) = .ok xs) ↔
      ∀ r ∈ attempts, ∃ b, Attempt.decode plugin r.toText = .ok b := by
    rw [Except.exists_ok_mapM, List.forall_mem_map]
  rw [decode]
  simp only [registered, Except.exists_ok_bind, Except.exists_ok_pure, and_true, texts,
    responses, requests, exists_and_right, Field.decodeId_encodeId,
    Field.decodeSpan_of_encodeSpan timeoutEncoded, Field.toUInt32_ofUInt32,
    StateRecord.decode_of_encode stateEncoded, Except.ok.injEq, exists_eq', Action.Restorable,
    Option.some.injEq, exists_eq_left', Action.PayloadsSatisfy]

end PlanArchive
