import PlanArchive.Proofs.Document.Canonical
import PlanArchive.Proofs.Document.Coherence
import PlanArchive.Proofs.Document.Faithful

/-!
# Payloads that are written again

The payloads of a decoded action are written as their plugin encodes them. `RewritesRequest` and
`RewritesAttempt` relate the text that was read to the one that is written, which need not be the
same: blanks, the order of fields and what the plugin does not keep are gone
(`ActionDocument.encode_of_decode`).

The new texts are decoded to the same payloads exactly when each payload is `Restored` and no
response is null (`ActionDocument.decode_self_iff`).
-/

namespace PlanArchive

variable {plugin : Plugin} {text : String}

/-! ## Requests -/

/-- The text of a request and the text that the request in it is written as. -/
inductive Plugin.RewritesRequest (plugin : Plugin) : String → String → Prop
  | absent : RewritesRequest plugin "" ""
  | payload {text : String} {v w : Json} {p : Payload}
      (isRead : Json.read? Json.storedDepth text = some v)
      (decoded : plugin.decodeRequest v.normalize = some p) (encoded : p.toJson = .ok w) :
      RewritesRequest plugin text w.toText

theorem Action.request_known (coherent : plugin.Coherent) {q : Option Payload}
    (decoded : decodeRequest plugin text = .ok q) : ∀ p ∈ q, p.KnownTo plugin.decodeRequest := by
  rcases Plugin.decodeRequest_eq_ok.mp decoded with ⟨_, rfl⟩ | ⟨_, v, _, p, payloadDecoded, rfl⟩
  · simp
  · rintro _ ⟨⟩
    exact coherent.request _ p payloadDecoded

theorem Action.encodeRequest_of_decodeRequest (coherent : plugin.Coherent) {q : Option Payload}
    (decoded : decodeRequest plugin text = .ok q) :
    ∃ again, encodeRequest q = .ok again ∧ plugin.RewritesRequest text again := by
  rcases Plugin.decodeRequest_eq_ok.mp decoded with
    ⟨rfl, rfl⟩ | ⟨_, v, isRead, p, payloadDecoded, rfl⟩
  · exact ⟨"", rfl, .absent⟩
  · obtain ⟨w, encoded, _⟩ := coherent.request _ p payloadDecoded
    refine ⟨w.toText, ?_, .payload isRead payloadDecoded encoded⟩
    simp [encodeRequest, Attempt.encodePayload, encoded, bind, Except.bind, pure, Except.pure]

/-! ## Attempts -/

/-- The response in an attempt and what it is written as. -/
inductive Plugin.RewritesResponse (plugin : Plugin) : Option Json → Option Json → Prop
  | absent : RewritesResponse plugin none none
  | payload {v w : Json} {p : Payload} (decoded : plugin.decodeResponse v.normalize = some p)
      (encoded : p.toJson = .ok w) : RewritesResponse plugin (some v) (some w)

/-- The attempt with a response and with points in time that stand for none as zero. -/
def AttemptRecord.canonical (response : Option Json) (r : AttemptRecord) : AttemptRecord where
  response := response
  error := r.error
  start := Field.canonicalInstant r.start
  finish := Field.canonicalInstant r.finish

/-- The text of an attempt and the text that the attempt in it is written as. -/
def Plugin.RewritesAttempt (plugin : Plugin) (text again : String) : Prop :=
  ∃ r response, AttemptRecord.ofText? text = some r ∧ plugin.RewritesResponse r.response response ∧
    again = (r.canonical response).toText

theorem Attempt.encode_of_decode (coherent : plugin.Coherent) {y : Attempt}
    (decoded : decode plugin text = .ok y) :
    ∃ r, y.encode = .ok r ∧ plugin.RewritesAttempt text r.toText := by
  obtain ⟨r, isRead, q, responseDecoded, rfl⟩ := Plugin.decodeAttempt_eq_ok.mp decoded
  obtain ⟨response, encoded, rewrites⟩ : ∃ response, encodePayload "attempts" q = .ok response ∧
      plugin.RewritesResponse r.response response := by
    rcases Plugin.decodeResponse_eq_ok.mp responseDecoded with
      ⟨isNone, rfl⟩ | ⟨v, isSome, p, payloadDecoded, rfl⟩
    · rw [isNone]
      exact ⟨none, rfl, .absent⟩
    · obtain ⟨w, encoded, _⟩ := coherent.response _ p payloadDecoded
      rw [isSome]
      exact ⟨some w, by simp [encodePayload, encoded], .payload payloadDecoded encoded⟩
  refine ⟨r.canonical response, ?_, r, response, isRead, rewrites, rfl⟩
  rw [encode, encoded, Field.encodeInstant_decodeInstant, Field.encodeInstant_decodeInstant]
  rfl

theorem Attempt.response_known (coherent : plugin.Coherent) {y : Attempt}
    (decoded : decode plugin text = .ok y) : ∀ p ∈ y.response, p.KnownTo plugin.decodeResponse := by
  obtain ⟨r, _, q, responseDecoded, rfl⟩ := Plugin.decodeAttempt_eq_ok.mp decoded
  rcases Plugin.decodeResponse_eq_ok.mp responseDecoded with
    ⟨_, rfl⟩ | ⟨v, _, p, payloadDecoded, rfl⟩
  · simp
  · rintro _ ⟨⟩
    exact coherent.response _ p payloadDecoded

/-- An attempt that was decoded has no points in time that stand for none. -/
theorem Attempt.normal_of_decode {y : Attempt} (decoded : decode plugin text = .ok y) :
    y.normal = y := by
  obtain ⟨r, _, q, _, rfl⟩ := Plugin.decodeAttempt_eq_ok.mp decoded
  simp only [normal, Field.kept?_decodeInstant]

/-! ## Actions -/

variable {part : String} {planId : Uuid} {position : Nat} {registry : Registry}
  {token : VersionToken}

/-- The document of the action that the document is decoded to, given the texts of its payloads. -/
def ActionDocument.canonical (part : String) (planId : Uuid) (position : Nat) (request : String)
    (attempts : List String) (d : ActionDocument) : ActionDocument :=
  { d with
    part := part
    key := Field.canonicalId d.key
    planId := planId
    position := Int64.ofInt position
    request := request
    attempts := attempts
    state := d.state.canonical }

/-- What an action is decoded from: each field by itself. -/
theorem ActionDocument.decode_cases {d : ActionDocument} {x : Action}
    (decoded : d.decode token registry = .ok x) :
    ∃ plugin request attempts key timeout retries state,
      registry.lookup? d.plugin = some plugin ∧
      Action.decodeRequest plugin d.request = .ok request ∧
      d.attempts.mapM (Attempt.decode plugin) = .ok attempts ∧
      Field.decodeId "key" d.key = .ok key ∧ Field.decodeSpan "timeout" d.timeout = .ok timeout ∧
      Field.toUInt32 "retries" d.retries = .ok retries ∧ d.state.decode token = .ok state ∧
      ⟨d.id, key, d.name, d.descr, d.plugin, timeout, retries, request, attempts, state⟩ = x := by
  rw [decode] at decoded
  cases registered : registry.lookup? d.plugin with
  | none => simp [registered] at decoded
  | some plugin =>
    simp only [registered, Except.bind_eq_ok, pure, Except.pure, Except.ok.injEq] at decoded
    obtain ⟨request, isRequest, attempts, areAttempts, key, isKey, timeout, isTimeout, retries,
      areRetries, state, isState, made⟩ := decoded
    exact ⟨plugin, request, attempts, key, timeout, retries, state, rfl, isRequest, areAttempts,
      isKey, isTimeout, areRetries, isState, made⟩

/-- The decoded action can be encoded, and its texts rewrite those that it was decoded from. -/
theorem ActionDocument.encode_of_decode {d : ActionDocument} {x : Action}
    (coherent : registry.Coherent) (decoded : d.decode token registry = .ok x)
    (fits : FitsInt64 position) (part : String) (planId : Uuid) :
    ∃ plugin request attempts, registry.lookup? d.plugin = some plugin ∧
      plugin.RewritesRequest d.request request ∧
      List.Forall₂ plugin.RewritesAttempt d.attempts attempts ∧
      encode part planId position x =
        .ok (d.canonical part planId position request attempts) := by
  obtain ⟨plugin, request, attempts, key, timeout, retries, state, registered, isRequest,
    areAttempts, isKey, isTimeout, areRetries, isState, rfl⟩ := decode_cases decoded
  have knows := coherent.of_lookup? registered
  obtain ⟨newRequest, requestEncoded, requestRewritten⟩ :=
    Action.encodeRequest_of_decodeRequest knows isRequest
  obtain ⟨records, attemptsEncoded, attemptsRewritten⟩ := Except.mapM_related
    (fun _ _ _ attemptDecoded => Attempt.encode_of_decode knows attemptDecoded) areAttempts
  obtain ⟨stateEncoded, _⟩ := StateRecord.encode_of_decode isState
  refine ⟨plugin, newRequest, records.map AttemptRecord.toText, registered, requestRewritten,
    List.forall₂_map_right_iff.mpr attemptsRewritten, ?_⟩
  rw [encode, requestEncoded, Field.encodePosition_of_fits fits,
    Field.encodeSpan_of_decodeSpan isTimeout, attemptsEncoded, stateEncoded]
  simp only [Field.encodeId_of_decodeId isKey, Field.ofUInt32_of_toUInt32 areRetries]
  rfl

theorem ActionDocument.normal_of_decode {d : ActionDocument} {x : Action}
    (decoded : d.decode token registry = .ok x) :
    { x.normal with
      attempts := x.attempts
      state := { x.state.normal with token := some token } } = x := by
  obtain ⟨_, _, _, _, _, _, _, _, _, _, isKey, _, _, isState, rfl⟩ := decode_cases decoded
  obtain ⟨_, stateNormal⟩ := StateRecord.encode_of_decode isState
  simp only [Action.normal, Field.notNil?_of_decodeId isKey, stateNormal]

/-! ## Payloads that are restored -/

/-- The numbers in the encoding of the payload are exact. -/
def Payload.Exact (p : Payload) : Prop := ∀ v, p.toJson = .ok v → v.Exact

/-- The encoding of the payload is nested no deeper than `depth`, and what it denotes with the texts
inside it read is decoded to the payload. -/
def Payload.Restored (decode : Json → Option Payload) (depth : Nat) (p : Payload) : Prop :=
  ∀ v, p.toJson = .ok v → v.nesting ≤ depth ∧
    ∃ w, v.expand (Json.read? Json.storedDepth) = some w ∧ decode w.normalize = some p

/-- The payloads of the action are restored, and none of its responses is null. -/
def Action.Restored (registry : Registry) (x : Action) : Prop :=
  ∃ plugin, registry.lookup? x.plugin = some plugin ∧
    x.PayloadsSatisfy (·.Restored plugin.decodeRequest Json.storedDepth)
      fun p => p.toJson ≠ .ok .null ∧ p.Restored plugin.decodeResponse (Json.storedDepth - 1)

/-- Of a payload that its plugin knows, without texts inside, only the nesting counts. -/
theorem Payload.restored_of_legible {decode : Json → Option Payload} {depth : Nat} {p : Payload}
    (known : p.KnownTo decode) (legible : p.Legible) (shallow : p.NestsWithin depth) :
    p.Restored decode depth := by
  obtain ⟨v, isValue, decoded⟩ := known
  intro w isAlsoValue
  cases isValue.symm.trans isAlsoValue
  refine ⟨shallow v isValue, v, Json.expand_of_legible _ v (legible v isValue), ?_⟩
  rw [normalize_of_toJson isValue, decoded]

theorem Action.decodeRequest_self_iff {request : Option Payload}
    (isExact : ∀ p ∈ request, p.Exact) (encoded : encodeRequest request = .ok text) :
    decodeRequest plugin text = .ok request ↔
      ∀ p ∈ request, p.Restored plugin.decodeRequest Json.storedDepth := by
  obtain ⟨rfl, rfl⟩ | ⟨p, v, rfl, isValue, rfl⟩ := encodeRequest_cases encoded
  · exact iff_of_true rfl (by simp)
  · simp only [decodeRequest_toText (isExact p rfl v isValue), Payload.Restored,
      Option.mem_some_iff, forall_eq', isValue, Except.ok.injEq, Option.some.injEq,
      exists_eq_right']

theorem Attempt.decode_self_iff {y : Attempt} {r : AttemptRecord}
    (isExact : ∀ p ∈ y.response, p.Exact) (isNormal : y.normal = y) (encoded : y.encode = .ok r) :
    decode plugin r.toText = .ok y ↔ ∀ p ∈ y.response, p.toJson ≠ .ok .null ∧
      p.Restored plugin.decodeResponse (Json.storedDepth - 1) := by
  simp only [encode, Except.bind_eq_ok, pure, Except.pure, Except.ok.injEq] at encoded
  obtain ⟨stored, responseEncoded, start, startEncoded, finish, finishEncoded, rfl⟩ := encoded
  have sameStart : Field.decodeInstant start = y.start :=
    (Field.decodeInstant_of_encodeInstant startEncoded).trans (congrArg Attempt.start isNormal)
  have sameFinish : Field.decodeInstant finish = y.finish :=
    (Field.decodeInstant_of_encodeInstant finishEncoded).trans (congrArg Attempt.finish isNormal)
  -- Points in time and the failure are those of the attempt, so that only the response matters.
  have rebuilt (q : Option Payload) :
      (⟨q, y.error, Field.decodeInstant start, Field.decodeInstant finish⟩ : Attempt) = y ↔
        q = y.response := by
    rw [sameStart, sameFinish]
    constructor
    · exact congrArg Attempt.response
    · rintro rfl
      rfl
  cases response : y.response with
  | none =>
    rw [response] at responseEncoded
    cases responseEncoded
    refine iff_of_true ((decode_toText (by simp)).mpr ?_) (by simp)
    exact ⟨Nat.zero_le _, none, rfl, none, rfl, (rebuilt none).mpr response.symm⟩
  | some p =>
    rw [response] at responseEncoded
    obtain ⟨v, isValue, rfl⟩ := encodePayload_some responseEncoded
    have exactValue : v.Exact := isExact p response v isValue
    rw [decode_toText (by simpa using exactValue)]
    simp only [rebuilt, response, exists_eq_right, Option.bind_some, decodeResponse_stored,
      Option.mem_some_iff, forall_eq', isValue, Except.ok.injEq, Payload.Restored, ne_eq]
    exact and_left_comm

/-- A decoded action is decoded once more from its document exactly when its payloads are restored
and none of its responses is null. -/
theorem ActionDocument.decode_self_iff {d e : ActionDocument} {x : Action}
    (decoded : d.decode token registry = .ok x)
    (isExact : x.PayloadsSatisfy Payload.Exact Payload.Exact)
    (encoded : encode part planId position x = .ok e) :
    e.decode token registry = .ok x ↔ x.Restored registry := by
  have isNormal := normal_of_decode decoded
  obtain ⟨plugin, registered, attemptsNormal⟩ : ∃ plugin,
      registry.lookup? x.plugin = some plugin ∧ ∀ y ∈ x.attempts, y.normal = y := by
    obtain ⟨plugin, _, _, _, _, _, _, registered, _, areAttempts, _, _, _, _, rfl⟩ :=
      decode_cases decoded
    refine ⟨plugin, registered, fun y member => ?_⟩
    obtain ⟨_, _, attemptDecoded⟩ := Except.mem_of_mapM_result areAttempts member
    exact Attempt.normal_of_decode attemptDecoded
  obtain ⟨requestEncoded, records, attemptsEncoded, areTexts⟩ := payloads_of_encode encoded
  have rebuilt (request : Option Payload) (attempts : List Attempt) :
      { x.normal with
        request := request
        attempts := attempts
        state := { x.state.normal with token := some token } } = x ↔
      request = x.request ∧ attempts = x.attempts := by
    constructor
    · intro same
      exact ⟨congrArg Action.request same, congrArg Action.attempts same⟩
    · rintro ⟨rfl, rfl⟩
      exact isNormal
  have each : ∀ y ∈ x.attempts, ∀ r, y.encode = .ok r →
      ((∃ z, Attempt.decode plugin r.toText = .ok z ∧ z = y) ↔
        ∀ p ∈ y.response, p.toJson ≠ .ok .null ∧
          p.Restored plugin.decodeResponse (Json.storedDepth - 1)) := by
    intro y member r isRecord
    rw [exists_eq_right, Attempt.decode_self_iff (isExact.2 y member) (attemptsNormal y member)
      isRecord]
  have responses := Except.exists_mapM_matching each attemptsEncoded
  simp only [List.forall₂_eq_eq_eq, exists_eq_right] at responses
  rw [decode_eq_ok registered encoded, areTexts, List.mapM_map]
  simp only [rebuilt, Action.Restored, registered, Option.some.injEq, exists_eq_left',
    Action.PayloadsSatisfy, ← responses, ← Action.decodeRequest_self_iff isExact.1 requestEncoded]
  constructor
  · rintro ⟨_, requestDecoded, _, attemptsDecoded, rfl, rfl⟩
    exact ⟨requestDecoded, attemptsDecoded⟩
  · rintro ⟨requestDecoded, attemptsDecoded⟩
    exact ⟨_, requestDecoded, _, attemptsDecoded, rfl, rfl⟩

/-- Without texts inside its payloads and with no payload nested too deep, a decoded action is
restored when no response is null. -/
theorem ActionDocument.restored_iff_of_legible {d : ActionDocument} {x : Action}
    (coherent : registry.Coherent) (decoded : d.decode token registry = .ok x)
    (legible : x.Legible) (shallow : x.Shallow) :
    x.Restored registry ↔
      ∀ attempt ∈ x.attempts, ∀ p ∈ attempt.response, p.toJson ≠ .ok .null := by
  obtain ⟨plugin, request, attempts, _, _, _, _, registered, isRequest, areAttempts, _, _, _, _,
    rfl⟩ := decode_cases decoded
  have knows := coherent.of_lookup? registered
  simp only [Action.Restored, registered, Option.some.injEq, exists_eq_left']
  constructor
  · exact fun restored attempt member p isResponse => (restored.2 attempt member p isResponse).1
  · intro notNull
    refine ⟨fun p isPayload => ?_, fun attempt member p isResponse => ?_⟩
    · exact Payload.restored_of_legible (Action.request_known knows isRequest p isPayload)
        (legible.1 p isPayload) (shallow.1 p isPayload)
    · obtain ⟨_, _, attemptDecoded⟩ := Except.mem_of_mapM_result areAttempts member
      exact ⟨notNull attempt member p isResponse, Payload.restored_of_legible
        (Attempt.response_known knows attemptDecoded p isResponse)
        (legible.2 attempt member p isResponse) (shallow.2 attempt member p isResponse)⟩

end PlanArchive
