import PlanArchive.Proofs.Document.Restoring

/-!
# Which payloads come back

The stored form of an action is there to give its payloads back. It does so exactly when none of its
responses is null and every payload `ComesBack` (`ActionDocument.restores_iff`). Nothing stands for
no request but the empty text, which no payload has, so that a request may be null. In the text of
an attempt null stands for no response, and a response that is null is lost there
(`ActionDocument.null_response_lost`).
-/

namespace PlanArchive

/-! ## Payloads that are the same -/

/-- What the encoding of the payload denotes with the texts inside it read is decoded to an equal
payload. -/
def Payload.ComesBack (decode : Json → Option Payload) (p : Payload) : Prop :=
  ∀ v, p.toJson = .ok v → ∃ w, v.expand (Json.read? Json.storedDepth) = some w ∧
    ∃ q, decode w.normalize = some q ∧ q.comparable = p.comparable

/-- A legible payload that the plugin decodes comes back. -/
theorem Payload.comesBack_of_legible {decode : Json → Option Payload} {p : Payload}
    (decodes : p.Decodes decode) (legible : p.Legible) : p.ComesBack decode := by
  intro v isValue
  obtain ⟨_, q, decoded, same⟩ := decodes v isValue
  refine ⟨v, Json.expand_of_legible _ v (legible v isValue), q, ?_, same⟩
  rw [normalize_of_toJson isValue, decoded]

/-- Both have the same payload, or neither has one. -/
def Payload.SameOptional (first second : Option Payload) : Prop :=
  first.map Payload.comparable = second.map Payload.comparable

/-- Attempts with the same response and the same error. -/
def Attempt.SameResult (x y : Attempt) : Prop :=
  Payload.SameOptional x.response y.response ∧ x.error = y.error

/-- Actions with the same request and with attempts of the same results. -/
structure Action.SamePayloads (x y : Action) : Prop where
  request : Payload.SameOptional x.request y.request
  attempts : List.Forall₂ Attempt.SameResult x.attempts y.attempts

/-- Every payload of the action comes back, and no response is null. -/
def Action.PayloadsComeBack (registry : Registry) (x : Action) : Prop :=
  ∃ plugin, registry.lookup? x.plugin = some plugin ∧
    x.PayloadsSatisfy (·.ComesBack plugin.decodeRequest)
      fun p => p.toJson ≠ .ok .null ∧ p.ComesBack plugin.decodeResponse

variable {plugin : Plugin}

/-! ## Requests -/

theorem Action.decodeRequest_same_iff {request : Option Payload} {text : String}
    (decodes : ∀ p ∈ request, p.Decodes plugin.decodeRequest)
    (shallow : ∀ p ∈ request, p.NestsWithin Json.storedDepth)
    (encoded : encodeRequest request = .ok text) :
    (∃ q, decodeRequest plugin text = .ok q ∧ Payload.SameOptional q request) ↔
      ∀ p ∈ request, p.ComesBack plugin.decodeRequest := by
  obtain ⟨rfl, rfl⟩ | ⟨p, v, rfl, isValue, rfl⟩ := encodeRequest_cases encoded
  · exact iff_of_true ⟨none, rfl, rfl⟩ (by simp)
  · obtain ⟨isExact, _⟩ := decodes p rfl v isValue
    simp only [decodeRequest_toText isExact, shallow p rfl v isValue, true_and,
      Payload.SameOptional, Option.map_some, Option.mem_some_iff, forall_eq', Payload.ComesBack,
      isValue, Except.ok.injEq]
    constructor
    · rintro ⟨_, ⟨w, expanded, q, decoded, rfl⟩, same⟩
      exact ⟨w, expanded, q, decoded, Option.some.inj same⟩
    · rintro ⟨w, expanded, q, decoded, same⟩
      exact ⟨some q, ⟨w, expanded, q, decoded, rfl⟩, congrArg some same⟩

/-! ## Responses -/

theorem Attempt.response_same_iff {response : Option Payload} {stored : Option Json}
    (encoded : encodePayload "attempts" response = .ok stored) :
    (∃ w, AttemptRecord.responseOf? (stored.bind AttemptRecord.present?) = some w ∧
      ∃ q, decodeResponse plugin w = .ok q ∧ Payload.SameOptional q response) ↔
      ∀ p ∈ response, p.toJson ≠ .ok .null ∧ p.ComesBack plugin.decodeResponse := by
  cases response with
  | none =>
    cases encoded
    exact iff_of_true ⟨none, rfl, none, rfl, rfl⟩ (by simp)
  | some p =>
    obtain ⟨v, isValue, rfl⟩ := encodePayload_some encoded
    simp only [Option.bind_some, Option.mem_some_iff, forall_eq', Payload.ComesBack, isValue,
      Except.ok.injEq, ne_eq]
    constructor
    · rintro ⟨w, restored, _ | q, decoded, same⟩
      · cases same
      · obtain ⟨notNull, u, expanded, known⟩ := decodeResponse_stored.mp ⟨w, restored, decoded⟩
        exact ⟨notNull, u, expanded, q, known, Option.some.inj same⟩
    · rintro ⟨notNull, u, expanded, q, known, same⟩
      obtain ⟨w, restored, decoded⟩ := decodeResponse_stored.mpr ⟨notNull, u, expanded, known⟩
      exact ⟨w, restored, some q, decoded, congrArg some same⟩

/-- An attempt that is decoded again has the same response when this one comes back and is not
null. -/
theorem Attempt.decode_same_iff {x : Attempt} {r : AttemptRecord}
    (decodes : ∀ p ∈ x.response, p.Decodes plugin.decodeResponse)
    (shallow : ∀ p ∈ x.response, p.NestsWithin (Json.storedDepth - 1))
    (encoded : x.encode = .ok r) :
    (∃ y, decode plugin r.toText = .ok y ∧ y.SameResult x) ↔
      ∀ p ∈ x.response, p.toJson ≠ .ok .null ∧ p.ComesBack plugin.decodeResponse := by
  simp only [encode, Except.bind_eq_ok, pure, Except.pure, Except.ok.injEq] at encoded
  obtain ⟨stored, responseEncoded, start, _, finish, _, rfl⟩ := encoded
  have readable : (∀ v ∈ stored, v.Exact) ∧
      (AttemptRecord.optional stored).nesting ≤ Json.storedDepth - 1 := by
    cases response : x.response with
    | none =>
      rw [response] at responseEncoded
      cases responseEncoded
      exact ⟨by simp, Nat.zero_le _⟩
    | some p =>
      rw [response] at responseEncoded
      obtain ⟨v, isValue, rfl⟩ := encodePayload_some responseEncoded
      exact ⟨by simpa using (decodes p response v isValue).1, shallow p response v isValue⟩
  have decoded (y : Attempt) :=
    @decode_toText plugin ⟨stored, x.error, start, finish⟩ readable.1 y
  rw [← response_same_iff responseEncoded]
  constructor
  · rintro ⟨y, isDecoded, same, _⟩
    obtain ⟨_, w, restored, q, response, rfl⟩ := (decoded y).mp isDecoded
    exact ⟨w, restored, q, response, same⟩
  · rintro ⟨w, restored, q, response, same⟩
    exact ⟨_, (decoded _).mpr ⟨readable.2, w, restored, q, response, rfl⟩, same, rfl⟩

/-! ## Actions -/

theorem ActionDocument.payloads_of_encode {part : String} {planId : Uuid} {position : Nat}
    {x : Action} {d : ActionDocument} (encoded : encode part planId position x = .ok d) :
    Action.encodeRequest x.request = .ok d.request ∧
      ∃ records, x.attempts.mapM Attempt.encode = .ok records ∧
        d.attempts = records.map AttemptRecord.toText := by
  simp only [encode, Except.bind_eq_ok, pure, Except.pure, Except.ok.injEq] at encoded
  obtain ⟨_, requestEncoded, _, _, _, _, records, attemptsEncoded, _, _, rfl⟩ := encoded
  exact ⟨requestEncoded, records, attemptsEncoded, rfl⟩

/-- Decoding the document of an action decodes the texts of its payloads, and nothing else in it
fails. -/
theorem ActionDocument.decode_eq_ok {part : String} {planId : Uuid} {position : Nat} {x y : Action}
    {d : ActionDocument} {registry : Registry}
    (registered : registry.lookup? x.plugin = some plugin)
    (encoded : encode part planId position x = .ok d) {token : VersionToken} :
    d.decode token registry = .ok y ↔
      ∃ request, Action.decodeRequest plugin d.request = .ok request ∧
        ∃ attempts, d.attempts.mapM (Attempt.decode plugin) = .ok attempts ∧
          { x.normal with
            request := request
            attempts := attempts
            state := { x.state.normal with token := some token } } = y := by
  simp only [encode, Except.bind_eq_ok, pure, Except.pure, Except.ok.injEq] at encoded
  obtain ⟨_, _, _, _, _, timeoutEncoded, _, _, _, stateEncoded, rfl⟩ := encoded
  rw [decode]
  simp [-List.mapM_map, registered, Except.bind_eq_ok, Field.decodeId_encodeId,
    Field.decodeSpan_of_encodeSpan timeoutEncoded, Field.toUInt32_ofUInt32,
    StateRecord.decode_of_encode stateEncoded, Action.normal, pure, Except.pure]

/-- An action is decoded to one with the same payloads exactly when they all come back and none of
its responses is null. For payloads without texts inside it is enough that no response is null. -/
theorem ActionDocument.restores_iff {part : String} {planId : Uuid} {position : Nat} {x : Action}
    {d : ActionDocument} {registry : Registry} (decodes : x.Decodes registry)
    (shallow : x.Shallow) (encoded : encode part planId position x = .ok d)
    (token : VersionToken) :
    ((∃ y, d.decode token registry = .ok y ∧ y.SamePayloads x) ↔ x.PayloadsComeBack registry) ∧
      (x.Legible → ((∃ y, d.decode token registry = .ok y ∧ y.SamePayloads x) ↔
        ∀ attempt ∈ x.attempts, ∀ p ∈ attempt.response, p.toJson ≠ .ok .null)) := by
  obtain ⟨plugin, registered, requestDecodes, responsesDecode⟩ := decodes
  have decoded (y : Action) := @decode_eq_ok plugin part planId position x y d registry
    registered encoded token
  obtain ⟨requestEncoded, records, attemptsEncoded, areTexts⟩ := payloads_of_encode encoded
  have requests := Action.decodeRequest_same_iff requestDecodes shallow.1 requestEncoded
  have attempts := Except.exists_mapM_matching (fun attempt member r isRecord =>
    Attempt.decode_same_iff (responsesDecode attempt member) (shallow.2 attempt member) isRecord)
    attemptsEncoded
  have exactly : (∃ y, d.decode token registry = .ok y ∧ y.SamePayloads x) ↔
      x.PayloadsComeBack registry := by
    simp only [decoded, Action.PayloadsComeBack, registered, Option.some.injEq, exists_eq_left',
      Action.PayloadsSatisfy, ← requests, ← attempts, areTexts, List.mapM_map]
    constructor
    · rintro ⟨_, ⟨q, requestDecoded, zs, attemptsDecoded, rfl⟩, sameRequest, sameAttempts⟩
      exact ⟨⟨q, requestDecoded, sameRequest⟩, zs, attemptsDecoded, sameAttempts⟩
    · rintro ⟨⟨q, requestDecoded, sameRequest⟩, zs, attemptsDecoded, sameAttempts⟩
      exact ⟨_, ⟨q, requestDecoded, zs, attemptsDecoded, rfl⟩, sameRequest, sameAttempts⟩
  refine ⟨exactly, fun legible => exactly.trans ?_⟩
  simp only [Action.PayloadsComeBack, registered, Option.some.injEq, exists_eq_left']
  constructor
  · exact fun comeBack attempt member p isResponse => (comeBack.2 attempt member p isResponse).1
  · intro notNull
    refine ⟨fun p isRequest => ?_, fun attempt member p isResponse => ?_⟩
    · exact Payload.comesBack_of_legible (requestDecodes p isRequest) (legible.1 p isRequest)
    · exact ⟨notNull attempt member p isResponse, Payload.comesBack_of_legible
        (responsesDecode attempt member p isResponse) (legible.2 attempt member p isResponse)⟩

/-- A registry of one plugin that keeps payloads as they are. -/
def anyPayload : Registry := .ofList [.untyped "any"]

/-- An action of that plugin whose request is null and which was tried once, with this response. -/
def answered (response : Json) : Action where
  id := .nil
  key := none
  name := "answered"
  descr := ""
  plugin := "any"
  timeout := .zero
  retries := 0
  request := some (.ofJson Plugin.untypedName .null)
  attempts := [⟨some (.ofJson Plugin.untypedName response), none, none, none⟩]
  state := .initial

theorem payloads_answered {v : Json} {ofRequest ofResponse : Payload → Prop}
    (request : ofRequest (.ofJson Plugin.untypedName .null))
    (response : ofResponse (.ofJson Plugin.untypedName v)) :
    (answered v).PayloadsSatisfy ofRequest ofResponse := by
  simp [Action.PayloadsSatisfy, answered, request, response]

/-- A plugin that keeps payloads as they are decodes each of them to itself. -/
theorem Plugin.untyped_decodes (name : String) {v : Json} (isExact : v.normalize.Exact) :
    (Payload.ofJson untypedName v).Decodes (untyped name).decodeRequest := by
  intro w encoded
  cases encoded
  have same : Payload.ofJson untypedName v.normalize = .ofJson untypedName v := by
    simp only [Payload.ofJson, Json.normalize_normalize]
  exact ⟨isExact, _, rfl, by rw [same]⟩

theorem decodes_answered {v : Json} (isExact : v.normalize.Exact) :
    (answered v).Decodes anyPayload :=
  ⟨.untyped "any", rfl, payloads_answered (Plugin.untyped_decodes "any" trivial)
    (Plugin.untyped_decodes "any" isExact)⟩

theorem shallow_answered {v : Json} (shallow : v.normalize.nesting ≤ Json.storedDepth - 1) :
    (answered v).Shallow := by
  apply payloads_answered
  · rintro w ⟨⟩
    exact Nat.zero_le _
  · rintro w ⟨⟩
    exact shallow

/-- A request that is null comes back, and so does a response that is false. -/
theorem ActionDocument.restores_iff_answered :
    ∃ d, encode "plans" .nil 0 (answered (.bool false)) = .ok d ∧
      (answered (.bool false)).Decodes anyPayload ∧ (answered (.bool false)).Shallow ∧
      ∃ y, d.decode (.minted 0) anyPayload = .ok y ∧ y.SamePayloads (answered (.bool false)) := by
  have decodes : (answered (.bool false)).Decodes anyPayload := decodes_answered trivial
  have shallow : (answered (.bool false)).Shallow := shallow_answered (Nat.zero_le _)
  have legible : (answered (.bool false)).Legible := by
    apply payloads_answered <;> (rintro w ⟨⟩; trivial)
  obtain ⟨d, encoded⟩ : ∃ d, encode "plans" .nil 0 (answered (.bool false)) = .ok d :=
    Except.exists_of_isOk (by decide +kernel)
  refine ⟨d, encoded, decodes, shallow, ?_⟩
  apply ((restores_iff decodes shallow encoded (.minted 0)).2 legible).mpr
  exact (@payloads_answered _ (fun _ => True) _ trivial (by rintro ⟨⟩)).2

/-- A response that is null is stored, and the attempt is decoded as one without a response. -/
theorem ActionDocument.null_response_lost :
    (answered .null).Decodes anyPayload ∧ (answered .null).Shallow ∧
      ∃ d, encode "plans" .nil 0 (answered .null) = .ok d ∧
        (∃ y, d.decode (.minted 0) anyPayload = .ok y ∧
          y.attempts.map Attempt.response = [none]) ∧
        ¬ ∃ y, d.decode (.minted 0) anyPayload = .ok y ∧ y.SamePayloads (answered .null) := by
  have outcome : (do
      let d ← encode "plans" .nil 0 (answered .null)
      let y ← d.decode (.minted 0) anyPayload
      return y.attempts.map Attempt.response) = .ok [none] := by decide +kernel
  simp only [Except.bind_eq_ok, pure, Except.pure, Except.ok.injEq] at outcome
  obtain ⟨d, encoded, y, decoded, responses⟩ := outcome
  refine ⟨decodes_answered trivial, shallow_answered (Nat.zero_le _), d, encoded,
    ⟨y, decoded, responses⟩, ?_⟩
  rintro ⟨z, alsoDecoded, _, attempts⟩
  cases decoded.symm.trans alsoDecoded
  obtain ⟨b, isOne⟩ : ∃ b, y.attempts = [b] := List.length_eq_one_iff.mp attempts.length_eq
  rw [isOne] at responses attempts
  obtain ⟨same, _⟩ := (List.forall₂_cons.mp attempts).1
  rw [List.map_singleton, List.singleton_inj] at responses
  rw [responses] at same
  cases same

end PlanArchive
