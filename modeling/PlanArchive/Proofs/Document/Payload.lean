import PlanArchive.Plan.Entities
import PlanArchive.Proofs.Document.Encoding
import PlanArchive.Proofs.Json.RoundTrip

/-!
# Payloads and actions read back

Requests and attempts are JSON texts inside a document. The text of a request is read by the reader
of values; that of an attempt by a reader of known members, which is why a response may nest one
container less and must not be null. `ActionDocument.decode_of_encode`: an action whose payloads
the registered plugin decodes to the same payloads is decoded from its document as its normal form.
-/

namespace PlanArchive

/-! ## Objects with known members -/

theorem Json.Reader.mapM_named_some (result : String → Json → Option Json)
    (fields : List (String × Json)) :
    fields.mapM (namedResult fun name v => (result name v).map some) =
      (fields.mapM (namedResult result)).map (List.map fun f => (f.1, some f.2)) := by
  induction fields with
  | nil => rfl
  | cons f rest inductionHypothesis =>
    rw [List.mapM_cons, List.mapM_cons, inductionHypothesis]
    cases found : result f.1 f.2 with
    | none => simp [namedResult, found]
    | some v => cases rest.mapM (namedResult result) <;> simp [namedResult, found]

theorem Json.Reader.names_of_mapM {result : String → Json → Option Json}
    {fields members : List (String × Json)}
    (found : fields.mapM (namedResult result) = some members) :
    members.map Prod.fst = fields.map Prod.fst := by
  induction fields generalizing members with
  | nil =>
    cases found
    rfl
  | cons f rest inductionHypothesis =>
    simp only [List.mapM_cons, namedResult, Option.bind_eq_bind, Option.bind_eq_some_iff,
      Option.map_eq_some_iff, pure, Option.some.injEq] at found
    obtain ⟨_, ⟨v, _, rfl⟩, others, restFound, rfl⟩ := found
    rw [List.map_cons, List.map_cons, inductionHypothesis restFound]

/-- What becomes of an object all of whose members are known, each with a reader for its name. -/
theorem Json.Reader.record_write {known : String → Option (Reader Json)}
    {result : String → Json → Option Json} {fields : List (String × Json)}
    (distinct : (fields.map Prod.fst).Nodup)
    (each : ∀ f ∈ fields, ∃ read, known f.1 = some read ∧ ∀ tail, Delimited tail →
      StartsValue (f.2.write tail) ∧
        read (f.2.write tail) = (result f.1 f.2).map fun v => (v, tail))
    (tail : List Char) :
    ∃ text, (Json.obj fields).write tail = '{' :: text ∧
      record known text =
        (fields.mapM (namedResult result)).map fun members => (.obj members, tail) := by
  have members : ∀ f ∈ fields, ∀ tail, Delimited tail → StartsValue (f.2.write tail) ∧
      recordMember known f.1 (f.2.write tail) =
        ((result f.1 f.2).map some).map fun v => (v, tail) := by
    intro f isField tail delimited
    obtain ⟨read, isKnown, reads⟩ := each f isField
    obtain ⟨starts, valueRead⟩ := reads tail delimited
    refine ⟨starts, ?_⟩
    simp only [recordMember, isKnown, valueRead]
    cases result f.1 f.2 <;> rfl
  obtain ⟨text, written, isRead⟩ := @object_write (Option Json) (recordMember known)
    (fun name v => (result name v).map some) fields members tail
  refine ⟨text, written, ?_⟩
  rw [mapM_named_some] at isRead
  cases found : fields.mapM (namedResult result) with
  | none => simp [record, isRead, found]
  | some kept =>
    have keptDistinct : (kept.map Prod.fst).Nodup := names_of_mapM found ▸ distinct
    have allKept : (kept.map fun f => (f.1, some f.2)).filterMap
        (fun member => member.2.map fun v => (member.1, v)) = kept := by
      rw [List.filterMap_map]
      exact List.filterMap_some
    simp only [record, recordOf?, isRead, found, Option.map_some, Option.bind_eq_bind,
      Option.bind_some, allKept]
    rw [if_pos keptDistinct, Option.bind_some]

/-- What the reader of values makes of a value in front of more text. -/
theorem Json.Reader.member_write {v : Json} {depth : Nat} (isExact : v.Exact) (tail : List Char)
    (delimited : Delimited tail) : StartsValue (v.write tail) ∧
      value false depth (v.write tail) = (within? depth v).map fun w => (w, tail) :=
  ⟨startsValue_write isExact delimited, value_write v isExact delimited⟩

/-! ## Attempts -/

namespace AttemptError

theorem ofJson?_toJson (e : AttemptError) : ofJson? e.toJson = some e := by
  have code : (Json.ofInt64 e.code).int64? = some e.code := Json.int64?_ofInt64 e.code
  simp [ofJson?, toJson, ofMembers?, Json.field?, List.lookup_cons, code, Json.text?, Json.bool?]

theorem exact_ofInt64 (n : Int64) : (Json.ofInt64 n).Exact := by
  have above := n.le_toInt
  have below := n.toInt_lt
  exact ⟨above, by omega⟩

theorem exact_toJson (e : AttemptError) : e.toJson.Exact :=
  ⟨exact_ofInt64 e.code, trivial, trivial, trivial⟩

theorem reader_write (e : AttemptError) (tail : List Char) :
    reader (e.toJson.write tail) = some (e.toJson, tail) := by
  let plain : Json.Reader Json := Json.Reader.value false (Json.storedDepth - 2)
  let known (name : String) : Option (Json.Reader Json) :=
    if name = "code" ∨ name = "message" ∨ name = "permanent" then some plain else none
  have each : ∀ f ∈ [("code", Json.ofInt64 e.code), ("message", .str e.message),
      ("permanent", .bool e.permanent)], ∃ read, known f.1 = some read ∧
      ∀ tail, Json.Reader.Delimited tail → Json.StartsValue (f.2.write tail) ∧
        read (f.2.write tail) =
          (Json.Reader.within? (Json.storedDepth - 2) f.2).map fun v => (v, tail) := by
    simp only [List.forall_mem_cons]
    refine ⟨⟨plain, rfl, ?_⟩, ⟨plain, rfl, ?_⟩, ⟨plain, rfl, ?_⟩, by simp⟩
    · exact Json.Reader.member_write (exact_ofInt64 e.code)
    · exact Json.Reader.member_write trivial
    · exact Json.Reader.member_write trivial
  obtain ⟨text, written, isRead⟩ := @Json.Reader.record_write known
    (fun _ => Json.Reader.within? (Json.storedDepth - 2)) _ (by simp) each tail
  rw [toJson, written]
  exact isRead

end AttemptError

namespace AttemptRecord

/-- A response that an attempt can be stored with: legible, one container less deep than a request
may be, and not null, which stands for no response. -/
structure ReadableResponse (v : Json) : Prop where
  legible : v.Legible
  shallow : v.nesting < Json.storedDepth
  notNull : v ≠ .null

variable {r : AttemptRecord}

theorem exact_toJson (isExact : ∀ v ∈ r.response, v.Exact) : r.toJson.Exact := by
  have response : (optional r.response).Exact := by
    cases stored : r.response with
    | none => trivial
    | some v => exact isExact v stored
  have error : (optional (r.error.map AttemptError.toJson)).Exact := by
    cases r.error with
    | none => trivial
    | some e => exact e.exact_toJson
  exact ⟨response, error, AttemptError.exact_ofInt64 r.start,
    AttemptError.exact_ofInt64 r.finish, trivial⟩

theorem present?_of_ne {v : Json} (notNull : v ≠ .null) : present? v = some v := by
  cases v with
  | null => exact absurd rfl notNull
  | _ => rfl

/-- The text of an attempt is read unless the response in it is nested too deep. -/
theorem reader_write (isExact : ∀ v ∈ r.response, v.Exact) (tail : List Char) :
    reader (r.toJson.write tail) = (Json.Reader.within? (Json.storedDepth - 1)
      (optional r.response)).map fun _ => (r.toJson, tail) := by
  let plain : Json.Reader Json := Json.Reader.value false (Json.storedDepth - 1)
  let known (name : String) : Option (Json.Reader Json) :=
    if name = "err" then some AttemptError.reader
    else if name = "resp" ∨ name = "start" ∨ name = "end" then some plain else none
  let result (name : String) (v : Json) : Option Json :=
    if name = "resp" then Json.Reader.within? (Json.storedDepth - 1) v else some v
  have each : ∀ f ∈ [("resp", optional r.response),
      ("err", optional (r.error.map AttemptError.toJson)), ("start", .ofInt64 r.start),
      ("end", .ofInt64 r.finish)], ∃ read, known f.1 = some read ∧
      ∀ tail, Json.Reader.Delimited tail → Json.StartsValue (f.2.write tail) ∧
        read (f.2.write tail) = (result f.1 f.2).map fun v => (v, tail) := by
    simp only [List.forall_mem_cons]
    refine ⟨⟨plain, rfl, ?_⟩, ⟨AttemptError.reader, rfl, ?_⟩, ⟨plain, rfl, ?_⟩, ⟨plain, rfl, ?_⟩,
      by simp⟩
    · cases stored : r.response with
      | none => exact Json.Reader.member_write trivial
      | some v => exact Json.Reader.member_write (isExact v stored)
    · cases r.error with
      | none =>
        intro tail delimited
        exact ⟨Json.startsValue_write (v := .null) trivial delimited, rfl⟩
      | some e =>
        intro tail delimited
        exact ⟨Json.startsValue_write e.exact_toJson delimited, e.reader_write tail⟩
    · exact Json.Reader.member_write (AttemptError.exact_ofInt64 r.start)
    · exact Json.Reader.member_write (AttemptError.exact_ofInt64 r.finish)
  obtain ⟨text, written, isRead⟩ := @Json.Reader.record_write known result _ (by simp) each tail
  rw [toJson, written]
  refine isRead.trans ?_
  simp only [List.mapM_cons, List.mapM_nil, Json.Reader.namedResult, result, Json.Reader.within?]
  by_cases shallow : (optional r.response).nesting ≤ Json.storedDepth - 1 <;> simp [shallow]

/-- An attempt that was laid out is taken as it was but for the texts inside its response. -/
theorem ofJson?_toJson (r : AttemptRecord) :
    ofJson? r.toJson = (responseOf? (r.response.bind present?)).map fun response =>
      { r with response := response } := by
  have response : present? (optional r.response) = r.response.bind present? := by
    cases r.response <;> rfl
  have error : errorOf? (present? (optional (r.error.map AttemptError.toJson)))
      = some r.error := by
    cases r.error with
    | none => rfl
    | some e =>
      have present : present? e.toJson = some e.toJson := rfl
      simp [optional, present, errorOf?, e.ofJson?_toJson]
  have members : ofJson? r.toJson = ofMembers? (present? (optional r.response))
      (present? (optional (r.error.map AttemptError.toJson))) (.ofInt64 r.start)
      (.ofInt64 r.finish) := rfl
  rw [members, ofMembers?, response, error]
  cases responseOf? (r.response.bind present?) <;> simp

/-- What becomes of the text of an attempt. -/
theorem ofText?_toText_eq (isExact : ∀ v ∈ r.response, v.Exact) : ofText? r.toText =
    (Json.Reader.within? (Json.storedDepth - 1) (optional r.response)).bind fun _ =>
      (responseOf? (r.response.bind present?)).map
        fun response => { r with response := response } := by
  have isRead := @Json.Reader.whole?_toText Json reader r.toJson
    ((Json.Reader.within? (Json.storedDepth - 1) (optional r.response)).map fun _ => r.toJson)
    (exact_toJson isExact) (by rw [reader_write isExact [], Option.map_map]; rfl)
  rw [ofText?, toText, isRead]
  cases Json.Reader.within? (Json.storedDepth - 1) (optional r.response) with
  | none => rfl
  | some _ => exact ofJson?_toJson r

/-- An attempt is read back from its text. -/
theorem ofText?_toText (readable : ∀ v ∈ r.response, ReadableResponse v) :
    ofText? r.toText = some r := by
  rw [ofText?_toText_eq fun v isResponse => (readable v isResponse).legible.exact]
  obtain ⟨response, error, start, finish⟩ := r
  cases response with
  | none => rfl
  | some v =>
    have ⟨legible, shallow, notNull⟩ := readable v rfl
    simp [optional, Json.Reader.within?, Nat.le_sub_one_of_lt shallow, present?_of_ne notNull,
      responseOf?, Json.expand_of_legible _ v legible]

end AttemptRecord

/-! ## What is asked of payloads -/

/-- A payload that is given back by its text: its value is legible, nested no deeper than `depth`,
and decoded to an equal payload. -/
def Payload.ReadsBack (decode : Json → Option Payload) (depth : Nat) (p : Payload) : Prop :=
  ∀ v, p.toJson = .ok v → v.Legible ∧ v.nesting ≤ depth ∧
    ∃ q, decode v = some q ∧ q.comparable = p.comparable

/-- An action whose payloads the registered plugin gives back. A response is stored inside the text
of its attempt, so that it may be nested one container less deep than a request, and null stands
for no response there. -/
def Action.Readable (registry : Registry) (a : Action) : Prop :=
  ∃ plugin, registry.lookup? a.plugin = some plugin ∧
    (∀ p ∈ a.request, p.ReadsBack plugin.decodeRequest Json.storedDepth) ∧
    ∀ attempt ∈ a.attempts, ∀ p ∈ attempt.response,
      p.ReadsBack plugin.decodeResponse (Json.storedDepth - 1) ∧ p.toJson ≠ .ok .null

/-- The attempt with its response as it is compared. -/
def Attempt.comparable (a : Attempt) : Attempt :=
  { a with response := a.response.map Payload.comparable }

/-- A plugin that keeps payloads as they are gives back every payload of its type that is
legible and not too deep. -/
theorem Plugin.untyped_readsBack (name : String) {v : Json} {depth : Nat}
    (legible : v.normalize.Legible) (shallow : v.normalize.nesting ≤ depth) :
    (Payload.ofJson untypedName v).ReadsBack (untyped name).decodeRequest depth := by
  intro w encoded
  cases encoded
  have same : Payload.ofJson untypedName v.normalize = .ofJson untypedName v := by
    simp only [Payload.ofJson, Json.normalize_normalize]
  exact ⟨legible, shallow, _, rfl, by rw [same]⟩

/-! ## Actions -/

theorem Payload.normalize_of_toJson {p : Payload} {v : Json} (encoded : p.toJson = .ok v) :
    v.normalize = v := by
  unfold toJson at encoded
  split at encoded
  · rename_i isValue
    cases encoded
    exact p.normal _ isValue
  · cases encoded

theorem Attempt.encodePayload_some {field : String} {p : Payload} {stored : Option Json}
    (encoded : encodePayload field (some p) = .ok stored) :
    ∃ v, p.toJson = .ok v ∧ stored = some v := by
  rw [encodePayload] at encoded
  split at encoded
  · rename_i v isValue
    cases encoded
    exact ⟨v, isValue, rfl⟩
  · cases encoded

/-- The text of a request is that of its value; it is empty when there is no request. -/
theorem Action.encodeRequest_cases {request : Option Payload} {text : String}
    (encoded : encodeRequest request = .ok text) :
    (request = none ∧ text = "") ∨
      ∃ p v, request = some p ∧ p.toJson = .ok v ∧ text = v.toText := by
  rw [encodeRequest, Except.bind_eq_ok] at encoded
  obtain ⟨stored, payloadEncoded, written⟩ := encoded
  cases request with
  | none =>
    cases payloadEncoded
    cases written
    exact .inl ⟨rfl, rfl⟩
  | some p =>
    obtain ⟨v, isValue, rfl⟩ := Attempt.encodePayload_some payloadEncoded
    cases written
    exact .inr ⟨p, v, rfl, isValue, rfl⟩

theorem Action.decodeRequest_of_encodeRequest {plugin : Plugin} {request : Option Payload}
    {text : String}
    (readsBack : ∀ p ∈ request, p.ReadsBack plugin.decodeRequest Json.storedDepth)
    (encoded : encodeRequest request = .ok text) :
    ∃ decoded, decodeRequest plugin text = .ok decoded ∧
      decoded.map Payload.comparable = request.map Payload.comparable := by
  obtain ⟨rfl, rfl⟩ | ⟨p, v, rfl, isValue, rfl⟩ := encodeRequest_cases encoded
  · exact ⟨none, rfl, rfl⟩
  · obtain ⟨legible, shallow, q, decodes, alike⟩ := readsBack p rfl v isValue
    refine ⟨some q, ?_, by simp [alike]⟩
    simp [decodeRequest, Json.isEmpty_toText legible.exact, Json.read?_toText legible shallow,
      Payload.normalize_of_toJson isValue, decodes]

theorem Attempt.decodeResponse_of_encode {plugin : Plugin} {response : Option Payload}
    {stored : Option Json}
    (readsBack : ∀ p ∈ response, p.ReadsBack plugin.decodeResponse (Json.storedDepth - 1) ∧
      p.toJson ≠ .ok .null)
    (encoded : encodePayload "attempts" response = .ok stored) :
    (∀ v ∈ stored, AttemptRecord.ReadableResponse v) ∧
      ∃ decoded, decodeResponse plugin stored = .ok decoded ∧
        decoded.map Payload.comparable = response.map Payload.comparable := by
  cases response with
  | none =>
    cases encoded
    exact ⟨by simp, none, rfl, rfl⟩
  | some p =>
    obtain ⟨v, isValue, rfl⟩ := encodePayload_some encoded
    obtain ⟨givenBack, notNull⟩ := readsBack p rfl
    obtain ⟨legible, shallow, q, decodes, alike⟩ := givenBack v isValue
    refine ⟨?_, some q, ?_, by simp [alike]⟩
    · rintro w ⟨⟩
      refine ⟨legible, Nat.lt_of_le_pred (by decide) shallow, ?_⟩
      rintro rfl
      exact notNull isValue
    · simp [decodeResponse, Payload.normalize_of_toJson isValue, decodes]

theorem Attempt.decode_of_encode {plugin : Plugin} {a : Attempt} {r : AttemptRecord}
    (readsBack : ∀ p ∈ a.response, p.ReadsBack plugin.decodeResponse (Json.storedDepth - 1) ∧
      p.toJson ≠ .ok .null)
    (encoded : a.encode = .ok r) :
    ∃ b, decode plugin r.toText = .ok b ∧ b.comparable = a.normal.comparable := by
  simp only [encode, Except.bind_eq_ok, pure, Except.pure, Except.ok.injEq] at encoded
  obtain ⟨response, responseEncoded, start, startEncoded, finish, finishEncoded, rfl⟩ := encoded
  obtain ⟨readable, decoded, decodes, alike⟩ := decodeResponse_of_encode readsBack responseEncoded
  have isRead := @AttemptRecord.ofText?_toText ⟨response, a.error, start, finish⟩ readable
  refine ⟨⟨decoded, a.error, Instant.kept? a.start, Instant.kept? a.finish⟩, ?_, ?_⟩
  · simp [decode, isRead, decodes,
      Field.decodeInstant_of_encodeInstant startEncoded,
      Field.decodeInstant_of_encodeInstant finishEncoded, bind, Except.bind, pure, Except.pure]
  · simp [comparable, normal, alike]

theorem Action.comparable_eq (a : Action) : a.comparable = { a with
    request := a.request.map Payload.comparable
    attempts := a.attempts.map Attempt.comparable } := rfl

/-- The action of an encoded action is its normal form, with the token it was read with. -/
theorem ActionDocument.decode_of_encode {part : String} {planId : Uuid} {position : Nat}
    {a : Action} {d : ActionDocument} {registry : Registry} (readable : a.Readable registry)
    (encoded : encode part planId position a = .ok d) (token : VersionToken) :
    ∃ b, d.decode token registry = .ok b ∧ b.comparable =
      { a.normal.comparable with state := { a.state.normal with token := some token } } := by
  simp only [encode, Except.bind_eq_ok, pure, Except.pure, Except.ok.injEq] at encoded
  obtain ⟨request, requestEncoded, position, -, timeout, timeoutEncoded, attempts,
    attemptsEncoded, state, stateEncoded, rfl⟩ := encoded
  obtain ⟨plugin, registered, requestBack, responsesBack⟩ := readable
  obtain ⟨decodedRequest, requestDecodes, requestAlike⟩ :=
    Action.decodeRequest_of_encodeRequest requestBack requestEncoded
  have each : ∀ attempt ∈ a.attempts, ∀ r, attempt.encode = .ok r →
      ∃ b, Attempt.decode plugin r.toText = .ok b ∧ b.comparable = attempt.normal.comparable :=
    fun attempt member r encoded => Attempt.decode_of_encode (responsesBack attempt member) encoded
  obtain ⟨decodedAttempts, attemptsDecode, attemptsAlike⟩ :=
    Except.mapM_undone each attemptsEncoded
  have textsDecode : (attempts.map AttemptRecord.toText).mapM (Attempt.decode plugin)
      = .ok decodedAttempts := by
    rw [List.mapM_map]
    exact attemptsDecode
  refine ⟨{ a.normal with
    request := decodedRequest
    attempts := decodedAttempts
    state := { a.state.normal with token := some token } }, ?_, ?_⟩
  · simp [decode, registered, requestDecodes, -List.mapM_map, textsDecode, Field.decodeId_encodeId,
      Field.decodeSpan_of_encodeSpan timeoutEncoded, Field.toUInt32_ofUInt32,
      StateRecord.decode_of_encode stateEncoded, Action.normal, bind, Except.bind, pure,
      Except.pure]
  · simp [Action.comparable_eq, Action.normal, requestAlike, attemptsAlike]

end PlanArchive
