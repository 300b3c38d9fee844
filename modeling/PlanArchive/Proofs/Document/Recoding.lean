import PlanArchive.Proofs.Document.Reprinting

/-!
# Documents decoded and encoded again

A document of any kind is decoded to an entity exactly when it is `Valid`, and the entity is always
encoded again, to a document that has the same fields in canonical form (`Rewrites`). Doing it once
more changes nothing, except that an action may lose payloads on the way: a response that is null
is written as no response, and a payload with a text inside may denote another one when its fields
are put in order (`Document.recoding_normalizes`).
-/

namespace PlanArchive

variable {part : String} {planId : Uuid} {position : Nat} {registry : Registry}
  {token : VersionToken}

/-- The numbers of all payloads of the action are exact. -/
def Action.Exact (x : Action) : Prop := x.PayloadsSatisfy Payload.Exact Payload.Exact

/-- No response of the action is null. -/
def Action.NullFree (x : Action) : Prop :=
  ∀ attempt ∈ x.attempts, ∀ p ∈ attempt.response, p.toJson ≠ .ok .null

namespace Entity

/-- The document of an entity of a plan, at its index among its siblings. -/
def encode (part : String) (planId : Uuid) (position : Nat) : Entity → Except FieldError Document
  | .plan p => (PlanDocument.encode part p).map .plan
  | .block b => (BlockDocument.encode part planId position b).map .block
  | .checks c => (ChecksDocument.encode part planId c).map .checks
  | .sequence q => (SequenceDocument.encode part planId position q).map .sequence
  | .action x => (ActionDocument.encode part planId position x).map .action

/-- A condition on actions; it does not matter to other entities. -/
def WhenAction (condition : Action → Prop) : Entity → Prop
  | .action x => condition x
  | _ => True

/-- The lengths of time and the numbers of 32 bits of an entity. -/
def numbers : Entity → List Int
  | .plan _ => []
  | .block b => [b.entranceDelay.toNanos, b.exitDelay.toNanos, b.concurrency.toNat,
      b.toleratedFailures.toInt]
  | .checks c => [c.delay.toNanos]
  | .sequence _ => []
  | .action x => [x.timeout.toNanos, x.retries.toNat]

end Entity

namespace Document

/-- The numbers that a document has for the lengths of time and the numbers of 32 bits. -/
def numbers : Document → List Int
  | .plan _ => []
  | .block d => [d.entranceDelay.toInt, d.exitDelay.toInt, d.concurrency.toInt,
      d.toleratedFailures.toInt]
  | .checks d => [d.delay.toInt]
  | .sequence _ => []
  | .action d => [d.timeout.toInt, d.retries.toInt]

/-- A document and the one that its entity is written as, at some place: its fields in canonical
form, and the texts of payloads as the plugin writes them. -/
inductive Rewrites (registry : Registry) (part : String) (planId : Uuid) (position : Nat) :
    Document → Document → Prop
  | plan (d : PlanDocument) :
      Rewrites registry part planId position (.plan d) (.plan (d.canonical part))
  | block (d : BlockDocument) :
      Rewrites registry part planId position (.block d) (.block (d.canonical part planId position))
  | checks (d : ChecksDocument) :
      Rewrites registry part planId position (.checks d) (.checks (d.canonical part planId))
  | sequence (d : SequenceDocument) :
      Rewrites registry part planId position (.sequence d)
        (.sequence (d.canonical part planId position))
  | action (d : ActionDocument) {plugin : Plugin} {request : String} {attempts : List String}
      (registered : registry.lookup? d.plugin = some plugin)
      (requestRewritten : plugin.RewritesRequest d.request request)
      (attemptsRewritten : List.Forall₂ plugin.RewritesAttempt d.attempts attempts) :
      Rewrites registry part planId position (.action d)
        (.action (d.canonical part planId position request attempts))

theorem Rewrites.kind_eq {d e : Document} (rewrites : d.Rewrites registry part planId position e) :
    e.kind = d.kind := by
  cases rewrites <;> rfl

/-- The document of the entity that the document is decoded to. -/
def recode (registry : Registry) (token : VersionToken) (part : String) (planId : Uuid)
    (position : Nat) (d : Document) : Except FieldError Document := do
  let x ← d.decodeEntity registry token
  x.encode part planId position

variable {d e : Document} {x : Entity}

/-- No number is cut to fit. -/
theorem numbers_of_decodeEntity (decoded : d.decodeEntity registry token = .ok x) :
    x.numbers = d.numbers := by
  cases d with
  | plan d =>
    obtain ⟨p, _, rfl⟩ := Except.map_eq_ok.mp decoded
    rfl
  | block d =>
    obtain ⟨b, isBlock, rfl⟩ := Except.map_eq_ok.mp decoded
    simp only [BlockDocument.decode, Except.bind_eq_ok, pure, Except.pure, Except.ok.injEq]
      at isBlock
    obtain ⟨_, _, _, isEntrance, _, isExit, _, isConcurrency, _, isTolerated, _, _, rfl⟩ := isBlock
    simp only [Entity.numbers, numbers, Field.decodeSpan_eq_ok.mp isEntrance,
      Field.decodeSpan_eq_ok.mp isExit, Field.toUInt32_eq_ok.mp isConcurrency,
      Field.toInt32_eq_ok.mp isTolerated]
  | checks d =>
    obtain ⟨c, areChecks, rfl⟩ := Except.map_eq_ok.mp decoded
    simp only [ChecksDocument.decode, Except.bind_eq_ok, pure, Except.pure, Except.ok.injEq]
      at areChecks
    obtain ⟨_, _, _, isDelay, _, _, rfl⟩ := areChecks
    simp only [Entity.numbers, numbers, Field.decodeSpan_eq_ok.mp isDelay]
  | sequence d =>
    obtain ⟨q, _, rfl⟩ := Except.map_eq_ok.mp decoded
    rfl
  | action d =>
    obtain ⟨x, isAction, rfl⟩ := Except.map_eq_ok.mp decoded
    obtain ⟨_, _, _, _, _, _, _, _, _, _, _, isTimeout, areRetries, _, rfl⟩ :=
      ActionDocument.decode_cases isAction
    simp only [Entity.numbers, numbers, Field.decodeSpan_eq_ok.mp isTimeout,
      Field.toUInt32_eq_ok.mp areRetries]

/-- A decoded entity is always encoded again. -/
theorem encode_of_decodeEntity (coherent : registry.Coherent)
    (decoded : d.decodeEntity registry token = .ok x) (fits : FitsInt64 position)
    (part : String) (planId : Uuid) :
    ∃ e, x.encode part planId position = .ok e ∧ d.Rewrites registry part planId position e := by
  cases d with
  | plan d =>
    obtain ⟨p, isPlan, rfl⟩ := Except.map_eq_ok.mp decoded
    have encoded := (PlanDocument.encode_of_decode isPlan part).1
    exact ⟨_, by rw [Entity.encode, encoded]; rfl, .plan d⟩
  | block d =>
    obtain ⟨b, isBlock, rfl⟩ := Except.map_eq_ok.mp decoded
    have encoded := (BlockDocument.encode_of_decode isBlock fits part planId).1
    exact ⟨_, by rw [Entity.encode, encoded]; rfl, .block d⟩
  | checks d =>
    obtain ⟨c, areChecks, rfl⟩ := Except.map_eq_ok.mp decoded
    have encoded := (ChecksDocument.encode_of_decode areChecks part planId).1
    exact ⟨_, by rw [Entity.encode, encoded]; rfl, .checks d⟩
  | sequence d =>
    obtain ⟨q, isSequence, rfl⟩ := Except.map_eq_ok.mp decoded
    have encoded := (SequenceDocument.encode_of_decode isSequence fits part planId).1
    exact ⟨_, by rw [Entity.encode, encoded]; rfl, .sequence d⟩
  | action d =>
    obtain ⟨x, isAction, rfl⟩ := Except.map_eq_ok.mp decoded
    obtain ⟨plugin, request, attempts, registered, requestRewritten, attemptsRewritten, encoded⟩ :=
      ActionDocument.encode_of_decode coherent isAction fits part planId
    exact ⟨_, by rw [Entity.encode, encoded]; rfl,
      .action d registered requestRewritten attemptsRewritten⟩

/-- A decoded entity is decoded once more from the document that it is encoded to, unless it is an
action that loses a payload. -/
theorem decodeEntity_self_iff (decoded : d.decodeEntity registry token = .ok x)
    (fits : FitsInt64 position) (isExact : x.WhenAction Action.Exact)
    (encoded : x.encode part planId position = .ok e) :
    e.decodeEntity registry token = .ok x ↔ x.WhenAction (·.Restored registry) := by
  cases d with
  | plan d =>
    obtain ⟨p, isPlan, rfl⟩ := Except.map_eq_ok.mp decoded
    rw [Entity.encode, Except.map_eq_ok] at encoded
    obtain ⟨c, isDocument, rfl⟩ := encoded
    obtain ⟨isCanonical, again⟩ := PlanDocument.encode_of_decode isPlan part
    obtain rfl := Except.ok.inj (isDocument.symm.trans isCanonical)
    exact iff_of_true (Except.map_eq_ok.mpr ⟨p, again, rfl⟩) trivial
  | block d =>
    obtain ⟨b, isBlock, rfl⟩ := Except.map_eq_ok.mp decoded
    rw [Entity.encode, Except.map_eq_ok] at encoded
    obtain ⟨c, isDocument, rfl⟩ := encoded
    obtain ⟨isCanonical, again⟩ :=
      BlockDocument.encode_of_decode isBlock fits part planId
    obtain rfl := Except.ok.inj (isDocument.symm.trans isCanonical)
    exact iff_of_true (Except.map_eq_ok.mpr ⟨b, again, rfl⟩) trivial
  | checks d =>
    obtain ⟨c, areChecks, rfl⟩ := Except.map_eq_ok.mp decoded
    rw [Entity.encode, Except.map_eq_ok] at encoded
    obtain ⟨_, isDocument, rfl⟩ := encoded
    obtain ⟨isCanonical, again⟩ := ChecksDocument.encode_of_decode areChecks part planId
    obtain rfl := Except.ok.inj (isDocument.symm.trans isCanonical)
    exact iff_of_true (Except.map_eq_ok.mpr ⟨c, again, rfl⟩) trivial
  | sequence d =>
    obtain ⟨q, isSequence, rfl⟩ := Except.map_eq_ok.mp decoded
    rw [Entity.encode, Except.map_eq_ok] at encoded
    obtain ⟨c, isDocument, rfl⟩ := encoded
    obtain ⟨isCanonical, again⟩ :=
      SequenceDocument.encode_of_decode isSequence fits part planId
    obtain rfl := Except.ok.inj (isDocument.symm.trans isCanonical)
    exact iff_of_true (Except.map_eq_ok.mpr ⟨q, again, rfl⟩) trivial
  | action d =>
    obtain ⟨y, isAction, rfl⟩ := Except.map_eq_ok.mp decoded
    rw [Entity.encode, Except.map_eq_ok] at encoded
    obtain ⟨c, isDocument, rfl⟩ := encoded
    rw [Entity.WhenAction, ← ActionDocument.decode_self_iff isAction isExact isDocument,
      decodeEntity, Except.map_eq_ok]
    simp

/-- A document is accepted exactly when it is valid, and no number of it is cut to fit. What it is
decoded to is encoded for every place, to the document with the fields in canonical form. If that
loses no payload, it is decoded to the same entity and stays as it is when it is encoded again. A
payload is lost only by an action, and only where a response is null, where a payload has a text
inside or where one is nested deeper than a text may be. -/
theorem recoding_normalizes (coherent : registry.Coherent) {kind : EntityKind} {v : Json}
    (parsed : ofJson? kind v = some d) (token : VersionToken) :
    ((∃ x, d.decodeEntity registry token = .ok x) ↔ d.Valid registry) ∧
      ∀ x, d.decodeEntity registry token = .ok x → x.numbers = d.numbers ∧
        ∀ part planId (position : Nat), FitsInt64 position →
          ∃ e, x.encode part planId position = .ok e ∧ ofJson? kind e.toJson = some e ∧
            d.Rewrites registry part planId position e ∧
            (x.WhenAction Action.Exact →
              (e.decodeEntity registry token = .ok x ↔ x.WhenAction (·.Restored registry)) ∧
              (x.WhenAction (·.Restored registry) →
                e.recode registry token part planId position = .ok e) ∧
              (x.WhenAction Action.Legible → x.WhenAction Action.Shallow →
                (x.WhenAction (·.Restored registry) ↔ x.WhenAction Action.NullFree))) := by
  refine ⟨exists_decodeEntity, fun x decoded => ⟨numbers_of_decodeEntity decoded, ?_⟩⟩
  intro part planId position fits
  obtain ⟨e, encoded, rewrites⟩ := encode_of_decodeEntity coherent decoded fits part planId
  have isKind : e.kind = kind := rewrites.kind_eq.trans (fields_of_ofJson? parsed).1
  refine ⟨e, encoded, isKind ▸ e.ofJson?_toJson, rewrites, fun isExact => ?_⟩
  have again := decodeEntity_self_iff decoded fits isExact encoded
  refine ⟨again, fun restored => ?_, fun legible shallow => ?_⟩
  · rw [recode, again.mpr restored]
    exact encoded
  · cases x with
    | action x =>
      cases d with
      | action d =>
        obtain ⟨_, isAction, same⟩ := Except.map_eq_ok.mp decoded
        cases same
        exact ActionDocument.restored_iff_of_legible coherent isAction legible shallow
      | _ =>
        obtain ⟨_, _, same⟩ := Except.map_eq_ok.mp decoded
        cases same
    | _ => exact Iff.rfl

end Document

/-! ### Actions of a plugin that keeps payloads as they are -/

theorem anyPayload_coherent : anyPayload.Coherent := by
  intro plugin member
  obtain rfl : plugin = .untyped "any" := List.mem_singleton.mp member
  exact Plugin.untyped_coherent "any"

/-- The document of an action of that plugin, with these texts. -/
def worded (key request : String) (attempts : List String) : ActionDocument where
  part := "elsewhere"
  id := .nil
  key := key
  planId := .nil
  name := "worded"
  descr := ""
  position := 7
  plugin := "any"
  timeout := 5
  retries := 3
  request := request
  attempts := attempts
  state := ⟨0, -3, 0⟩

/-- A document with texts that the archive would write in another way. -/
def looselyWorded : ActionDocument :=
  worded "0000000000000000000000000000000A" " \x7b\"b\": 1, \"a\": 2\x7d" ["[true, null, 5, -1]"]

/-- The action that is meant by it. -/
def looselyMeant : Action where
  id := .nil
  key := some ⟨10, by decide⟩
  name := "worded"
  descr := ""
  plugin := "any"
  timeout := ⟨0, 5, by decide⟩
  retries := 3
  request := some (.ofJson Plugin.untypedName (.obj [("b", .int 1), ("a", .int 2)]))
  attempts := [⟨some (.ofJson Plugin.untypedName (.bool true)), none, some (.ofNanos 5), none⟩]
  state := { State.initial with token := some (.minted 0) }

theorem payloads_looselyMeant {ofRequest ofResponse : Payload → Prop}
    (request : ofRequest (.ofJson Plugin.untypedName (.obj [("b", .int 1), ("a", .int 2)])))
    (response : ofResponse (.ofJson Plugin.untypedName (.bool true))) :
    looselyMeant.PayloadsSatisfy ofRequest ofResponse := by
  simp [Action.PayloadsSatisfy, looselyMeant, request, response]

/-- The document is valid, and the one that it is written as is decoded to the same action and stays
as it is. -/
theorem Document.recoding_normalizes_loosely :
    (Document.action looselyWorded).Valid anyPayload ∧
      ∃ e, (Entity.action looselyMeant).encode "plans" .nil 0 = .ok e ∧
        (Document.action looselyWorded).Rewrites anyPayload "plans" .nil 0 e ∧
        e.decodeEntity anyPayload (.minted 0) = .ok (.action looselyMeant) ∧
        e.recode anyPayload (.minted 0) "plans" .nil 0 = .ok e := by
  have decoded : (Document.action looselyWorded).decodeEntity anyPayload (.minted 0) =
      .ok (.action looselyMeant) := by decide +kernel
  have legible : looselyMeant.Legible := by
    apply payloads_looselyMeant
    · rintro v ⟨⟩
      exact ⟨rfl, ⟨by decide, by decide⟩, ⟨by decide, by decide⟩, trivial⟩
    · rintro v ⟨⟩
      trivial
  have isExact : looselyMeant.Exact :=
    ⟨fun p isRequest v isValue => (legible.1 p isRequest v isValue).exact,
      fun x member p isResponse v isValue => (legible.2 x member p isResponse v isValue).exact⟩
  have shallow : looselyMeant.Shallow := by
    apply payloads_looselyMeant <;> (rintro v ⟨⟩; decide)
  have nullFree : looselyMeant.NullFree :=
    (@payloads_looselyMeant (fun _ => True) (fun p => p.toJson ≠ .ok .null) trivial
      (by rintro ⟨⟩)).2
  obtain ⟨accepted, normalizes⟩ := recoding_normalizes anyPayload_coherent
    (Document.action looselyWorded).ofJson?_toJson (.minted 0)
  obtain ⟨_, written⟩ := normalizes _ decoded
  obtain ⟨e, encoded, _, rewrites, stays⟩ := written "plans" .nil 0 ⟨by decide, by decide⟩
  obtain ⟨again, unchanged, ofLegible⟩ := stays isExact
  have restored := (ofLegible legible shallow).mpr nullFree
  exact ⟨accepted.mp ⟨_, decoded⟩, e, encoded, rewrites, again.mpr restored, unchanged restored⟩

/-- The document of an action that was tried once, with a response that is null because of the text
inside it. -/
def nullInside : ActionDocument := worded "" ""
  ["\x7b\"resp\":\x7b\"$serde_json::private::RawValue\":\"null\"\x7d,\"start\":0,\"end\":0\x7d"]

/-- The document is valid, and the action that it is decoded to is not the one that is decoded from
the document of that action: the response is gone. -/
theorem Document.null_inside_lost :
    (Document.action nullInside).Valid anyPayload ∧
      ∃ x e y, (Document.action nullInside).decodeEntity anyPayload (.minted 0) = .ok x ∧
        x.encode "plans" .nil 0 = .ok e ∧ e.decodeEntity anyPayload (.minted 0) = .ok y ∧
        y ≠ x := by
  have outcome : (do
      let x ← (Document.action nullInside).decodeEntity anyPayload (.minted 0)
      let e ← x.encode "plans" .nil 0
      let y ← e.decodeEntity anyPayload (.minted 0)
      return decide (y = x)) = .ok false := by decide +kernel
  simp only [Except.bind_eq_ok, pure, Except.pure, Except.ok.injEq, decide_eq_false_iff_not]
    at outcome
  obtain ⟨x, decoded, e, encoded, y, decodedAgain, different⟩ := outcome
  exact ⟨exists_decodeEntity.mp ⟨x, decoded⟩, x, e, y, decoded, encoded, decodedAgain, different⟩

end PlanArchive
