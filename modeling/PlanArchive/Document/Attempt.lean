import PlanArchive.Document.Field
import PlanArchive.Json.Embedded
import PlanArchive.Json.Printer
import PlanArchive.Plugin

/-!
# Payloads and attempts as text

The request of an action and each of its attempts are stored as JSON texts inside the action's
document. A response stays JSON until the plugin that the action names decodes it. Texts inside a
request or a response are read with it; the other members of an attempt have none.
-/

namespace PlanArchive

/-- How deep containers may be nested in a stored text. -/
def Json.storedDepth : Nat := 127

namespace AttemptError

/-- The stored form of a failure. -/
def toJson (e : AttemptError) : Json :=
  .obj [("code", .ofInt64 e.code), ("message", .str e.message), ("permanent", .bool e.permanent)]

/-- The failure with these members. -/
def ofMembers? (code message permanent : Json) : Option AttemptError := do
  return ⟨← code.int64?, ← message.text?, ← permanent.bool?⟩

/-- The failure that a value denotes: an object with its members, or an array of exactly them. -/
def ofJson? (v : Json) : Option AttemptError :=
  match v with
  | .obj _ => do
    ofMembers? (← v.field? "code") (← v.field? "message") (← v.field? "permanent")
  | .arr [code, message, permanent] => ofMembers? code message permanent
  | _ => none

/-- Reads a failure inside an attempt. Members that a failure does not have are skipped. -/
def reader : Json.Reader Json
  | '{' :: rest =>
    let known (name : String) : Option (Json.Reader Json) :=
      if name = "code" ∨ name = "message" ∨ name = "permanent"
      then some (Json.Reader.value false (Json.storedDepth - 2)) else none
    Json.Reader.record known rest
  | text => Json.Reader.value false (Json.storedDepth - 1) text

end AttemptError

/-- The stored form of an attempt. -/
structure AttemptRecord where
  response : Option Json
  error : Option AttemptError
  start : Int64
  finish : Int64
deriving DecidableEq

namespace AttemptRecord

/-- What is absent is written as null. -/
def optional (v : Option Json) : Json := v.getD .null

/-- Null stands for what is absent. -/
def present? : Json → Option Json
  | .null => none
  | v => some v

/-- The attempt as one JSON value. -/
def toJson (a : AttemptRecord) : Json :=
  .obj [("resp", optional a.response), ("err", optional (a.error.map AttemptError.toJson)),
    ("start", .ofInt64 a.start), ("end", .ofInt64 a.finish)]

/-- The text of an attempt. -/
def toText (a : AttemptRecord) : String := a.toJson.toText

/-- The failure in a member that may be null. -/
def errorOf? (v : Option Json) : Option (Option AttemptError) :=
  match v with
  | none => some none
  | some v => (AttemptError.ofJson? v).map some

/-- The response in a member that may be null, the texts inside it read. One that a text inside
makes null is there all the same. -/
def responseOf? (v : Option Json) : Option (Option Json) :=
  match v with
  | none => some none
  | some v => (v.expand (Json.read? Json.storedDepth)).map some

/-- The attempt with these members. -/
def ofMembers? (response error : Option Json) (start finish : Json) : Option AttemptRecord := do
  return ⟨← responseOf? response, ← errorOf? error, ← start.int64?, ← finish.int64?⟩

/-- The attempt that a value denotes. Response and failure may be missing in an object; an array
lists all four members. -/
def ofJson? (v : Json) : Option AttemptRecord :=
  match v with
  | .obj _ => do
    ofMembers? ((v.field? "resp").bind present?) ((v.field? "err").bind present?)
      (← v.field? "start") (← v.field? "end")
  | .arr [response, error, start, finish] =>
    ofMembers? (present? response) (present? error) start finish
  | _ => none

/-- Reads an attempt. Members that an attempt does not have are skipped. -/
def reader : Json.Reader Json
  | '{' :: rest =>
    let known (name : String) : Option (Json.Reader Json) :=
      if name = "err" then some AttemptError.reader
      else if name = "resp" ∨ name = "start" ∨ name = "end"
      then some (Json.Reader.value false (Json.storedDepth - 1)) else none
    Json.Reader.record known rest
  | '[' :: rest =>
    let plain := Json.Reader.value false (Json.storedDepth - 1)
    Json.Reader.tuple [plain, AttemptError.reader, plain, plain] rest
  | _ => none

/-- The attempt that a text denotes. -/
def ofText? (text : String) : Option AttemptRecord := do
  ofJson? (← Json.Reader.whole? reader text)

end AttemptRecord

namespace Attempt

/-- The encoding of a payload that may be absent. -/
def encodePayload (field : String) : Option Payload → Except FieldError (Option Json)
  | none => .ok none
  | some payload =>
    match payload.toJson with
    | .ok v => .ok (some v)
    | .error fault => .error (.json field fault)

/-- The stored form of an attempt. -/
def encode (a : Attempt) : Except FieldError AttemptRecord := do
  let response ← encodePayload "attempts" a.response
  let start ← Field.encodeInstant "attempt start" a.start
  let finish ← Field.encodeInstant "attempt end" a.finish
  return ⟨response, a.error, start, finish⟩

/-- Decodes the response of an attempt. -/
def decodeResponse (plugin : Plugin) : Option Json → Except FieldError (Option Payload)
  | none => .ok none
  | some v =>
    match plugin.decodeResponse v.normalize with
    | some payload => .ok (some payload)
    | none => .error (.json "attempts" .malformed)

/-- The attempt that a text stores, its response decoded by a plugin. -/
def decode (plugin : Plugin) (text : String) : Except FieldError Attempt :=
  match AttemptRecord.ofText? text with
  | none => .error (.json "attempts" .malformed)
  | some stored => do
    let response ← decodeResponse plugin stored.response
    return ⟨response, stored.error, Field.decodeInstant stored.start,
      Field.decodeInstant stored.finish⟩

end Attempt

namespace Action

/-- The text of a request; the empty text when there is none. -/
def encodeRequest (request : Option Payload) : Except FieldError String := do
  match ← Attempt.encodePayload "req" request with
  | none => return ""
  | some v => return v.toText

/-- The request that a text stores, decoded by a plugin. -/
def decodeRequest (plugin : Plugin) (text : String) : Except FieldError (Option Payload) :=
  if text.isEmpty then .ok none
  else
    match (Json.read? Json.storedDepth text).bind fun v => plugin.decodeRequest v.normalize with
    | some payload => .ok (some payload)
    | none => .error (.json "req" .malformed)

end Action

end PlanArchive
