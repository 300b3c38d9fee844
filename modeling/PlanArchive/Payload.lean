import PlanArchive.Json.Normal

/-!
# Payloads

An action carries a request and its attempts carry responses. To the archive such a payload is a
value of some type, known by the name of its type and by its JSON encoding, or by the reason why it
has none. The order of the fields in an object never counts, which is why a payload holds the normal
form of its encoding. Two payloads are the same when their types and their encodings are equal but
for the signs of zeros.
-/

namespace PlanArchive

/-- Why a value and a JSON text do not belong together. -/
inductive JsonFault where
  /-- The text is no JSON, or not of the shape that is asked for. -/
  | malformed
  /-- The value refuses to be encoded. -/
  | refused (reason : String)
deriving DecidableEq, Repr

namespace JsonFault

/-- The wording of the fault. That of a malformed text is the same for all of them. -/
def message : JsonFault → String
  | .malformed => "<json error>"
  | .refused reason => reason

end JsonFault

namespace Payload

/-- What encoding a payload comes to. -/
inductive Encoding where
  | value (v : Json)
  | refused (reason : String)
deriving DecidableEq

end Payload

/-- A request or a response of an action. -/
structure Payload where
  /-- The name of the payload's type. -/
  typeName : String
  /-- The payload's encoding. -/
  encoding : Payload.Encoding
  /-- The encoding is in normal form. -/
  normal : ∀ v, encoding = .value v → v.IsNormal
deriving DecidableEq

namespace Payload

/-- The payload of a type with this encoding. -/
def ofJson (typeName : String) (v : Json) : Payload where
  typeName := typeName
  encoding := .value v.normalize
  normal := by
    intro w encoded
    cases encoded
    exact Json.isNormal_normalize v

/-- A payload that refuses to be encoded. -/
def refusing (typeName reason : String) : Payload where
  typeName := typeName
  encoding := .refused reason
  normal := by intro v encoded; cases encoded

/-- The JSON encoding of a payload, in normal form. -/
def toJson (p : Payload) : Except JsonFault Json :=
  match p.encoding with
  | .value v => .ok v
  | .refused reason => .error (.refused reason)

/-- The payload with no sign at any zero of its encoding. -/
def comparable (p : Payload) : Payload :=
  match p.encoding with
  | .value v => .ofJson p.typeName v.unsignedZeros
  | .refused _ => p

/-- Whether two optional payloads are the same. -/
def sameOptional (a b : Option Payload) : Bool := decide (a.map comparable = b.map comparable)

/-! ## Record types -/

/-- The type of a field of a record. -/
inductive FieldType where
  | text
  /-- A natural number below `bound`. -/
  | natural (bound : Nat)
  | boolean
deriving DecidableEq, Repr

namespace FieldType

/-- Whether a value has the type. -/
def admits : FieldType → Json → Bool
  | .text, .str _ => true
  | .natural bound, .int n => 0 ≤ n && n < bound
  | .boolean, .bool _ => true
  | _, _ => false

end FieldType

end Payload

/-- A type of payloads that are records: named fields, in order. -/
structure RecordType where
  name : String
  fields : List (String × Payload.FieldType)
deriving DecidableEq, Repr

namespace RecordType

/-- Takes the fields of a record from an object; other members of the object do not matter. -/
def ofObject? (object : Json) : List (String × Payload.FieldType) → Option (List (String × Json))
  | [] => some []
  | (name, type) :: rest => do
    let v ← object.field? name
    guard (type.admits v)
    return (name, v) :: (← ofObject? object rest)

/-- Takes the fields of a record from an array that lists exactly them. -/
def ofItems? :
    List (String × Payload.FieldType) → List Json → Option (List (String × Json))
  | [], [] => some []
  | (name, type) :: rest, v :: items => do
    guard (type.admits v)
    return (name, v) :: (← ofItems? rest items)
  | _, _ => none

/-- The payload that a value encodes: an object with the fields or an array of exactly them. -/
def decode? (type : RecordType) (v : Json) : Option Payload :=
  match v with
  | .obj _ => (ofObject? v type.fields).map fun fields => .ofJson type.name (.obj fields)
  | .arr items => (ofItems? type.fields items).map fun fields => .ofJson type.name (.obj fields)
  | _ => none

end RecordType

end PlanArchive
