import PlanArchive.Plan.Basic
import PlanArchive.Hex

/-!
# Fields of documents

A document is flat, and its fields are texts, integers of 64 bits and lists of texts. An absent
identifier is the empty text and an absent point in time is zero; points in time and lengths of
time are counted in nanoseconds, and enumerations have codes. This module encodes and decodes
single fields and says how that fails.
-/

namespace PlanArchive

/-- Why an entity has no document, or a document no entity. -/
inductive FieldError where
  /-- A length of time has too many nanoseconds. -/
  | spanTooLong (field : String) (value : Span)
  /-- A length of time is stored as a negative number. -/
  | spanNegative (field : String) (nanos : Int64)
  /-- A point in time is too far from the epoch. -/
  | instantOutOfRange (field : String) (value : Instant)
  | unknownStatus (code : Int64)
  | unknownReason (code : Int64)
  /-- A text is neither empty nor an identifier. -/
  | badId (field value : String)
  /-- A number does not fit into its field of the entity. -/
  | outOfRange (field : String) (value : Int64)
  /-- An index does not fit into 64 bits. -/
  | positionTooLarge (position : Nat)
  | badMetadata (fault : Hex.Fault)
  | unknownPlugin (name : String)
  /-- A value and a JSON text do not fit together. -/
  | json (field : String) (fault : JsonFault)
deriving DecidableEq

namespace FieldError

/-- The name of the kind of error, by which programs tell errors apart. -/
def kind : FieldError → String
  | .spanTooLong .. => "DurationOverflow"
  | .spanNegative .. => "NegativeDuration"
  | .instantOutOfRange .. => "TimeOutOfRange"
  | .unknownStatus _ => "UnknownStatus"
  | .unknownReason _ => "UnknownReason"
  | .badId .. => "BadId"
  | .outOfRange .. => "OutOfRange"
  | .positionTooLarge _ => "PositionOverflow"
  | .badMetadata _ => "BadMeta"
  | .unknownPlugin _ => "UnknownPlugin"
  | .json .. => "Json"

/-- The wording of the error. -/
def message : FieldError → String
  | .spanTooLong field value =>
    field ++ " duration " ++ value.toText ++ " does not fit in i64 nanoseconds"
  | .spanNegative field nanos =>
    field ++ " has negative duration " ++ toString nanos.toInt ++ "ns"
  | .instantOutOfRange field value =>
    field ++ " timestamp " ++ value.toText ++ " is outside the representable range"
  | .unknownStatus code => "unknown status code " ++ toString code.toInt
  | .unknownReason code => "unknown failure reason code " ++ toString code.toInt
  | .badId field value => field ++ " is not a valid ID: " ++ Text.quoted value
  | .outOfRange field value =>
    field ++ " value " ++ toString value.toInt ++ " is out of range"
  | .positionTooLarge position => "position " ++ toString position ++ " does not fit in i64"
  | .badMetadata fault => "meta is not valid hex: " ++ fault.message
  | .unknownPlugin name => "plugin " ++ Text.quoted name ++ " is not registered"
  | .json field fault => field ++ ": " ++ fault.message

end FieldError

namespace Field

/-- A number as one of 64 bits; fails with the given error when it does not fit. -/
def encodeInt64 (tooLarge : FieldError) (n : Int) : Except FieldError Int64 :=
  match Json.toInt64? n with
  | some n => .ok n
  | none => .error tooLarge

/-! ## Points and lengths of time -/

/-- An optional point in time as nanoseconds since the epoch. -/
def encodeInstant (field : String) : Option Instant → Except FieldError Int64
  | none => .ok 0
  | some t => encodeInt64 (.instantOutOfRange field t) t.sinceEpoch

/-- Numbers up to zero stand for no point in time. -/
def decodeInstant (nanos : Int64) : Option Instant :=
  if 0 < nanos.toInt then some (.ofNanos nanos.toInt) else none

/-- A length of time in nanoseconds. -/
def encodeSpan (field : String) (d : Span) : Except FieldError Int64 :=
  encodeInt64 (.spanTooLong field d) d.toNanos

/-- The length of time of a number of nanoseconds, which must not be negative. -/
def decodeSpan (field : String) (nanos : Int64) : Except FieldError Span :=
  if nanos.toInt < 0 then .error (.spanNegative field nanos)
  else .ok (.ofNanos nanos.toInt.toNat)

/-! ## Identifiers -/

/-- An optional identifier as its canonical text. -/
def encodeId : Option Uuid → String
  | none => ""
  | some id => id.toText

/-- The empty text and the nil identifier stand for no identifier. -/
def decodeId (field text : String) : Except FieldError (Option Uuid) :=
  if text.isEmpty then .ok none
  else
    match Uuid.parse? text with
    | none => .error (.badId field text)
    | some id => .ok (if id.isNil then none else some id)

/-! ## Numbers -/

/-- The index of a child in the list of its parent. -/
def encodePosition (position : Nat) : Except FieldError Int64 :=
  encodeInt64 (.positionTooLarge position) position

/-- A natural number of 32 bits as one of 64 bits with a sign. -/
def ofUInt32 (n : UInt32) : Int64 := Int64.ofInt n.toNat

/-- An integer of 32 bits as one of 64 bits. -/
def ofInt32 (n : Int32) : Int64 := Int64.ofInt n.toInt

/-- A number as a natural number of 32 bits. -/
def toUInt32 (field : String) (n : Int64) : Except FieldError UInt32 :=
  if 0 ≤ n.toInt ∧ n.toInt < 0x100000000 then .ok (UInt32.ofNat n.toInt.toNat)
  else .error (.outOfRange field n)

/-- A number as an integer of 32 bits. -/
def toInt32 (field : String) (n : Int64) : Except FieldError Int32 :=
  if -0x80000000 ≤ n.toInt ∧ n.toInt < 0x80000000 then .ok (Int32.ofInt n.toInt)
  else .error (.outOfRange field n)

/-! ## Fields of JSON documents -/

/-- The text in a field. -/
def text? (doc : Json) (name : String) : Option String := (doc.field? name).bind Json.text?

/-- The integer in a field. -/
def int? (doc : Json) (name : String) : Option Int64 := (doc.field? name).bind Json.int64?

/-- The identifier in a field, in any spelling. -/
def id? (doc : Json) (name : String) : Option Uuid := (text? doc name).bind Uuid.parse?

/-- The texts in a field. -/
def texts? (doc : Json) (name : String) : Option (List String) := do
  (← (← doc.field? name).items?).mapM Json.text?

/-- The identifiers in a field. -/
def ids? (doc : Json) (name : String) : Option (List Uuid) := do
  (← texts? doc name).mapM Uuid.parse?

/-- Identifiers as their canonical texts. -/
def ofIds (ids : List Uuid) : Json := .arr (ids.map fun id => .str id.toText)

/-- A list of texts. -/
def ofTexts (texts : List String) : Json := .arr (texts.map .str)

end Field

end PlanArchive
