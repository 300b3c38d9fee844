import PlanArchive.Hex
import PlanArchive.Json.Basic

/-!
# Reading JSON text

Strict JSON: one value, blanks around every token, no comma after the last member, no escape for
half a surrogate pair, no number too large to be represented. Containers may be nested up to a
given depth. Two readings differ from a plain one:

* `skip` accepts a value of which nothing is kept, to any depth and without a look at what its
  strings and numbers denote;
* `record` and `tuple` read an object or an array of which the expected members are known, each by
  a reader of its own. An object keeps the known members only and fails at a repeated one.

Nothing here says which member has which type.
-/

namespace PlanArchive.Json

/-- Reads a value of `α` from the start of a text and hands back the rest. -/
abbrev Reader (α : Type) := List Char → Option (α × List Char)

namespace Reader

/-- The blanks of JSON. -/
def isBlank (c : Char) : Bool := c == ' ' || c == '\n' || c == '\t' || c == '\r'

/-- The text after the blanks at its start. -/
def skipBlanks : List Char → List Char
  | [] => []
  | c :: rest => if isBlank c then skipBlanks rest else c :: rest

/-- The character behind a one-letter escape. -/
def unescape? (c : Char) : Option Char :=
  match c with
  | '"' => some '"'
  | '\\' => some '\\'
  | '/' => some '/'
  | 'b' => some '\x08'
  | 'f' => some '\x0c'
  | 'n' => some '\n'
  | 'r' => some '\r'
  | 't' => some '\t'
  | _ => none

/-- Whether a code unit opens a surrogate pair. -/
def isLeading (unit : Nat) : Bool := 0xD800 ≤ unit && unit < 0xDC00

/-- Whether a code unit closes a surrogate pair. -/
def isTrailing (unit : Nat) : Bool := 0xDC00 ≤ unit && unit < 0xE000

/-- The characters of a string after its opening quote, behind those read so far, which are kept
in reverse. A lenient reading does not look at what numbered escapes denote. -/
def string (lenient : Bool) (read : List Char) : Reader String
  | '"' :: rest => some (String.ofList read.reverse, rest)
  | '\\' :: 'u' :: a :: b :: c :: d :: rest =>
    match Hex.read? [a, b, c, d] with
    | none => none
    | some unit =>
      if lenient then string lenient ('\uFFFD' :: read) rest
      else if isLeading unit then
        match rest with
        | '\\' :: 'u' :: a :: b :: c :: d :: rest =>
          match Hex.read? [a, b, c, d] with
          | none => none
          | some second =>
            if isTrailing second then
              let code := 0x10000 + (unit - 0xD800) * 0x400 + (second - 0xDC00)
              string lenient (Char.ofNat code :: read) rest
            else none
        | _ => none
      else if isTrailing unit then none
      else string lenient (Char.ofNat unit :: read) rest
  | '\\' :: c :: rest =>
    match unescape? c with
    | some plain => string lenient (plain :: read) rest
    | none => none
  | c :: rest => if c.toNat < 0x20 then none else string lenient (c :: read) rest
  | [] => none

/-- The digits at the start of a text, and the rest. -/
def digits : List Char → List Char × List Char
  | [] => ([], [])
  | c :: rest =>
    if c.isDigit then
      let (more, rest) := digits rest
      (c :: more, rest)
    else ([], c :: rest)

/-- The digits before the point: a zero alone, or a run that starts with another digit. -/
def wholePart : Reader (List Char)
  | '0' :: rest => some (['0'], rest)
  | text =>
    match digits text with
    | ([], _) => none
    | (run, rest) => some (run, rest)

/-- The digits after a point, if one follows. -/
def fraction : Reader (Option (List Char))
  | '.' :: rest =>
    match digits rest with
    | ([], _) => none
    | (run, rest) => some (some run, rest)
  | text => some (none, text)

/-- The digits of an exponent, after its sign. -/
def exponentDigits (negative : Bool) (text : List Char) : Option (Option Int × List Char) :=
  match digits text with
  | ([], _) => none
  | (run, rest) =>
    let n : Int := (Nat.ofDigitChars 10 run 0 : Nat)
    some (some (if negative then -n else n), rest)

/-- The exponent, if one follows. -/
def exponent : Reader (Option Int)
  | c :: rest =>
    if c = 'e' ∨ c = 'E' then
      match rest with
      | '+' :: rest => exponentDigits false rest
      | '-' :: rest => exponentDigits true rest
      | rest => exponentDigits false rest
    else some (none, c :: rest)
  | [] => some (none, [])

/-- The integer with this absolute value, if it fits into 64 bits with or without a sign; zero with
a minus sign is no integer. -/
def integer? (negative : Bool) (n : Nat) : Option Int :=
  if negative then if 0 < n ∧ n ≤ 0x8000000000000000 then some (-(n : Int)) else none
  else if n < UInt64.size then some (n : Int) else none

/-- Reads digits onto a number up to the first that makes it larger than 64 bits; hands back that
one and all after it. -/
def takeUp (n : Nat) : List Char → Nat × List Char
  | [] => (n, [])
  | c :: rest =>
    let longer := Nat.ofDigitChars 10 [c] n
    if longer < UInt64.size then takeUp longer rest else (n, c :: rest)

/-- The value of a number with these parts. Of its digits those count that fit into 64 bits; whole
places that are left out still raise the number. -/
def numberOfParts? (negative : Bool) (whole : List Char) (fraction : Option (List Char))
    (exponent : Option Int) : Option Json :=
  let (n, left) := takeUp 0 whole
  let isPlain := fraction.isNone && exponent.isNone && left.isEmpty
  match if isPlain then integer? negative n else none with
  | some n => some (.int n)
  | none =>
    let places := fraction.getD []
    let (n, unread) := takeUp n places
    let power : Int := left.length - (places.length - unread.length) + exponent.getD 0
    (Real.ofDecimal? negative n power).map .real

/-- A number. A lenient reading does not ask for its value. -/
def number (lenient : Bool) (text : List Char) : Option (Json × List Char) := do
  let (negative, text) := match text with
    | '-' :: rest => (true, rest)
    | text => (false, text)
  let (whole, text) ← wholePart text
  let (fraction, text) ← fraction text
  let (exponent, text) ← exponent text
  if lenient then some (.null, text)
  else
    let value ← numberOfParts? negative whole fraction exponent
    some (value, text)

/-- A value that is no container. -/
def scalar (lenient : Bool) : Reader Json
  | 'n' :: 'u' :: 'l' :: 'l' :: rest => some (.null, rest)
  | 't' :: 'r' :: 'u' :: 'e' :: rest => some (.bool true, rest)
  | 'f' :: 'a' :: 'l' :: 's' :: 'e' :: rest => some (.bool false, rest)
  | '"' :: rest => do
    let (s, rest) ← string lenient [] rest
    some (.str s, rest)
  | text => number lenient text

/-- The items of an array from its first item on, and the closing bracket. There are no more items
than `fuel`. -/
def items {α : Type} (item : Reader α) : (fuel : Nat) → Reader (List α)
  | 0, _ => none
  | fuel + 1, text => do
    let (v, text) ← item (skipBlanks text)
    match skipBlanks text with
    | ',' :: text => do
      let (rest, text) ← items item fuel text
      some (v :: rest, text)
    | ']' :: text => some ([v], text)
    | _ => none

/-- An array after its opening bracket. -/
def array {α : Type} (item : Reader α) (text : List Char) : Option (List α × List Char) :=
  match skipBlanks text with
  | ']' :: rest => some ([], rest)
  | text => items item text.length text

/-- The name of a member and its colon. -/
def name (lenient : Bool) : Reader String
  | '"' :: rest => do
    let (key, rest) ← string lenient [] rest
    match skipBlanks rest with
    | ':' :: rest => some (key, rest)
    | _ => none
  | _ => none

/-- The members of an object from its first member on, and the closing brace, each value read as
its name demands. There are no more members than `fuel`. -/
def members {α : Type} (lenient : Bool) (value : String → Reader α) :
    (fuel : Nat) → Reader (List (String × α))
  | 0, _ => none
  | fuel + 1, text => do
    let (key, text) ← name lenient (skipBlanks text)
    let (v, text) ← value key (skipBlanks text)
    match skipBlanks text with
    | ',' :: text => do
      let (rest, text) ← members lenient value fuel text
      some ((key, v) :: rest, text)
    | '}' :: text => some ([(key, v)], text)
    | _ => none

/-- An object after its opening brace. -/
def object {α : Type} (lenient : Bool) (value : String → Reader α) (text : List Char) :
    Option (List (String × α) × List Char) :=
  match skipBlanks text with
  | '}' :: rest => some ([], rest)
  | text => members lenient value text.length text

/-- A value with at most `depth` containers inside one another. -/
def value (lenient : Bool) : (depth : Nat) → Reader Json
  | 0, text => scalar lenient text
  | depth + 1, text =>
    match text with
    | '[' :: rest => do
      let (vs, rest) ← array (value lenient depth) rest
      some (.arr vs, rest)
    | '{' :: rest => do
      let (fields, rest) ← object lenient (fun _ => value lenient depth) rest
      some (.obj fields, rest)
    | text => scalar lenient text

/-- A value of any depth of which nothing is kept. -/
def skip (text : List Char) : Option (Unit × List Char) := do
  let (_, rest) ← value true text.length text
  some ((), rest)

/-- The value of a member that `known` names, or nothing of another one, which is skipped. -/
def recordMember (known : String → Option (Reader Json)) (key : String) : Reader (Option Json) :=
  fun text =>
    match known key with
    | some read => do
      let (v, rest) ← read text
      some (some v, rest)
    | none => do
      let (_, rest) ← skip text
      some (none, rest)

/-- The object of the members of which a value was kept. None of them may be repeated. -/
def recordOf? (members : List (String × Option Json)) : Option Json :=
  let kept := members.filterMap fun (key, v) => v.map fun v => (key, v)
  if (kept.map Prod.fst).Nodup then some (.obj kept) else none

/-- An object with members of which those that `known` names are kept and all others skipped.
A known member that is repeated fails. -/
def record (known : String → Option (Reader Json)) (text : List Char) :
    Option (Json × List Char) := do
  let (members, rest) ← object false (recordMember known) text
  let v ← recordOf? members
  some (v, rest)

/-- The items of an array of a fixed length after the first `started`, each by a reader of its
own, and the closing bracket. -/
def tupleFrom (started : Bool) : List (Reader Json) → Reader (List Json)
  | [], text =>
    match skipBlanks text with
    | ']' :: rest => some ([], rest)
    | _ => none
  | item :: more, text => do
    let text ← match started, skipBlanks text with
      | false, text => some text
      | true, ',' :: text => some (skipBlanks text)
      | true, _ => none
    let (v, text) ← item text
    let (rest, text) ← tupleFrom true more text
    some (v :: rest, text)

/-- An array of a fixed length after its opening bracket, each item by a reader of its own. -/
def tuple (items : List (Reader Json)) (text : List Char) : Option (Json × List Char) := do
  let (vs, rest) ← tupleFrom false items text
  some (.arr vs, rest)

/-- The value of a whole text: blanks may surround it and nothing may follow it. -/
def whole? {α : Type} (read : Reader α) (text : String) : Option α := do
  let (v, rest) ← read (skipBlanks text.toList)
  if (skipBlanks rest).isEmpty then some v else none

end Reader

end PlanArchive.Json
