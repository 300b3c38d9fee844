import PlanArchive.Toml.Scalar

/-!
# TOML keys and values

A key is one name or several joined by points. A value is a scalar, an array, which may have line
breaks and comments between its items and a comma after the last, or a table in braces, which has
neither. Arrays and braced tables may be inside one another up to a given depth.
-/

namespace PlanArchive.Toml.Reader

/-! ## Blanks -/

/-- The text after the spaces, comments and line breaks at its start; `none` when a comment holds a
control character or is not ended by a line break. -/
def skipBlanks (comment : Bool) : List Char → Option (List Char)
  | [] => if comment then none else some []
  | '\n' :: rest => skipBlanks false rest
  | '\r' :: '\n' :: rest => skipBlanks false rest
  | c :: rest =>
    if comment then if isPrintable c then skipBlanks true rest else none
    else if isSpace c then skipBlanks false rest
    else if c = '#' then skipBlanks true rest
    else some (c :: rest)

/-- The text after the rest of a line, which holds spaces and a comment at most. -/
def endLine (comment : Bool) : List Char → Option (List Char)
  | [] => some []
  | '\n' :: rest => some rest
  | '\r' :: '\n' :: rest => some rest
  | c :: rest =>
    if comment then if isPrintable c then endLine true rest else none
    else if isSpace c then endLine false rest
    else if c = '#' then endLine true rest
    else none

/-! ## Keys -/

/-- The characters of a name without quotes. -/
def isNameChar (c : Char) : Bool := c.isAlphanum || c == '_' || c == '-'

/-- A name, bare or as a string on one line. -/
def name : Reader String
  | '"' :: rest => line '"' rest
  | '\'' :: rest => line '\'' rest
  | text =>
    let (chars, rest) := text.span isNameChar
    if chars.isEmpty then none else some (String.ofList chars, rest)

/-- The names of a key with points between them. There are no more names than `fuel`. -/
def names : (fuel : Nat) → Reader (List String)
  | 0, _ => none
  | fuel + 1, text => do
    let (first, text) ← name (skipSpaces text)
    match skipSpaces text with
    | '.' :: text => do
      let (rest, text) ← names fuel text
      some (first :: rest, text)
    | text => some ([first], text)

/-- How deeply tables and values may be inside one another. -/
def depthLimit : Nat := 79

/-- A key, with the spaces around it. It has no more names than tables may be inside one another. -/
def key (text : List Char) : Option (List String × List Char) := do
  let (path, rest) ← names text.length text
  guard (path.length ≤ depthLimit)
  some (path, rest)

/-! ## Values -/

/-- The items of an array up to the closing bracket. There are no more items than `fuel`. -/
def items (item : Reader Toml) : (fuel : Nat) → Reader (List Toml)
  | 0, _ => none
  | fuel + 1, text => do
    match ← skipBlanks false text with
    | ']' :: rest => some ([], rest)
    | text => do
      let (v, text) ← item text
      match ← skipBlanks false text with
      | ',' :: text => do
        let (vs, rest) ← items item fuel text
        some (v :: vs, rest)
      | ']' :: rest => some ([v], rest)
      | _ => none

/-- A key and its value. -/
def keyValue (value : Reader Toml) (text : List Char) :
    Option ((List String × Toml) × List Char) := do
  let (path, text) ← key text
  let (_, text) ← mark '=' text
  let (v, rest) ← value (skipSpaces text)
  some ((path, v), rest)

/-- The pairs of a table in braces from the first on, and the closing brace. There are no more pairs
than `fuel`. -/
def pairs (value : Reader Toml) : (fuel : Nat) → Reader (List (List String × Toml))
  | 0, _ => none
  | fuel + 1, text => do
    let (first, text) ← keyValue value text
    match skipSpaces text with
    | ',' :: text => do
      let (rest, text) ← pairs value fuel text
      some (first :: rest, text)
    | '}' :: text => some ([first], text)
    | _ => none

/-- A table in braces, after its opening brace. -/
def braced (value : Reader Toml) (text : List Char) : Option (Toml × List Char) :=
  match skipSpaces text with
  | '}' :: rest => some (.table .braced [], rest)
  | text => do
    let (written, rest) ← pairs value text.length text
    let fields ← Table.assignAll written []
    some (.table .braced fields, rest)

/-- A value that is no container. -/
def scalar : Reader Toml
  | 't' :: 'r' :: 'u' :: 'e' :: rest => some (.boolean true, rest)
  | 'f' :: 'a' :: 'l' :: 's' :: 'e' :: rest => some (.boolean false, rest)
  | '"' :: rest => (string '"' rest).map fun (s, rest) => (.str s, rest)
  | '\'' :: rest => (string '\'' rest).map fun (s, rest) => (.str s, rest)
  | text => numeric text

/-- A value with at most `depth` containers inside one another. -/
def value : (depth : Nat) → Reader Toml
  | 0, text => scalar text
  | depth + 1, text =>
    match text with
    | '[' :: rest => (items (value depth) (rest.length + 1) rest).map fun (vs, rest) =>
        (.array vs, rest)
    | '{' :: rest => braced (value depth) rest
    | text => scalar text

end PlanArchive.Toml.Reader
