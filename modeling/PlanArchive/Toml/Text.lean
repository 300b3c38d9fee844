import PlanArchive.Hex

/-!
# TOML strings

A string is read in two steps: first the characters between its marks, then what they denote. There
are two marks, and each may stand alone or three times. Between double quotes there are escapes,
between apostrophes none. Between triple marks a string may have several lines: the line break
right after the opening mark is dropped, a line break has one form whichever is written, and an
escaped line end joins lines. One or two more marks right before a closing triple belong to the
string.

The written form is always the single line between double quotes.
-/

namespace PlanArchive.Toml

/-- Reads a value of `α` from the start of a text and hands back the rest. -/
abbrev Reader (α : Type) := List Char → Option (α × List Char)

namespace Reader

/-- The characters that separate words within a line. -/
def isSpace (c : Char) : Bool := c == ' ' || c == '\t'

/-- The text after the spaces at its start. -/
def skipSpaces : List Char → List Char
  | [] => []
  | c :: rest => if isSpace c then skipSpaces rest else c :: rest

/-- The characters that comments and single lines of strings are made of. -/
def isPrintable (c : Char) : Bool := c == '\t' || (0x20 ≤ c.toNat && c.toNat != 0x7F)

/-! ## Between the marks -/

/-- The characters up to a single closing mark. Where there are escapes, an escaped mark does not
close. Characters read so far are kept in reverse. -/
def single (mark : Char) (escapes : Bool) (read : List Char) : Reader (List Char)
  | [] => none
  | c :: rest =>
    if c = mark then some (read.reverse, rest)
    else if escapes && c == '\\' then
      match rest with
      | [] => none
      | d :: rest => single mark escapes (d :: c :: read) rest
    else single mark escapes (c :: read) rest

/-- Up to two marks at the start of a text are added to what was read so far. -/
def trailingMarks (mark : Char) (read : List Char) : List Char → List Char × List Char
  | c :: d :: rest =>
    if c = mark then
      if d = mark then (d :: c :: read, rest) else (c :: read, d :: rest)
    else (read, c :: d :: rest)
  | [c] => if c = mark then ([c] ++ read, []) else (read, [c])
  | [] => (read, [])

/-- Three marks at the start of a text, and the rest. -/
def closing? (mark : Char) : List Char → Option (List Char)
  | c :: d :: e :: rest => if c = mark ∧ d = mark ∧ e = mark then some rest else none
  | _ => none

/-- The characters up to a closing triple of marks. -/
def triple (mark : Char) (escapes : Bool) (read : List Char) : Reader (List Char)
  | [] => none
  | c :: rest =>
    match closing? mark (c :: rest) with
    | some after =>
      let (read, after) := trailingMarks mark read after
      some (read.reverse, after)
    | none =>
      if escapes && c == '\\' then
        match rest with
        | [] => none
        | d :: rest => triple mark escapes (d :: c :: read) rest
      else triple mark escapes (c :: read) rest

/-! ## What the characters denote -/

/-- Whether a line ends after spaces at most. -/
def endsLine : List Char → Bool
  | '\n' :: _ => true
  | '\r' :: '\n' :: _ => true
  | c :: rest => isSpace c && endsLine rest
  | [] => false

/-- The character behind a one-letter escape. -/
def unescape? (c : Char) : Option Char :=
  match c with
  | 'b' => some '\x08'
  | 't' => some '\t'
  | 'n' => some '\n'
  | 'f' => some '\x0c'
  | 'r' => some '\r'
  | '"' => some '"'
  | '\\' => some '\\'
  | _ => none

/-- The character with the code that these digits denote, if there is one. -/
def numbered? (digits : List Char) : Option Char := do
  let code ← Hex.read? digits
  if code.isValidChar then some (Char.ofNat code) else none

/-- The characters of a single line that has no escapes. -/
def plain (chars : List Char) : Option (List Char) :=
  if chars.all isPrintable then some chars else none

/-- The characters of several lines that have no escapes. -/
def plainLines : List Char → Option (List Char)
  | [] => some []
  | '\r' :: '\n' :: rest => (plainLines rest).map ('\n' :: ·)
  | c :: rest =>
    if c = '\n' ∨ isPrintable c = true then (plainLines rest).map (c :: ·) else none

/-- The characters of a text with escapes, on one line or on several. While `joining`, spaces and
line breaks are dropped. -/
def escaped (lines : Bool) (joining : Bool) : List Char → Option (List Char)
  | [] => some []
  | '\\' :: 'u' :: a :: b :: c :: d :: rest => do
    let char ← numbered? [a, b, c, d]
    let more ← escaped lines false rest
    some (char :: more)
  | '\\' :: 'U' :: a :: b :: c :: d :: e :: f :: g :: h :: rest => do
    let char ← numbered? [a, b, c, d, e, f, g, h]
    let more ← escaped lines false rest
    some (char :: more)
  | '\\' :: c :: rest =>
    if lines && endsLine (c :: rest) then escaped lines true (c :: rest)
    else do
      let char ← unescape? c
      let more ← escaped lines false rest
      some (char :: more)
  | c :: rest =>
    if lines && joining && (isSpace c || c == '\n') then escaped lines true rest
    else if lines && c == '\r' && rest.head? == some '\n' then escaped lines joining rest
    else if (lines && c == '\n') || (isPrintable c && c != '\\') then do
      let more ← escaped lines false rest
      some (c :: more)
    else none

/-! ## Strings -/

/-- The text after a line break at its start. -/
def skipLineBreak : List Char → List Char
  | '\n' :: rest => rest
  | '\r' :: '\n' :: rest => rest
  | text => text

/-- A string on one line, after its opening mark. -/
def line (mark : Char) (text : List Char) : Option (String × List Char) := do
  let escapes := mark == '"'
  let (chars, rest) ← single mark escapes [] text
  let chars ← if escapes then escaped false false chars else plain chars
  some (String.ofList chars, rest)

/-- A string on one or several lines, after its opening triple of marks. -/
def lines (mark : Char) (text : List Char) : Option (String × List Char) := do
  let escapes := mark == '"'
  let (chars, rest) ← triple mark escapes [] (skipLineBreak text)
  let chars ← if escapes then escaped true false chars else plainLines chars
  some (String.ofList chars, rest)

/-- A string after the first character of its opening mark. -/
def string (mark : Char) (text : List Char) : Option (String × List Char) :=
  match closing? mark (mark :: text) with
  | some rest => lines mark rest
  | none => line mark text

end Reader

/-! ## The written form -/

/-- A character as it is written between double quotes. -/
def escapeChar (c : Char) : List Char :=
  if c = '"' ∨ c = '\\' then ['\\', c]
  else if Reader.isPrintable c then [c]
  else ['\\', 'u'] ++ Hex.fixed 4 c.toNat

/-- Text as it is written. -/
def quoted (s : String) : String :=
  String.ofList ('"' :: s.toList.flatMap escapeChar ++ ['"'])

end PlanArchive.Toml
