import PlanArchive.Json.Reader

/-!
# Texts inside a value

An object whose first member has a reserved name stands for the value of another JSON text, which
that member holds as a string. Such an object has no second member. The text inside is read like
the one around it: its containers are counted afresh, and it may hold further texts. In any other
place the reserved name is a name like all others.

Nothing is ever written in this way, but a value whose fields are put into ascending order may
happen to have the reserved name first.
-/

namespace PlanArchive.Json

/-- The name of the member that holds a text inside a value. -/
def embeddedName : String := "$serde_json::private::RawValue"

/-- Whether an object with these members, in the order of its text, stands for a text inside. -/
def isEmbedding : List (String × Json) → Bool
  | [] => false
  | (name, _) :: _ => name == embeddedName

/-- The text of an object that stands for one: the string that is its only member. -/
def embeddedText? : List (String × Json) → Option String
  | [(_, .str text)] => some text
  | _ => none

mutual

/-- The value with what `read` makes of each text inside in the place of the object that holds the
text. -/
def expand (read : String → Option Json) : Json → Option Json
  | .arr items => (expandItems read items).map .arr
  | .obj fields =>
    if isEmbedding fields then (embeddedText? fields).bind read
    else (expandFields read fields).map .obj
  | .null => some .null
  | .bool b => some (.bool b)
  | .int n => some (.int n)
  | .real r => some (.real r)
  | .str s => some (.str s)

/-- The items of an array, all texts inside them read. -/
def expandItems (read : String → Option Json) : List Json → Option (List Json)
  | [] => some []
  | v :: rest => do
    let v ← expand read v
    return v :: (← expandItems read rest)

/-- The members of an object, all texts inside their values read. -/
def expandFields (read : String → Option Json) :
    List (String × Json) → Option (List (String × Json))
  | [] => some []
  | (name, v) :: rest => do
    let v ← expand read v
    return (name, v) :: (← expandFields read rest)

end

/-- The value of a text with fewer than `levels` texts inside one another. -/
def readWithin? (depth : Nat) : (levels : Nat) → String → Option Json
  | 0, _ => none
  | levels + 1, text => do
    (← Reader.whole? (Reader.value false depth) text).expand (readWithin? depth levels)

/-- The value that a text denotes, with at most `depth` containers inside one another in the text
and in each text inside. A text inside is shorter than the one around it, so that the length bounds
how many of them can be inside one another. -/
def read? (depth : Nat) (text : String) : Option Json := readWithin? depth (text.length + 1) text

end PlanArchive.Json
