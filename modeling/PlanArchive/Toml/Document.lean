import PlanArchive.Toml.Value

/-!
# TOML documents

A document is read line by line into pairs and headers. The pairs below a header belong to its
section, and the sections build up the root table one after another.
-/

namespace PlanArchive.Toml

/-- What a line of a document holds. -/
inductive Line where
  | pair (path : List String) (value : Toml)
  | header (repeated : Bool) (path : List String)

namespace Line

/-- The pairs before the first header, and the sections. -/
def sections : List Line → List (List String × Toml) × List Section
  | [] => ([], [])
  | .pair path value :: rest =>
    let (pairs, more) := sections rest
    ((path, value) :: pairs, more)
  | .header repeated path :: rest =>
    let (pairs, more) := sections rest
    ([], ⟨repeated, path, pairs⟩ :: more)

end Line

namespace Reader

/-- A line that holds a pair or a header, up to its end. -/
def content : Reader Line
  | '[' :: '[' :: text => do
    let (path, text) ← key text
    let (_, text) ← mark ']' text
    let (_, rest) ← mark ']' text
    some (.header true path, rest)
  | '[' :: text => do
    let (path, text) ← key text
    let (_, rest) ← mark ']' text
    some (.header false path, rest)
  | text => do
    let ((path, v), rest) ← keyValue (value depthLimit) text
    some (.pair path v, rest)

/-- The lines of a document without the blank ones. There are no more lines than `fuel`. -/
def document : (fuel : Nat) → List Char → Option (List Line)
  | 0, text => if text.isEmpty then some [] else none
  | fuel + 1, text =>
    if text.isEmpty then some []
    else
      match endLine false text with
      | some rest => document fuel rest
      | none => do
        let (first, text) ← content (skipSpaces text)
        let rest ← document fuel (← endLine false text)
        some (first :: rest)

/-- The text after a byte order mark at its start. -/
def skipOrderMark : List Char → List Char
  | '\uFEFF' :: rest => rest
  | text => text

end Reader

/-- The root table of a document; `none` when the text is no document. -/
def read? (text : String) : Option Table := do
  let chars := Reader.skipOrderMark text.toList
  let (pairs, sections) := Line.sections (← Reader.document chars.length chars)
  ofSections? pairs sections

end PlanArchive.Toml
