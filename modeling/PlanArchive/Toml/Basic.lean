import PlanArchive.Json.Basic

/-!
# TOML values and tables

The values of a TOML document, and how pairs and headers build up its tables. A table records how
it came about, because that decides what may be added to it: a header and a braced value close a
table, a dotted key opens one for further dotted keys, and a header with several names implies the
tables on its way, one of which a later header may still define.

Numbers with a fraction and points in time are only checked for their form: they are kept without
their value, as no setting is one.
-/

namespace PlanArchive

namespace Toml

/-- How a table came about. -/
inductive Origin where
  /-- Written in braces. -/
  | braced
  /-- Defined by its own header. -/
  | header
  /-- Named on the way of a longer header. -/
  | implied
  /-- Named by a dotted key. -/
  | dotted
deriving DecidableEq, Repr

end Toml

/-- A TOML value. -/
inductive Toml where
  | str (value : String)
  | integer (value : Int)
  | boolean (value : Bool)
  | float
  | moment
  | array (items : List Toml)
  | table (origin : Toml.Origin) (fields : List (String × Toml))
  /-- The tables under repeated headers in double brackets, in order. -/
  | tables (items : List (List (String × Toml)))

namespace Toml

instance : Inhabited Toml := ⟨.boolean false⟩

/-- The fields of a table, by name. -/
abbrev Table := List (String × Toml)

namespace Table

/-- Gives a key of a table its value. The last name must be free. On the way there, a missing table
is opened, one that dotted keys opened is entered, and one that a header implied is passed through;
`closed` says that the table itself is not open for values of dotted keys. -/
def assign (value : Toml) : (closed : Bool) → List String → Table → Option Table
  | _, [], _ => none
  | closed, [name], fields =>
    if closed || (fields.lookup name).isSome then none else some (fields ++ [(name, value)])
  | _, name :: path, fields =>
    match fields.lookup name with
    | none => do
      let inner ← assign value false path []
      some (fields ++ [(name, .table .dotted inner)])
    | some (.table .dotted inner) => do
      let inner ← assign value false path inner
      some (Json.putField name (.table .dotted inner) fields)
    | some (.table .implied inner) => do
      let inner ← assign value true path inner
      some (Json.putField name (.table .implied inner) fields)
    | some (.tables items) => do
      let inner ← assign value true path (← items.getLast?)
      some (Json.putField name (.tables (items.dropLast ++ [inner])) fields)
    | some _ => none

/-- Gives several keys their values, in order. -/
def assignAll (pairs : List (List String × Toml)) (fields : Table) : Option Table :=
  pairs.foldlM (fun fields (path, value) => assign value false path fields) fields

/-- Puts what a header introduces in its place. `place` says what stands there from now on, given
what stands there now. On the way, tables are entered or implied, and of tables under a repeated
header the latest is entered. -/
def define (place : Option Toml → Option Toml) : List String → Table → Option Table
  | [], _ => none
  | [name], fields => do
    let value ← place (fields.lookup name)
    some (Json.putField name value fields)
  | name :: path, fields =>
    match fields.lookup name with
    | none => do
      let inner ← define place path []
      some (fields ++ [(name, .table .implied inner)])
    | some (.table .braced _) => none
    | some (.table origin inner) => do
      let inner ← define place path inner
      some (Json.putField name (.table origin inner) fields)
    | some (.tables items) => do
      let inner ← define place path (← items.getLast?)
      some (Json.putField name (.tables (items.dropLast ++ [inner])) fields)
    | some _ => none

end Table

/-- A header with the pairs below it. -/
structure Section where
  /-- The header stands in double brackets and adds one more table. -/
  repeated : Bool
  path : List String
  pairs : List (List String × Toml)

namespace Section

/-- What stands at the place of a section once it is read. A header defines a table once, and only
where none is or one is implied. -/
def place (s : Section) : Option Toml → Option Toml
  | none => do
    let fields ← Table.assignAll s.pairs []
    some (if s.repeated then .tables [fields] else .table .header fields)
  | some (.table .implied fields) =>
    if s.repeated then none
    else (Table.assignAll s.pairs fields).map (.table .header)
  | some (.tables items) =>
    if s.repeated then (Table.assignAll s.pairs []).map fun fields => .tables (items ++ [fields])
    else none
  | some _ => none

end Section

/-- The root table of a document: the pairs before the first header, then section by section. -/
def ofSections? (pairs : List (List String × Toml)) (sections : List Section) : Option Table := do
  let root ← Table.assignAll pairs []
  sections.foldlM (fun fields s => Table.define s.place s.path fields) root

/-! ## Looking at a value -/

/-- The text that a value is. -/
def text? : Toml → Option String
  | .str s => some s
  | _ => none

/-- The items of an array; tables under a repeated header count as items. -/
def items? : Toml → Option (List Toml)
  | .array items => some items
  | .tables items => some (items.map (.table .header))
  | _ => none

/-- The fields of a table. A point in time counts as a table without any known field. -/
def fields? : Toml → Option Table
  | .table _ fields => some fields
  | .moment => some []
  | _ => none

end Toml

end PlanArchive
