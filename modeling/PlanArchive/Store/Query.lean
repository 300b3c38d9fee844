import PlanArchive.Json.Basic

/-!
# Queries

A query selects the documents of a collection that meet every one of its conditions, sorts them by
an integer field, largest first, and cuts the result to a limit. A condition says that a top-level
field is one of some values. A query can be rendered for a database, with numbered parameters, and
evaluated on documents.
-/

namespace PlanArchive

/-- The values a field is compared with. -/
inductive QueryValues where
  | texts (values : List String)
  | ints (values : List Int64)
deriving DecidableEq

/-- A top-level field is one of some values. -/
structure Condition where
  field : String
  values : QueryValues
deriving DecidableEq

namespace Condition

/-- The condition in the language of the database, bound to the parameter with this number. -/
def render (c : Condition) (parameter : Nat) : String :=
  let field := "doc->>'" ++ c.field ++ "'"
  let choice := " = ANY($" ++ toString parameter ++ ")"
  match c.values with
  | .texts _ => field ++ choice
  | .ints _ => "(" ++ field ++ ")::bigint" ++ choice

/-- Whether a document meets the condition. A field of another type meets none. -/
def holds (c : Condition) (doc : Json) : Bool :=
  let field := doc.field? c.field
  match c.values with
  | .texts values => (field.bind Json.text?).any values.contains
  | .ints values => (field.bind Json.int64?).any values.contains

end Condition

/-- A selection of documents. -/
structure Query where
  conditions : List Condition
  /-- The integer field that the result is sorted by. -/
  orderBy : String
  /-- How many documents the result has at most. -/
  limit : Option Nat
deriving DecidableEq

namespace Query

/-- Every document, largest value of `field` first. -/
def orderedBy (field : String) : Query := ⟨[], field, none⟩

/-- The query with one more condition. -/
def and (q : Query) (c : Condition) : Query := { q with conditions := q.conditions ++ [c] }

/-- The query with its result cut to `limit` documents. -/
def withLimit (q : Query) (limit : Nat) : Query := { q with limit := some limit }

/-- Renders conditions with parameters numbered from `first`. -/
def renderFrom (first : Nat) : List Condition → List String
  | [] => []
  | c :: rest => c.render first :: renderFrom (first + 1) rest

/-- The conditions in the language of the database, joined. -/
def predicate (q : Query) : String :=
  match q.conditions with
  | [] => "TRUE"
  | conditions => " AND ".intercalate (renderFrom 1 conditions)

/-- The order in the language of the database; identifiers decide between equal fields. -/
def orderClause (q : Query) : String :=
  "ORDER BY (doc->>'" ++ q.orderBy ++ "')::bigint DESC, id DESC"

/-- The parameters in the order of their numbers. -/
def params (q : Query) : List QueryValues := q.conditions.map Condition.values

/-- Whether a document meets every condition. -/
def selects (q : Query) (doc : Json) : Bool := q.conditions.all fun c => c.holds doc

/-- The integer that a document is sorted by; one without such a field counts as zero. -/
def sortKey (q : Query) (doc : Json) : Int :=
  (((doc.field? q.orderBy).bind Json.int64?).map Int64.toInt).getD 0

/-- The text that decides between documents with equal sort keys. -/
def tieKey (doc : Json) : String := ((doc.field? "id").bind Json.text?).getD ""

/-- How two documents stand in the order of the result. -/
def order (q : Query) (a b : Json) : Ordering :=
  (compare (q.sortKey b) (q.sortKey a)).then (compare (tieKey b) (tieKey a))

/-- Sorts values by the documents they come with; equal ones keep their order. -/
def sort {α : Type} (q : Query) (doc : α → Json) (items : List α) : List α :=
  items.mergeSort fun a b => q.order (doc a) (doc b) != .gt

/-- The result of the query on some values that come with documents. -/
def run {α : Type} (q : Query) (doc : α → Json) (items : List α) : List α :=
  let sorted := q.sort doc (items.filter fun item => q.selects (doc item))
  match q.limit with
  | some limit => sorted.take limit
  | none => sorted

end Query

end PlanArchive
