import PlanArchive.Archive.Filters

/-!
# Listings

A listing goes through the plans that a query selects, the latest submission first, and yields a
summary of each. It ends after the first plan that does not decode. Children are not looked at.
-/

namespace PlanArchive

/-- What a listing says about a plan. -/
structure PlanSummary where
  id : Uuid
  groupId : Option Uuid
  name : String
  descr : String
  submitTime : Option Instant
  state : State
deriving DecidableEq

namespace PlanSummary

/-- The summary of a plan. -/
def ofPlan (p : Plan) : PlanSummary :=
  ⟨p.id, p.groupId, p.name, p.descr, p.submitTime, p.state⟩

/-- The identifier that an error about a document names; the nil one when there is none. -/
def namedId (doc : Json) : Uuid := (Field.id? doc Field.id).getD .nil

/-- The summary of a stored plan. -/
def ofItem (operation : Operation) (item : Item) : Except ArchiveError PlanSummary :=
  let id := namedId item.doc
  match PlanDocument.ofJson? item.doc with
  | none => .error (.decode operation .plan id
      (.field (.json EntityKind.plan.collection.name .malformed)))
  | some d => (Archive.decoded operation .plan id (d.decode item.token)).map ofPlan

end PlanSummary

namespace Archive

variable {σ : Type} [DocumentStore σ]

/-- The entries up to the first error, which is kept. -/
def untilError {ε α : Type} : List (Except ε α) → List (Except ε α)
  | [] => []
  | .error e :: _ => [.error e]
  | .ok v :: rest => .ok v :: untilError rest

/-- The summaries of the plans that a query selects. -/
def summaries (a : Archive) (s : σ) (operation : Operation) (q : Query) :
    List (Except ArchiveError PlanSummary) :=
  match DocumentStore.query s a.part EntityKind.plan.collection q with
  | .error e => [.error (.query operation e)]
  | .ok items => untilError (items.map (PlanSummary.ofItem operation))

/-- Lists all plans, or the latest `limit` of them when the limit is positive. -/
def list (a : Archive) (s : σ) (limit : Int) : List (Except ArchiveError PlanSummary) :=
  a.summaries s .list (Query.listing limit)

/-- Lists the plans that filters select. Filters that cannot be meant fail before the listing. -/
def search (a : Archive) (s : σ) (f : Filters) :
    Except ArchiveError (List (Except ArchiveError PlanSummary)) := do
  let q ← f.toQuery
  return a.summaries s .search q

end Archive

end PlanArchive
