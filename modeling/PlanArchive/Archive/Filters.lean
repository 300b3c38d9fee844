import PlanArchive.Archive.Basic

/-!
# Search filters

Which plans a search selects: by identifier, by group and by status. A list that is not empty
selects the plans whose field is among its values, and the lists combine. Filters that hold the nil
identifier or a value twice are refused.
-/

namespace PlanArchive

/-- Which plans a search selects. -/
structure Filters where
  ids : List Uuid
  groups : List Uuid
  statuses : List Status
deriving DecidableEq

namespace Filters

/-- Whether every plan is selected. -/
def isEmpty (f : Filters) : Bool := f.ids.isEmpty && f.groups.isEmpty && f.statuses.isEmpty

/-- The first value of a list that occurs before, among those seen or in the list. -/
def firstRepeated? {α : Type} [DecidableEq α] (seen : List α) : List α → Option α
  | [] => none
  | v :: rest => if v ∈ seen then some v else firstRepeated? (v :: seen) rest

/-- Refuses a list with a repeated value. -/
def checkDistinct {α : Type} [DecidableEq α] (list : String) (text : α → String)
    (values : List α) : Except ArchiveError Unit :=
  match firstRepeated? [] values with
  | none => .ok ()
  | some v => .error (.validation (.repeatedFilter list (text v)))

/-- Refuses a list with the nil identifier. -/
def checkNotNil (list : String) (ids : List Uuid) : Except ArchiveError Unit :=
  if ids.any Uuid.isNil then .error (.validation (.nilFilter list)) else .ok ()

/-- Refuses filters that cannot be meant. -/
def validate (f : Filters) : Except ArchiveError Unit := do
  checkNotNil "by_ids" f.ids
  checkNotNil "by_group_ids" f.groups
  checkDistinct "by_ids" Uuid.toText f.ids
  checkDistinct "by_group_ids" Uuid.toText f.groups
  checkDistinct "by_status" Status.variant f.statuses

/-- The conditions of the filters: identifiers, groups, status, each if its list is not empty. -/
def conditions (f : Filters) : List Condition :=
  (if f.ids.isEmpty then []
    else [⟨Field.id, .texts (f.ids.map Uuid.toText)⟩])
  ++ (if f.groups.isEmpty then []
    else [⟨Field.groupId, .texts (f.groups.map Uuid.toText)⟩])
  ++ (if f.statuses.isEmpty then []
    else [⟨Field.status, .ints (f.statuses.map Status.code)⟩])

/-- The query of the filters. -/
def toQuery (f : Filters) : Except ArchiveError Query := do
  f.validate
  return f.conditions.foldl Query.and (Query.orderedBy Field.submitTime)

end Filters

/-- The query of a plain listing: every plan, the latest submission first; at most `limit` of them
when the limit is positive. -/
def Query.listing (limit : Int) : Query :=
  let every := Query.orderedBy Field.submitTime
  if 0 < limit then every.withLimit limit.toNat else every

end PlanArchive
