import PlanArchive.Text.Quoted

/-!
# Status and failure reason

The life cycle of an entity and the reasons for which a plan ends early. Each value has a storage
code, a name in lower case with underscores, and a variant name in capitals.
-/

namespace PlanArchive

/-- Where an entity stands in its life cycle. -/
inductive Status where
  | notStarted | running | completed | failed | stopped
deriving DecidableEq, Repr, Inhabited

namespace Status

/-- Every status, by ascending code. -/
def all : List Status := [.notStarted, .running, .completed, .failed, .stopped]

/-- The number that stands for a status in a document. -/
def code : Status → Int64
  | .notStarted => 0
  | .running => 1
  | .completed => 2
  | .failed => 3
  | .stopped => 4

/-- The status with a code. -/
def ofCode? (code : Int64) : Option Status := all.find? fun s => s.code == code

/-- The name that users write and see. -/
def name : Status → String
  | .notStarted => "not_started"
  | .running => "running"
  | .completed => "completed"
  | .failed => "failed"
  | .stopped => "stopped"

/-- The name that a filter error shows. -/
def variant : Status → String
  | .notStarted => "NotStarted"
  | .running => "Running"
  | .completed => "Completed"
  | .failed => "Failed"
  | .stopped => "Stopped"

/-- The status of a name. -/
def ofName? (name : String) : Option Status := all.find? fun s => s.name == name

/-- The message about a text that names no status. -/
def unknownNameMessage (text : String) : String := "invalid status: " ++ Text.quoted text

end Status

/-- Why a plan stopped short of completion. -/
inductive FailureReason where
  | unknown | preCheck | block | postCheck | contCheck | stopped
deriving DecidableEq, Repr, Inhabited

namespace FailureReason

/-- Every reason, by ascending code. -/
def all : List FailureReason := [.unknown, .preCheck, .block, .postCheck, .contCheck, .stopped]

/-- The number that stands for a reason in a document. -/
def code : FailureReason → Int64
  | .unknown => 0
  | .preCheck => 1
  | .block => 2
  | .postCheck => 3
  | .contCheck => 4
  | .stopped => 5

/-- The reason with a code. -/
def ofCode? (code : Int64) : Option FailureReason := all.find? fun r => r.code == code

/-- The name that users see. -/
def name : FailureReason → String
  | .unknown => "unknown"
  | .preCheck => "pre_check"
  | .block => "block"
  | .postCheck => "post_check"
  | .contCheck => "cont_check"
  | .stopped => "stopped"

/-- The name in capitals. -/
def variant : FailureReason → String
  | .unknown => "Unknown"
  | .preCheck => "PreCheck"
  | .block => "Block"
  | .postCheck => "PostCheck"
  | .contCheck => "ContCheck"
  | .stopped => "Stopped"

/-- The reason of a name. -/
def ofName? (name : String) : Option FailureReason := all.find? fun r => r.name == name

end FailureReason

end PlanArchive
