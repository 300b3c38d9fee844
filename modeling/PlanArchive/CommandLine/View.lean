import PlanArchive.Archive.Listing

/-!
# What an operator sees

A listing is a table with a row for each plan; a single plan is shown as an indented tree, one line
for each entity and one for the error of an action's last attempt.
-/

namespace PlanArchive.CommandLine

/-- A point in time to the second, or a dash. -/
def timeText (t : Option Instant) : String := (t.map Instant.toSecondsText).getD "-"

/-! ## Listings -/

/-- A text filled up with blanks to at least `width` characters. -/
def column (width : Nat) (text : String) : String :=
  text ++ String.ofList (List.replicate (width - text.length) ' ')

/-- A row of a listing. -/
def row (id status submitted name : String) : String :=
  column 36 id ++ "  " ++ column 11 status ++ "  " ++ column 23 submitted ++ "  " ++ name

/-- The head of a listing. -/
def headRow : String := row "ID" "STATUS" "SUBMITTED" "NAME"

/-- The row of a plan. -/
def summaryRow (s : PlanSummary) : String :=
  row s.id.toText s.state.status.name (timeText s.submitTime) s.name

/-- The rows of a listing, with the head above the first. -/
def listingText (summaries : List PlanSummary) : String :=
  match summaries with
  | [] => ""
  | summaries => String.join ((headRow :: summaries.map summaryRow).map (· ++ "\n"))

/-- What is written in place of a listing without rows. -/
def emptyListing : String := "No plans found.\n"

/-! ## Single plans -/

/-- A status and the times of start and end. -/
def stateText (s : State) : String :=
  s.status.name ++ " [" ++ timeText s.start ++ " .. " ++ timeText s.finish ++ "]"

/-- The lines of an action. -/
def actionLines (indent : String) (a : Action) : List String :=
  let error := a.attempts.getLast?.bind Attempt.error
  [indent ++ "- " ++ a.name ++ " (" ++ a.id.toText ++ ") plugin=" ++ a.plugin
    ++ " status=" ++ a.state.status.name ++ " attempts=" ++ toString a.attempts.length]
  ++ (error.map fun e => indent ++ "  last error: " ++ e.toText).toList

/-- The lines of the checks in a slot. -/
def checksLines (indent : String) (slot : Slot) (c : Checks) : List String :=
  (indent ++ slot.name ++ " checks (" ++ c.id.toText ++ "): " ++ toString c.actions.length
    ++ " action(s), " ++ c.state.status.name)
  :: c.actions.flatMap (actionLines (indent ++ "    "))

/-- The lines of the checks in all slots that have some. -/
def slotsLines (indent : String) (slots : Slots (Option Checks)) : List String :=
  slots.entries.flatMap fun (slot, c) => (c.map (checksLines indent slot)).getD []

/-- The lines of a sequence. -/
def sequenceLines (s : Sequence) : List String :=
  ("      sequence " ++ s.name ++ " (" ++ s.id.toText ++ ") " ++ s.state.status.name)
  :: s.actions.flatMap (actionLines "          ")

/-- The lines of a block at a position. -/
def blockLines (position : Nat) (b : Block) : List String :=
  ["  [" ++ toString position ++ "] " ++ b.name ++ " (" ++ b.id.toText ++ ") "
      ++ stateText b.state,
    "      concurrency=" ++ toString b.concurrency.toNat
      ++ " tolerated_failures=" ++ toString b.toleratedFailures.toInt]
  ++ slotsLines "      " b.checks
  ++ b.sequences.flatMap sequenceLines

/-- The lines about the plan itself. -/
def headLines (p : Plan) : List String :=
  ["Plan: " ++ p.name ++ " (" ++ p.id.toText ++ ")"]
  ++ (if p.descr.isEmpty then [] else ["Description: " ++ p.descr])
  ++ (p.groupId.map fun group => "Group: " ++ group.toText).toList
  ++ ["Submitted: " ++ timeText p.submitTime, "State: " ++ stateText p.state]
  ++ (if p.state.status = .failed then ["Reason: " ++ p.reason.name] else [])
  ++ (if p.metadata.isEmpty then [] else ["Meta: " ++ toString p.metadata.length ++ " bytes"])

/-- The tree of a plan. -/
def planText (p : Plan) : String :=
  let blocks := p.blocks.zipIdx.flatMap fun (b, position) => blockLines position b
  let lines := headLines p ++ slotsLines "  " p.checks
    ++ ["Blocks (" ++ toString p.blocks.length ++ "):"] ++ blocks
  "\n".intercalate lines ++ "\n"

end PlanArchive.CommandLine
