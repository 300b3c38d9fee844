import PlanArchive.Archive.Basic

/-!
# Changes of a store

An operation that goes through many store calls and ends at the first that fails. What the calls
before it did stays done: a change hands back the store whether it succeeds or not.
-/

namespace PlanArchive

/-- A change of a store that ends in a value or an error. -/
def Change (σ α : Type) := σ → Except ArchiveError α × σ

namespace Change

/-- Makes a change of a store. -/
def run {σ α : Type} (change : Change σ α) (s : σ) : Except ArchiveError α × σ := change s

/-- Changes nothing. -/
def done {σ α : Type} (value : α) : Change σ α := fun s => (.ok value, s)

/-- Goes on after a change unless it failed. -/
def andThen {σ α β : Type} (first : Change σ α) (next : α → Change σ β) : Change σ β := fun s =>
  match first s with
  | (.ok v, s) => next v s
  | (.error e, s) => (.error e, s)

instance {σ : Type} : Monad (Change σ) where
  pure := done
  bind := andThen

/-- Looks at a store without changing it. -/
def looking {σ α : Type} (look : σ → Except ArchiveError α) : Change σ α := fun s => (look s, s)

/-- Makes a change for each item of a list. -/
def each {σ ι : Type} (change : ι → Change σ Unit) : List ι → Change σ Unit
  | [] => done ()
  | item :: rest => do
    change item
    each change rest

/-- Collects what a change yields for each item of a list, leaving out those without a value. -/
def collect {σ ι α : Type} (change : ι → Change σ (Option α)) : List ι → Change σ (List α)
  | [] => done []
  | item :: rest => do
    let found ← change item
    let others ← collect change rest
    return found.toList ++ others

end Change

end PlanArchive
