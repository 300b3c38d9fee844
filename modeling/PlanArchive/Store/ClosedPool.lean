import PlanArchive.Store.Basic

/-!
# A database that is not reached

The store of a database whose pool of connections is closed. Every call fails, each for the same
reason; only a patch that is wrong in itself is reported as that.
-/

namespace PlanArchive

/-- A database behind a closed pool. -/
inductive ClosedPool where
  | pool
deriving DecidableEq

namespace ClosedPool

/-- The error of every call. -/
def failure : StoreError := .database "attempted to acquire a connection on a closed pool"

instance : DocumentStore ClosedPool where
  read _ _ := .error failure
  query _ _ _ _ := .error failure
  create s _ _ := (.error failure, s)
  replace s _ _ _ := (.error failure, s)
  patch s _ patches _ :=
    match Patch.collect patches with
    | .error e => (.error e, s)
    | .ok _ => (.error failure, s)
  delete s _ _ := (.error failure, s)

end ClosedPool

end PlanArchive
