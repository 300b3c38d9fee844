/-!
# Version tokens

A token stands for one stored revision of a document. A store mints a new one with every write; a
caller may also hold a token that no store has minted, and such a token matches no revision.
-/

namespace PlanArchive

/-- A version token. -/
inductive VersionToken where
  /-- The token a store minted as its `serial`-th. -/
  | minted (serial : Nat)
  /-- A token with a text of the caller's own. -/
  | custom (text : String)
deriving DecidableEq, Repr

end PlanArchive
