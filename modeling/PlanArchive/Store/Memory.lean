import PlanArchive.Store.Contents

/-!
# The store in memory

A store that holds its documents as a value. It can be told to let a number of writes through and
to refuse every later one, so that an operation of many writes can be cut short at any of them: a
write counts before it is looked at, and also when it then fails. Tokens are minted from a counter
and never repeat.
-/

namespace PlanArchive

/-- A store in memory. -/
structure MemoryStore where
  contents : Contents
  /-- How many writes are still let through; `none` lets all of them through. -/
  writesLeft : Option Nat
  /-- How many tokens were minted so far. -/
  minted : Nat

namespace MemoryStore

/-- The store without documents. -/
def empty : MemoryStore := ⟨.empty, none, 0⟩

instance : Inhabited MemoryStore := ⟨empty⟩

/-- The store that lets `count` more writes through. -/
def failAfter (s : MemoryStore) (count : Nat) : MemoryStore := { s with writesLeft := some count }

/-- The store that lets every write through. -/
def clearFaults (s : MemoryStore) : MemoryStore := { s with writesLeft := none }

/-- The error of a write that is not let through. -/
def injectedFailure : StoreError := .unavailable "injected write failure"

/-- Counts a write; `none` when it is not let through. -/
def admit? (s : MemoryStore) : Option MemoryStore :=
  match s.writesLeft with
  | none => some s
  | some 0 => none
  | some (left + 1) => some { s with writesLeft := some left }

/-- Does a write if it is let through. -/
def admitting {α : Type} (s : MemoryStore) (write : MemoryStore → Written MemoryStore α) :
    Written MemoryStore α :=
  match s.admit? with
  | none => (.error injectedFailure, s)
  | some s => write s

/-- Stores a document at a place under a new token. -/
def commit (s : MemoryStore) (key : DocumentKey) (doc : Json) :
    Written MemoryStore VersionToken :=
  let token := VersionToken.minted s.minted
  (.ok token,
    { s with contents := s.contents.put key ⟨doc, token⟩, minted := s.minted + 1 })

/-- The document at a place if it has the demanded token, when one is demanded. -/
def current (s : MemoryStore) (key : DocumentKey) (demanded : Option VersionToken) :
    Except StoreError Item :=
  match s.contents.find? key with
  | none => .error (.notFound key.collection key.id)
  | some item =>
    match demanded with
    | none => .ok item
    | some token =>
      if token = item.token then .ok item
      else .error (.preconditionFailed key.collection key.id)

/-- The document at a place. -/
def read (s : MemoryStore) (key : DocumentKey) : Except StoreError Item := s.current key none

/-- The documents that a query selects. -/
def query (s : MemoryStore) (part : String) (collection : Collection) (q : Query) : List Item :=
  q.run Item.doc (s.contents.itemsIn part collection)

/-- How many documents a collection has in one partition. -/
def count (s : MemoryStore) (part : String) (collection : Collection) : Nat :=
  (s.contents.itemsIn part collection).length

/-- Stores a document at a free place. -/
def create (s : MemoryStore) (key : DocumentKey) (doc : Json) :
    Written MemoryStore VersionToken :=
  s.admitting fun s =>
    match s.contents.find? key with
    | some _ => (.error (.conflict key.collection key.id), s)
    | none => s.commit key doc

/-- Stores a document in place of another. -/
def replace (s : MemoryStore) (key : DocumentKey) (doc : Json)
    (demanded : Option VersionToken) : Written MemoryStore VersionToken :=
  s.admitting fun s =>
    match s.current key demanded with
    | .error e => (.error e, s)
    | .ok _ => s.commit key doc

/-- Sets top-level fields of a document. The patches are looked at before the write counts. -/
def patch (s : MemoryStore) (key : DocumentKey) (patches : List Patch)
    (demanded : Option VersionToken) : Written MemoryStore VersionToken :=
  match Patch.collect patches with
  | .error e => (.error e, s)
  | .ok fields =>
    s.admitting fun s =>
      match s.current key demanded with
      | .error e => (.error e, s)
      | .ok item =>
        match item.doc with
        | .obj doc => s.commit key (.obj (Patch.apply fields doc))
        | _ =>
          let text := StoreError.documentText key.collection key.id ++ " is not an object"
          (.error (.invalidPatch text), s)

/-- Removes a document. -/
def delete (s : MemoryStore) (key : DocumentKey) (demanded : Option VersionToken) :
    Written MemoryStore Unit :=
  s.admitting fun s =>
    match s.current key demanded with
    | .error e => (.error e, s)
    | .ok _ => (.ok (), { s with contents := s.contents.erase key })

instance : DocumentStore MemoryStore where
  read := read
  query s part collection q := .ok (s.query part collection q)
  create := create
  replace := replace
  patch := patch
  delete := delete

end MemoryStore

end PlanArchive
