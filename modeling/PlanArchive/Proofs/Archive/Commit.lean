import PlanArchive.Proofs.Archive.Documents
import PlanArchive.Proofs.Store.Memory

/-!
# Writing the documents of a plan

`Writes` says what writing documents one after the other does to the contents of a store: each
document goes to a place that is free or that holds a child of the same plan. `exists_committed`
connects it to the program: whatever writes are let through, those that were made are a prefix of
the documents, each under the next token of the store, and either all of them or those before the
one that the error names. Documents with different identifiers do not disturb each other
(`Writes.find?_of_mem`).
-/

namespace PlanArchive

/-- A document with the token under which it was written. -/
abbrev WrittenDocument := PendingDocument × VersionToken

namespace ArchiveError

/-- The entity that an error names. -/
def entity? : ArchiveError → Option EntityRef
  | .validation _ => none
  | .notFound kind id => some (kind, id)
  | .alreadyExists kind id => some (kind, id)
  | .conflict _ kind id => some (kind, id)
  | .decode _ kind id _ => some (kind, id)
  | .transport _ kind id _ => some (kind, id)
  | .query .. => none

/-- What a store error means names the entity that the call was for. -/
theorem entity?_ofStore (operation : Operation) (kind : EntityKind) (id : Uuid) (e : StoreError) :
    (ofStore operation kind id e).entity? = some (kind, id) := by
  cases e <;> rfl

theorem isConflict_of_ofStore {operation : Operation} {kind other : EntityKind} {id x : Uuid}
    {e : StoreError} (exists_ : ofStore operation kind id e = .alreadyExists other x) :
    e.isConflict = true := by
  cases e <;> first | rfl | cases exists_

end ArchiveError

namespace Archive

variable {a : Archive} {planId : Uuid} {c d : Contents}

/-- Where a document goes. -/
abbrev place (a : Archive) (p : PendingDocument) : DocumentKey := a.key p.kind p.id

/-- The place of a document is free, or holds a child of the plan that is being created. -/
def Open (a : Archive) (planId : Uuid) (c : Contents) (p : PendingDocument) : Prop :=
  c.find? (a.place p) = none ∨ p.kind ≠ .plan ∧
    ∃ item, c.find? (a.place p) = some item ∧ owner? item.doc = some planId

/-- Writing documents in order, each to an open place, takes some contents to others. -/
inductive Writes (a : Archive) (planId : Uuid) :
    Contents → List WrittenDocument → Contents → Prop
  | nil (c : Contents) : Writes a planId c [] c
  | cons {c d : Contents} {p : PendingDocument} {token : VersionToken}
      {rest : List WrittenDocument} (isOpen : a.Open planId c p)
      (later : Writes a planId (c.put (a.place p) ⟨p.doc, token⟩) rest d) :
      Writes a planId c ((p, token) :: rest) d

/-! ## One document -/

/-- A document was not written for this reason. -/
structure Refused (a : Archive) (planId : Uuid) (p : PendingDocument) (c : Contents)
    (faultless : Prop) (e : ArchiveError) : Prop where
  /-- The error names the entity of the document. -/
  names : e.entity? = some p.entity
  /-- That the entity exists is only said when its place is taken. -/
  taken : e = .alreadyExists p.kind p.id → c.find? (a.place p) ≠ none
  /-- Without faults the place is not open. -/
  closed : faultless → ¬ a.Open planId c p

/-- Taking over a child fails with nothing changed or replaces a child of the same plan. -/
theorem takeOver_cases {a : Archive} {p : PendingDocument} {s : MemoryStore} {item : Item}
    (planId : Uuid) (stored : s.contents.find? (a.place p) = some item) :
    (∃ e t, a.takeOver planId p s = (.error e, t) ∧ s.Unchanged t ∧
      a.Refused planId p s.contents s.Faultless e) ∨
    ∃ token t, a.takeOver planId p s = (.ok token, t) ∧ owner? item.doc = some planId ∧
      s.Puts (a.place p) p.doc token t := by
  have reading : DocumentStore.read s (a.place p) = .ok item := MemoryStore.read_eq_ok.mpr stored
  have taken : s.contents.find? (a.place p) ≠ none := by simp [stored]
  by_cases owned : owner? item.doc = some planId
  · have replacing : DocumentStore.replace s (a.place p) p.doc (some item.token) =
        s.replace (a.place p) p.doc (some item.token) := rfl
    rcases s.replace_cases (a.place p) p.doc (some item.token) with
      ⟨e, t, replaced, unchanged, why⟩ | ⟨token, t, replaced, puts⟩
    · rw [replaced] at replacing
      refine .inl ⟨_, t, by simp only [takeOver, reading, if_pos owned, replacing], unchanged,
        ArchiveError.entity?_ofStore .create p.kind p.id e, fun _ => taken, ?_⟩
      -- The revision that is replaced is the one that was just read.
      intro faultless
      have current : s.current (a.place p) (some item.token) = .ok item := by
        simp [MemoryStore.current, stored]
      cases current.symm.trans (why faultless)
    · rw [replaced] at replacing
      exact .inr ⟨token, t, by simp only [takeOver, reading, if_pos owned, replacing], owned, puts⟩
  · refine .inl ⟨_, s, by simp only [takeOver, reading, if_neg owned]; rfl, .refl s, rfl,
      fun _ => taken, ?_⟩
    rintro _ (free | ⟨_, other, isStored, owner⟩)
    · exact taken free
    · rw [Option.some.inj (stored.symm.trans isStored)] at owned
      exact owned owner

/-- Writing a document fails with nothing changed or puts it at an open place. -/
theorem writeDocument_cases (a : Archive) (planId : Uuid) (p : PendingDocument)
    (s : MemoryStore) :
    (∃ e t, a.writeDocument planId p s = (.error e, t) ∧ s.Unchanged t ∧
      a.Refused planId p s.contents s.Faultless e) ∨
    ∃ token t, a.writeDocument planId p s = (.ok token, t) ∧ a.Open planId s.contents p ∧
      s.Puts (a.place p) p.doc token t := by
  have creating : DocumentStore.create s (a.place p) p.doc = s.create (a.place p) p.doc := rfl
  rcases s.create_cases (a.place p) p.doc with
    ⟨e, t, created, unchanged, isTaken, why⟩ | ⟨token, t, created, puts, free⟩
  · rw [created] at creating
    by_cases takesOver : (e.isConflict && p.kind != .plan) = true
    · have takes : a.writeDocument planId p s = a.takeOver planId p t := by
        simp only [writeDocument, creating, if_pos takesOver]
      have ⟨isConflict, isChildKind⟩ := Bool.and_eq_true_iff.mp takesOver
      have isChild : p.kind ≠ .plan := by simpa using isChildKind
      obtain ⟨item, stored⟩ := Option.ne_none_iff_exists'.mp (isTaken isConflict)
      have still : t.contents.find? (a.place p) = some item := by rwa [unchanged.contents]
      rw [takes]
      rcases takeOver_cases planId still with
        ⟨e, u, failed, untouched, refused⟩ | ⟨token, u, taken, owned, puts⟩
      · rw [unchanged.contents] at refused
        exact .inl ⟨e, u, failed, unchanged.trans untouched, refused.names, refused.taken,
          fun faultless => refused.closed (unchanged.faultless faultless)⟩
      · exact .inr ⟨token, u, taken, .inr ⟨isChild, item, stored, owned⟩, unchanged.puts puts⟩
    · refine .inl ⟨_, t, by simp only [writeDocument, creating, if_neg takesOver], unchanged,
        ArchiveError.entity?_ofStore .create p.kind p.id e, ?_, ?_⟩
      · intro exists_
        exact isTaken (ArchiveError.isConflict_of_ofStore exists_)
      · rintro faultless (free | ⟨isChild, _⟩)
        · exact isTaken (why faultless) free
        · simp [why faultless, isChild] at takesOver
  · rw [created] at creating
    exact .inr ⟨token, t, by simp only [writeDocument, creating], .inl free, puts⟩

/-! ## All documents -/

/-- What a commit that began with a store came to: the documents that were written, each under the
next token. -/
structure Committed (a : Archive) (planId : Uuid) (docs : List PendingDocument) (s : MemoryStore)
    (made : Commit MemoryStore) (written : List WrittenDocument) : Prop where
  writes : a.Writes planId s.contents written made.store.contents
  tokens : made.tokens = written.map fun w => (w.1.id, w.2)
  /-- The tokens are those that the store mints next, in order. -/
  minted : written.map Prod.snd = (List.range' s.minted written.length).map .minted
  /-- All documents were written, or those before the one that the error names. -/
  ended : made.failure = none ∧ written.map Prod.fst = docs ∨
    ∃ e p rest, made.failure = some e ∧ docs = written.map Prod.fst ++ p :: rest ∧
      a.Refused planId p made.store.contents s.Faultless e

theorem exists_committed (a : Archive) (planId : Uuid) (docs : List PendingDocument)
    (s : MemoryStore) : ∃ written, a.Committed planId docs s (a.commit planId docs s) written := by
  induction docs generalizing s with
  | nil => exact ⟨[], .nil _, rfl, rfl, .inl ⟨rfl, rfl⟩⟩
  | cons p rest inductionHypothesis =>
    rcases a.writeDocument_cases planId p s with
      ⟨e, t, failed, unchanged, refused⟩ | ⟨token, t, made, isOpen, puts⟩
    · have commits : a.commit planId (p :: rest) s = ⟨some e, [], t⟩ := by
        simp only [commit, failed]
      have nothing : a.Writes planId s.contents [] t.contents := by
        rw [unchanged.contents]
        exact .nil _
      rw [← unchanged.contents] at refused
      rw [commits]
      exact ⟨[], nothing, rfl, rfl, .inr ⟨e, p, rest, rfl, rfl, refused⟩⟩
    · obtain ⟨written, writes, tokens, minted, ended⟩ := inductionHypothesis t
      have commits : a.commit planId (p :: rest) s =
          { a.commit planId rest t with
            tokens := (p.id, token) :: (a.commit planId rest t).tokens } := by
        simp only [commit, made]
      rw [commits]
      refine ⟨(p, token) :: written, ?_, ?_, ?_, ?_⟩
      · rw [puts.contents] at writes
        exact .cons isOpen writes
      · simp only [tokens, List.map_cons]
      · rw [puts.minted] at minted
        rw [List.map_cons, List.length_cons, List.range'_succ, List.map_cons, minted, puts.isNext]
      · rcases ended with ⟨succeeded, all⟩ | ⟨e, q, later, failed, split, refused⟩
        · exact .inl ⟨succeeded, by rw [List.map_cons, all]⟩
        · exact .inr ⟨e, q, later, failed, by rw [split]; rfl, refused.names, refused.taken,
            fun faultless => refused.closed (puts.faultless faultless)⟩

theorem Committed.isPrefix {docs : List PendingDocument} {s : MemoryStore}
    {made : Commit MemoryStore} {written : List WrittenDocument}
    (committed : a.Committed planId docs s made written) : written.map Prod.fst <+: docs := by
  rcases committed.ended with ⟨_, all⟩ | ⟨_, p, rest, _, split, _⟩
  · exact all ▸ List.prefix_rfl
  · exact ⟨p :: rest, split.symm⟩

theorem Committed.all {docs : List PendingDocument} {s : MemoryStore}
    {made : Commit MemoryStore} {written : List WrittenDocument}
    (committed : a.Committed planId docs s made written) (succeeded : made.failure = none) :
    written.map Prod.fst = docs := by
  rcases committed.ended with ⟨_, all⟩ | ⟨_, _, _, failed, _⟩
  · exact all
  · cases succeeded.symm.trans failed

/-- A commit writes a prefix of the documents, all of them when it succeeds, and reports their
tokens. -/
theorem commit_writes (a : Archive) (planId : Uuid) (docs : List PendingDocument)
    (s : MemoryStore) :
    ∃ written, a.Writes planId s.contents written (a.commit planId docs s).store.contents ∧
      (a.commit planId docs s).tokens = written.map (fun w => (w.1.id, w.2)) ∧
      written.map Prod.fst <+: docs ∧
      ((a.commit planId docs s).failure = none → written.map Prod.fst = docs) := by
  obtain ⟨written, committed⟩ := a.exists_committed planId docs s
  exact ⟨written, committed.writes, committed.tokens, committed.isPrefix, committed.all⟩

/-! ## What was written stays -/

/-- Places that no document goes to keep what they hold. -/
theorem Writes.find?_of_ne {written : List WrittenDocument} {key : DocumentKey}
    (writes : a.Writes planId c written d) (untouched : ∀ w ∈ written, key ≠ a.place w.1) :
    d.find? key = c.find? key := by
  induction writes with
  | nil => rfl
  | cons isOpen later inductionHypothesis =>
    have ⟨notFirst, notLater⟩ := List.forall_mem_cons.mp untouched
    rw [inductionHypothesis notLater, Contents.find?_put, if_neg notFirst]

/-- Each document written is there in the end when no two have the same identifier. -/
theorem Writes.find?_of_mem {written : List WrittenDocument} {w : WrittenDocument}
    (writes : a.Writes planId c written d) (distinct : (written.map fun w => w.1.id).Nodup)
    (member : w ∈ written) : d.find? (a.place w.1) = some ⟨w.1.doc, w.2⟩ := by
  induction writes with
  | nil => cases member
  | @cons c d p token rest isOpen later inductionHypothesis =>
    have ⟨isNew, restDistinct⟩ := List.nodup_cons.mp distinct
    rcases List.mem_cons.mp member with rfl | inRest
    · have untouched : ∀ w ∈ rest, a.place p ≠ a.place w.1 := by
        intro w isLater same
        exact isNew (List.mem_map.mpr ⟨w, isLater, (congrArg DocumentKey.id same).symm⟩)
      rw [later.find?_of_ne untouched, Contents.find?_put, if_pos rfl]
    · exact inductionHypothesis restDistinct inRest

end Archive

end PlanArchive
