import PlanArchive.Proofs.Store.Memory

/-!
# Stores with a journal

A journaled store notes every write that succeeds: its place, and the token of the revision that it
left there. The journal says since when a token is stale, without looking at what is stored: a token
that a write issued for a place is hit by every later write to that place. On a store in memory
without faults that is the same as not being the token of the stored revision
(`Recorded.current_iff_not_hitSince`), because tokens never repeat.
-/

namespace PlanArchive

/-- A write that a store made. -/
structure JournalEntry where
  key : DocumentKey
  /-- The token of the revision that was written; none when the document was removed. -/
  token : Option VersionToken

/-- A store with the writes that it made, the latest first. -/
structure Journaled (σ : Type) where
  store : σ
  journal : List JournalEntry

namespace Journaled

/-- Notes what a write to a place came to. -/
def noting {σ α : Type} (j : Journaled σ) (key : DocumentKey) (token : α → Option VersionToken) :
    Written σ α → Written (Journaled σ) α
  | (.ok v, s) => (.ok v, ⟨s, ⟨key, token v⟩ :: j.journal⟩)
  | (.error e, s) => (.error e, ⟨s, j.journal⟩)

instance {σ : Type} [DocumentStore σ] : DocumentStore (Journaled σ) where
  read j := DocumentStore.read j.store
  query j := DocumentStore.query j.store
  create j key doc := j.noting key some (DocumentStore.create j.store key doc)
  replace j key doc demanded := j.noting key some (DocumentStore.replace j.store key doc demanded)
  patch j key patches demanded :=
    j.noting key some (DocumentStore.patch j.store key patches demanded)
  delete j key demanded := j.noting key (fun _ => none) (DocumentStore.delete j.store key demanded)

/-! ## Tokens of the past -/

/-- A write issued the token for a place. -/
def Issued (journal : List JournalEntry) (key : DocumentKey) (token : VersionToken) : Prop :=
  ⟨key, some token⟩ ∈ journal

/-- The place was written or cleared after the token had been issued for it. -/
def HitSince (journal : List JournalEntry) (key : DocumentKey) (token : VersionToken) : Prop :=
  ∃ later earlier, journal = later ++ ⟨key, some token⟩ :: earlier ∧ ∃ e ∈ later, e.key = key

/-- The last write to a place. -/
def lastAt? (journal : List JournalEntry) (key : DocumentKey) : Option JournalEntry :=
  journal.find? fun e => decide (e.key = key)

theorem lastAt?_cons (e : JournalEntry) (journal : List JournalEntry) (key : DocumentKey) :
    lastAt? (e :: journal) key = if e.key = key then some e else lastAt? journal key := by
  by_cases same : e.key = key <;> simp [lastAt?, same]

theorem HitSince.mono {journal more : List JournalEntry} {key : DocumentKey} {token : VersionToken}
    (hit : HitSince journal key token) (grows : journal <:+ more) : HitSince more key token := by
  obtain ⟨later, earlier, rfl, e, isLater, same⟩ := hit
  obtain ⟨new, rfl⟩ := grows
  exact ⟨new ++ later, earlier, (List.append_assoc ..).symm, e, List.mem_append_right _ isLater,
    same⟩

/-- The journal tells what is stored under which token. -/
structure Recorded (j : Journaled MemoryStore) : Prop where
  faultless : j.store.Faultless
  /-- No token was issued twice. -/
  distinct : (j.journal.filterMap JournalEntry.token).Nodup
  /-- Every token that was issued is one that the store has minted. -/
  minted : ∀ token ∈ j.journal.filterMap JournalEntry.token,
    ∃ serial < j.store.minted, token = .minted serial
  /-- At every place there is what the last write left there. -/
  current : ∀ key,
    (j.store.contents.find? key).map Item.token = (lastAt? j.journal key).bind JournalEntry.token

/-- The token of what is stored was issued for its place. -/
theorem Recorded.issued_of_stored {j : Journaled MemoryStore} {key : DocumentKey} {item : Item}
    (recorded : j.Recorded) (stored : j.store.contents.find? key = some item) :
    Issued j.journal key item.token := by
  have current := recorded.current key
  rw [stored, Option.map_some] at current
  obtain ⟨last, found, isToken⟩ := Option.bind_eq_some_iff.mp current.symm
  rw [lastAt?] at found
  have atKey : last.key = key := by simpa using List.find?_some found
  rw [Issued, ← atKey, ← isToken]
  exact List.mem_of_find?_eq_some found

/-- A token that was issued for a place is that of the stored revision exactly when no later write
hit the place. -/
theorem Recorded.current_iff_not_hitSince {j : Journaled MemoryStore} {key : DocumentKey}
    {token : VersionToken} (recorded : j.Recorded) (issued : Issued j.journal key token) :
    (j.store.contents.find? key).map Item.token = some token ↔ ¬ HitSince j.journal key token := by
  rw [recorded.current key]
  constructor
  · rintro isLast ⟨later, earlier, split, e, isLater, atKey⟩
    have distinct := recorded.distinct
    rw [split] at isLast distinct
    rw [List.filterMap_append, List.filterMap_cons_some (f := JournalEntry.token) rfl] at distinct
    obtain ⟨last, found⟩ : ∃ last, lastAt? later key = some last :=
      Option.isSome_iff_exists.mp (List.find?_isSome.mpr ⟨e, isLater, decide_eq_true atKey⟩)
    have isToken : last.token = some token := by
      simpa [lastAt?, List.find?_append, show later.find? _ = some last from found] using isLast
    exact (List.nodup_append.mp distinct).2.2 token
      (List.mem_filterMap.mpr ⟨last, List.mem_of_find?_eq_some found, isToken⟩) token
      List.mem_cons_self rfl
  · intro notHit
    obtain ⟨later, earlier, split⟩ := List.append_of_mem issued
    have untouched : lastAt? later key = none := by
      apply List.find?_eq_none.mpr
      intro e isLater
      simpa using fun atKey => notHit ⟨later, earlier, split, e, isLater, atKey⟩
    rw [split, lastAt?, List.find?_append, show later.find? _ = none from untouched]
    simp

end Journaled

/-! ## Writes without faults -/

namespace MemoryStore

variable {s : MemoryStore}

/-- A write fails with nothing changed at all, or it puts a document at its place. -/
def FailsOrCommits (s : MemoryStore) (key : DocumentKey) (made : Written MemoryStore VersionToken) :
    Prop :=
  (∃ e, made = (.error e, s)) ∨ ∃ doc, made = s.commit key doc

theorem create_failsOrCommits (faultless : s.Faultless) (key : DocumentKey) (doc : Json) :
    s.FailsOrCommits key (s.create key doc) := by
  rw [create, admitting_of_faultless faultless]
  cases s.contents.find? key with
  | none => exact .inr ⟨doc, rfl⟩
  | some item => exact .inl ⟨_, rfl⟩

theorem replace_failsOrCommits (faultless : s.Faultless) (key : DocumentKey) (doc : Json)
    (demanded : Option VersionToken) : s.FailsOrCommits key (s.replace key doc demanded) := by
  rw [replace, admitting_of_faultless faultless]
  cases s.current key demanded with
  | error e => exact .inl ⟨e, rfl⟩
  | ok item => exact .inr ⟨doc, rfl⟩

theorem patch_failsOrCommits (faultless : s.Faultless) (key : DocumentKey) (patches : List Patch)
    (demanded : Option VersionToken) : s.FailsOrCommits key (s.patch key patches demanded) := by
  rw [patch]
  cases Patch.collect patches with
  | error e => exact .inl ⟨e, rfl⟩
  | ok fields =>
    simp only [admitting_of_faultless faultless]
    cases s.current key demanded with
    | error e => exact .inl ⟨e, rfl⟩
    | ok item =>
      obtain ⟨doc, old⟩ := item
      cases doc with
      | obj members => exact .inr ⟨_, rfl⟩
      | _ => exact .inl ⟨_, rfl⟩

theorem delete_failsOrErases (faultless : s.Faultless) (key : DocumentKey)
    (demanded : Option VersionToken) :
    (∃ e, s.delete key demanded = (.error e, s)) ∨
      s.delete key demanded = (.ok (), { s with contents := s.contents.erase key }) := by
  rw [delete, admitting_of_faultless faultless]
  cases s.current key demanded with
  | error e => exact .inl ⟨e, rfl⟩
  | ok item => exact .inr rfl

end MemoryStore

/-! ## The journal stays right -/

namespace Journaled

variable {j : Journaled MemoryStore} {key : DocumentKey}

theorem recorded_empty : Recorded ⟨.empty, []⟩ where
  faultless := rfl
  distinct := .nil
  minted := by simp
  current := fun _ => rfl

/-- Writing a document under the next token is recorded. -/
theorem Recorded.commit (recorded : j.Recorded) (key : DocumentKey) (doc : Json) :
    (j.noting key some (j.store.commit key doc)).2.Recorded where
  faultless := recorded.faultless
  distinct := by
    have isNew : VersionToken.minted j.store.minted ∉ j.journal.filterMap JournalEntry.token := by
      intro isOld
      obtain ⟨serial, below, same⟩ := recorded.minted _ isOld
      exact Nat.lt_irrefl _ (VersionToken.minted.inj same ▸ below)
    exact List.nodup_cons.mpr ⟨isNew, recorded.distinct⟩
  minted := by
    intro token isIssued
    rcases List.mem_cons.mp isIssued with rfl | isOld
    · exact ⟨j.store.minted, Nat.lt_succ_self _, rfl⟩
    · obtain ⟨serial, below, same⟩ := recorded.minted token isOld
      exact ⟨serial, Nat.lt_succ_of_lt below, same⟩
  current := by
    intro other
    simp only [noting, MemoryStore.commit, Contents.find?_put, lastAt?_cons]
    by_cases same : key = other
    · simp [same]
    · simpa [same, Ne.symm same] using recorded.current other

theorem Recorded.failsOrCommits {made : Written MemoryStore VersionToken} (recorded : j.Recorded)
    (outcome : j.store.FailsOrCommits key made) : (j.noting key some made).2.Recorded := by
  rcases outcome with ⟨e, rfl⟩ | ⟨doc, rfl⟩
  · exact recorded
  · exact recorded.commit key doc

theorem Recorded.create (recorded : j.Recorded) (key : DocumentKey) (doc : Json) :
    (DocumentStore.create j key doc).2.Recorded :=
  recorded.failsOrCommits (MemoryStore.create_failsOrCommits recorded.faultless key doc)

theorem Recorded.replace (recorded : j.Recorded) (key : DocumentKey) (doc : Json)
    (demanded : Option VersionToken) : (DocumentStore.replace j key doc demanded).2.Recorded :=
  recorded.failsOrCommits (MemoryStore.replace_failsOrCommits recorded.faultless key doc demanded)

theorem Recorded.patch (recorded : j.Recorded) (key : DocumentKey) (patches : List Patch)
    (demanded : Option VersionToken) : (DocumentStore.patch j key patches demanded).2.Recorded :=
  recorded.failsOrCommits (MemoryStore.patch_failsOrCommits recorded.faultless key patches demanded)

theorem Recorded.delete (recorded : j.Recorded) (key : DocumentKey)
    (demanded : Option VersionToken) : (DocumentStore.delete j key demanded).2.Recorded := by
  have deleting : DocumentStore.delete j key demanded =
      j.noting key (fun _ => none) (j.store.delete key demanded) := rfl
  rw [deleting]
  rcases MemoryStore.delete_failsOrErases recorded.faultless key demanded with ⟨e, failed⟩ | erased
  · rw [failed]
    exact recorded
  · rw [erased]
    refine ⟨recorded.faultless, recorded.distinct, recorded.minted, ?_⟩
    intro other
    simp only [noting, Contents.find?_erase, lastAt?_cons]
    by_cases same : key = other
    · simp [same]
    · simpa [same, Ne.symm same] using recorded.current other

end Journaled

end PlanArchive
