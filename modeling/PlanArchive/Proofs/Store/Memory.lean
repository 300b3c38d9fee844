import PlanArchive.Store.Memory

/-!
# What the calls of the store in memory do

Each write either fails and leaves the contents alone, or changes the document at its one place.
A write that is let through fails only for what is or is not at that place. These statements are
about the contents; how many writes are still let through matters only where no fault is set up,
and then it stays so. `Touches` is what they come to for the rest of the store.
-/

namespace PlanArchive

/-- Looking up finds what is in a list of pairs whose first parts are different. -/
theorem List.lookup_eq_some_of_nodup {α β : Type} [DecidableEq α] {entries : List (α × β)}
    (distinct : (entries.map Prod.fst).Nodup) {key : α} {value : β} :
    entries.lookup key = some value ↔ (key, value) ∈ entries := by
  induction entries with
  | nil => simp
  | cons head rest inductionHypothesis =>
    have ⟨notInRest, restDistinct⟩ := List.nodup_cons.mp distinct
    obtain ⟨first, stored⟩ := head
    by_cases atHead : key = first
    · have absent : (key, value) ∉ rest := by
        intro inRest
        exact notInRest (List.mem_map.mpr ⟨_, inRest, atHead⟩)
      simp [atHead, eq_comm, atHead ▸ absent]
    · have notHead : (key == first) = false := by simpa using atHead
      simp [List.lookup_cons, notHead, inductionHypothesis restDistinct, atHead]

namespace Contents

/-- The documents of a collection are those at its places. -/
theorem mem_itemsIn {c : Contents} {part : String} {collection : Collection} {item : Item} :
    item ∈ c.itemsIn part collection ↔ ∃ id, c.find? ⟨part, collection, id⟩ = some item := by
  have places : ∀ key, c.find? key = some item ↔ (key, item) ∈ c.entries :=
    fun _ => List.lookup_eq_some_of_nodup c.distinct
  simp only [itemsIn, List.mem_map, List.mem_filter, Bool.and_eq_true, beq_iff_eq]
  constructor
  · rintro ⟨⟨⟨_, _, id⟩, _⟩, ⟨stored, rfl, rfl⟩, rfl⟩
    exact ⟨id, (places _).mpr stored⟩
  · rintro ⟨id, found⟩
    exact ⟨(⟨part, collection, id⟩, item), ⟨(places _).mp found, rfl, rfl⟩, rfl⟩

end Contents

namespace MemoryStore

variable {s t : MemoryStore} {key : DocumentKey} {demanded : Option VersionToken}

/-- No fault is set up. -/
def Faultless (s : MemoryStore) : Prop := s.writesLeft = none

/-- A call that left the documents alone and minted no token. -/
structure Unchanged (s t : MemoryStore) : Prop where
  contents : t.contents = s.contents
  minted : t.minted = s.minted
  faultless : s.Faultless → t.Faultless

theorem Unchanged.refl (s : MemoryStore) : s.Unchanged s := ⟨rfl, rfl, id⟩

theorem Unchanged.trans {r s t : MemoryStore} (first : r.Unchanged s) (second : s.Unchanged t) :
    r.Unchanged t where
  contents := second.contents.trans first.contents
  minted := second.minted.trans first.minted
  faultless := fun faultless => second.faultless (first.faultless faultless)

/-- A call that put a document at a place under the next token. -/
structure Puts (s : MemoryStore) (key : DocumentKey) (doc : Json) (token : VersionToken)
    (t : MemoryStore) : Prop where
  isNext : token = .minted s.minted
  contents : t.contents = s.contents.put key ⟨doc, token⟩
  minted : t.minted = s.minted + 1
  faultless : s.Faultless → t.Faultless

theorem puts_commit (s : MemoryStore) (key : DocumentKey) (doc : Json) :
    ∃ token t, s.commit key doc = (.ok token, t) ∧ s.Puts key doc token t :=
  ⟨_, _, rfl, rfl, rfl, rfl, id⟩

theorem Unchanged.puts {r : MemoryStore} {doc : Json} {token : VersionToken}
    (same : r.Unchanged s) (puts : s.Puts key doc token t) : r.Puts key doc token t where
  isNext := puts.isNext.trans (congrArg _ same.minted)
  contents := puts.contents.trans (congrArg (Contents.put · _ _) same.contents)
  minted := puts.minted.trans (congrArg (· + 1) same.minted)
  faultless := fun faultless => puts.faultless (same.faultless faultless)

theorem unchanged_of_admit? (admitted : s.admit? = some t) : s.Unchanged t := by
  unfold admit? at admitted
  split at admitted
  · cases admitted
    exact .refl s
  · cases admitted
  · rename_i limited
    cases admitted
    refine ⟨rfl, rfl, fun faultless => ?_⟩
    rw [Faultless, limited] at faultless
    cases faultless

theorem admit?_of_faultless (faultless : s.Faultless) : s.admit? = some s := by
  rw [admit?, faultless]

/-- What a write that asks to be let through comes to: it is refused, which faults are needed for,
or it is made on the same documents. -/
theorem admitting_cases {α : Type} {write : MemoryStore → Written MemoryStore α}
    {made : Written MemoryStore α} (opened : s.admitting write = made) :
    ¬ s.Faultless ∧ made = (.error injectedFailure, s) ∨ ∃ t, s.Unchanged t ∧ made = write t := by
  rw [← opened]
  cases admitted : s.admit? with
  | none =>
    refine .inl ⟨fun faultless => ?_, by simp [admitting, admitted]⟩
    cases (admit?_of_faultless faultless).symm.trans admitted
  | some t => exact .inr ⟨t, unchanged_of_admit? admitted, by simp [admitting, admitted]⟩

theorem admitting_of_faultless {α : Type} (faultless : s.Faultless)
    (write : MemoryStore → Written MemoryStore α) : s.admitting write = write s := by
  simp [admitting, admit?_of_faultless faultless]

theorem current_eq_ok {item : Item} (found : s.current key demanded = .ok item) :
    s.contents.find? key = some item := by
  unfold current at found
  split at found
  · cases found
  · rename_i stored
    split at found
    · cases found
      exact stored
    · split at found
      · cases found
        exact stored
      · cases found

theorem missing_of_current {e : StoreError} (failed : s.current key demanded = .error e)
    (isNotFound : e.isNotFound = true) : s.contents.find? key = none := by
  unfold current at failed
  split at failed
  · assumption
  · split at failed
    · cases failed
    · split at failed
      · cases failed
      · cases failed
        cases isNotFound

theorem read_eq (s : MemoryStore) (key : DocumentKey) :
    s.read key = match s.contents.find? key with
      | none => .error (.notFound key.collection key.id)
      | some item => .ok item := by
  rfl

theorem read_eq_ok {item : Item} : s.read key = .ok item ↔ s.contents.find? key = some item := by
  rw [read_eq]
  cases s.contents.find? key with
  | none => simp
  | some item => simp

/-- Creating a document fails with nothing changed, with a conflict only when the place is taken and
without faults in no other way, or fills a free place. -/
theorem create_cases (s : MemoryStore) (key : DocumentKey) (doc : Json) :
    (∃ e t, s.create key doc = (.error e, t) ∧ s.Unchanged t ∧
      (e.isConflict = true → s.contents.find? key ≠ none) ∧
      (s.Faultless → e.isConflict = true)) ∨
    ∃ token t, s.create key doc = (.ok token, t) ∧ s.Puts key doc token t ∧
      s.contents.find? key = none := by
  unfold create
  generalize opened : s.admitting _ = made
  rcases admitting_cases opened with ⟨faulty, rfl⟩ | ⟨t, same, rfl⟩
  · refine .inl ⟨_, _, rfl, .refl s, ?_, fun faultless => absurd faultless faulty⟩
    simp [injectedFailure, StoreError.isConflict]
  · rw [same.contents]
    cases place : s.contents.find? key with
    | some item => exact .inl ⟨_, _, rfl, same, by simp, fun _ => rfl⟩
    | none =>
      obtain ⟨token, u, committed, puts⟩ := t.puts_commit key doc
      exact .inr ⟨token, u, committed, same.puts puts, rfl⟩

/-- Replacing a document fails with nothing changed, without faults only for what is or is not at
the place, or puts another in its place. -/
theorem replace_cases (s : MemoryStore) (key : DocumentKey) (doc : Json)
    (demanded : Option VersionToken) :
    (∃ e t, s.replace key doc demanded = (.error e, t) ∧ s.Unchanged t ∧
      (s.Faultless → s.current key demanded = .error e)) ∨
    ∃ token t, s.replace key doc demanded = (.ok token, t) ∧ s.Puts key doc token t := by
  unfold replace
  generalize opened : s.admitting _ = made
  rcases admitting_cases opened with ⟨faulty, rfl⟩ | ⟨t, same, rfl⟩
  · exact .inl ⟨_, _, rfl, .refl s, fun faultless => absurd faultless faulty⟩
  · have alike : t.current key demanded = s.current key demanded := by
      rw [current, current, same.contents]
    rw [alike]
    cases found : s.current key demanded with
    | error e => exact .inl ⟨_, _, rfl, same, fun _ => rfl⟩
    | ok item =>
      obtain ⟨token, u, committed, puts⟩ := t.puts_commit key doc
      exact .inr ⟨token, u, committed, same.puts puts⟩

/-- Patching a document fails on unchanged contents or sets fields of the object at its place. -/
theorem patch_cases (s : MemoryStore) (key : DocumentKey) (patches : List Patch)
    (demanded : Option VersionToken) :
    (∃ e t, s.patch key patches demanded = (.error e, t) ∧ t.contents = s.contents) ∨
    ∃ fields doc old token t, Patch.collect patches = .ok fields ∧
      s.contents.find? key = some ⟨.obj doc, old⟩ ∧
      s.patch key patches demanded = (.ok token, t) ∧
      t.contents = s.contents.put key ⟨.obj (Patch.apply fields doc), token⟩ := by
  unfold patch
  cases collected : Patch.collect patches with
  | error e => exact .inl ⟨e, s, rfl, rfl⟩
  | ok fields =>
    dsimp only
    generalize opened : s.admitting _ = made
    rcases admitting_cases opened with ⟨_, rfl⟩ | ⟨t, ⟨same, _, _⟩, rfl⟩
    · exact .inl ⟨_, _, rfl, rfl⟩
    · cases found : t.current key demanded with
      | error e => exact .inl ⟨e, t, rfl, same⟩
      | ok item =>
        obtain ⟨content, old⟩ := item
        have stored := current_eq_ok found
        rw [same] at stored
        cases content with
        | obj doc => exact .inr ⟨fields, doc, old, _, _, rfl, stored, rfl, by simp [same]⟩
        | _ => exact .inl ⟨_, t, rfl, same⟩

/-- Deleting a document fails on unchanged contents, reporting it missing only when it is, or
empties its place. -/
theorem delete_cases (s : MemoryStore) (key : DocumentKey) (demanded : Option VersionToken) :
    (∃ e t, s.delete key demanded = (.error e, t) ∧ t.contents = s.contents ∧
      (e.isNotFound = true → s.contents.find? key = none)) ∨
    ∃ t, s.delete key demanded = (.ok (), t) ∧ t.contents = s.contents.erase key := by
  unfold delete
  generalize opened : s.admitting _ = made
  rcases admitting_cases opened with ⟨_, rfl⟩ | ⟨t, ⟨same, _, _⟩, rfl⟩
  · exact .inl ⟨_, _, rfl, rfl, by simp [injectedFailure, StoreError.isNotFound]⟩
  · cases found : t.current key demanded with
    | error e =>
      refine .inl ⟨_, _, rfl, same, ?_⟩
      intro isNotFound
      rw [← same]
      exact missing_of_current found isNotFound
    | ok item => exact .inr ⟨_, rfl, by simp [same]⟩

/-- Without faults, deleting a document fails only when it is missing or another revision than the
one demanded. -/
theorem delete_of_faultless (faultless : s.Faultless) {item : Item}
    (stored : s.contents.find? key = some item)
    (matching : ∀ token ∈ demanded, token = item.token) :
    ∃ t, s.delete key demanded = (.ok (), t) ∧ t.Faultless := by
  have found : s.current key demanded = .ok item := by
    unfold current
    rw [stored]
    cases demanded with
    | none => rfl
    | some token => simp [matching token rfl]
  refine ⟨{ s with contents := s.contents.erase key }, ?_, faultless⟩
  rw [delete, admitting_of_faultless faultless, found]

theorem delete_of_missing (faultless : s.Faultless) (missing : s.contents.find? key = none) :
    s.delete key demanded = (.error (.notFound key.collection key.id), s) := by
  rw [delete, admitting_of_faultless faultless]
  simp [current, missing]

/-- Without faults only a missing document makes the store refuse to delete the revision that is
demanded. -/
theorem isNotFound_of_delete (faultless : s.Faultless)
    (matching : ∀ item, s.contents.find? key = some item → ∀ token ∈ demanded, token = item.token) :
    (s.delete key demanded).2.Faultless ∧
      ∀ e, (s.delete key demanded).1 = .error e → e.isNotFound = true := by
  cases stored : s.contents.find? key with
  | none =>
    rw [delete_of_missing faultless stored]
    refine ⟨faultless, ?_⟩
    rintro e ⟨⟩
    rfl
  | some item =>
    obtain ⟨t, deleted, still⟩ := delete_of_faultless faultless stored (matching item stored)
    rw [deleted]
    exact ⟨still, by rintro e ⟨⟩⟩

/-! ## What writes touch -/

/-- What a write to a place changes at most: the document there, and the number of minted tokens. -/
structure Touches (key : DocumentKey) (s t : MemoryStore) : Prop where
  others : ∀ k ≠ key, t.contents.find? k = s.contents.find? k
  /-- What is at the place was there before or has a token that was minted for it. -/
  current : ∀ item, t.contents.find? key = some item →
    s.contents.find? key = some item ∨ ∃ n < t.minted, item.token = .minted n
  minted : s.minted ≤ t.minted
  faultless : s.Faultless → t.Faultless

theorem Unchanged.touches (unchanged : s.Unchanged t) (key : DocumentKey) : Touches key s t where
  others := fun _ _ => by rw [unchanged.contents]
  current := fun item stored => .inl (by rwa [unchanged.contents] at stored)
  minted := Nat.le_of_eq unchanged.minted.symm
  faultless := unchanged.faultless

theorem touches_commit (s : MemoryStore) (key : DocumentKey) (doc : Json) :
    Touches key s (s.commit key doc).2 where
  others := fun _ other => (Contents.find?_put ..).trans (if_neg other)
  current := by
    intro item stored
    have put := (Contents.find?_put ..).symm.trans stored
    rw [if_pos rfl] at put
    cases put
    exact .inr ⟨s.minted, Nat.lt_succ_self _, rfl⟩
  minted := Nat.le_succ s.minted
  faultless := id

/-- A write that asks to be let through touches what it touches when it is. -/
theorem touches_admitting {α : Type} {write : MemoryStore → Written MemoryStore α}
    (each : ∀ t, Touches key t (write t).2) (s : MemoryStore) :
    Touches key s (s.admitting write).2 := by
  generalize opened : s.admitting write = made
  rcases admitting_cases opened with ⟨_, rfl⟩ | ⟨t, same, rfl⟩
  · exact (Unchanged.refl s).touches key
  · obtain ⟨others, current, minted, faultless⟩ := each t
    rw [same.contents] at others current
    rw [same.minted] at minted
    exact ⟨others, current, minted, fun isFaultless => faultless (same.faultless isFaultless)⟩

theorem touches_create (s : MemoryStore) (key : DocumentKey) (doc : Json) :
    Touches key s (s.create key doc).2 := by
  refine touches_admitting (fun t => ?_) s
  split
  · exact (Unchanged.refl t).touches key
  · exact touches_commit t key doc

theorem touches_replace (s : MemoryStore) (key : DocumentKey) (doc : Json)
    (demanded : Option VersionToken) : Touches key s (s.replace key doc demanded).2 := by
  refine touches_admitting (fun t => ?_) s
  split
  · exact (Unchanged.refl t).touches key
  · exact touches_commit t key doc

theorem touches_patch (s : MemoryStore) (key : DocumentKey) (patches : List Patch)
    (demanded : Option VersionToken) : Touches key s (s.patch key patches demanded).2 := by
  unfold patch
  split
  · exact (Unchanged.refl s).touches key
  · refine touches_admitting (fun t => ?_) s
    split
    · exact (Unchanged.refl t).touches key
    · split
      · exact touches_commit t key _
      · exact (Unchanged.refl t).touches key

theorem touches_delete (s : MemoryStore) (key : DocumentKey) (demanded : Option VersionToken) :
    Touches key s (s.delete key demanded).2 := by
  refine touches_admitting (fun t => ?_) s
  split
  · exact (Unchanged.refl t).touches key
  · refine ⟨fun _ other => (Contents.find?_erase ..).trans (if_neg other), ?_, Nat.le_refl _, id⟩
    intro item stored
    have erased := (Contents.find?_erase ..).symm.trans stored
    rw [if_pos rfl] at erased
    cases erased

/-- The documents of a partition have no tokens that the store is still to mint. -/
def IssuedIn (s : MemoryStore) (part : String) : Prop :=
  ∀ collection id item n, s.contents.find? ⟨part, collection, id⟩ = some item →
    item.token = .minted n → n < s.minted

theorem issuedIn_empty (part : String) : empty.IssuedIn part := by
  intro collection id item n stored
  cases stored

theorem IssuedIn.touch {part : String} (issued : s.IssuedIn part) (touches : Touches key s t) :
    t.IssuedIn part := by
  intro collection id item n stored isToken
  have stillMinted := fun before =>
    Nat.lt_of_lt_of_le (issued collection id item n before isToken) touches.minted
  by_cases isKey : ⟨part, collection, id⟩ = key
  · rw [isKey] at stored stillMinted
    rcases touches.current item stored with wasStored | ⟨m, minted, isNew⟩
    · exact stillMinted wasStored
    · cases isToken.symm.trans isNew
      exact minted
  · rw [touches.others _ isKey] at stored
    exact stillMinted stored

end MemoryStore

end PlanArchive
