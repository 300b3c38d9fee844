import PlanArchive.Store.Basic

/-!
# Contents of a store

The documents that a store holds, each at a place of its own. `find?` is the view that says
everything about the contents: what `put` and `erase` do to it is stated below.
-/

namespace PlanArchive

/-- Documents at pairwise different places. -/
structure Contents where
  entries : List (DocumentKey × Item)
  /-- No place holds two documents. -/
  distinct : (entries.map Prod.fst).Nodup

namespace Contents

/-- No documents. -/
def empty : Contents := ⟨[], List.nodup_nil⟩

instance : Inhabited Contents := ⟨empty⟩

/-- The document at a place. -/
def find? (c : Contents) (key : DocumentKey) : Option Item := c.entries.lookup key

/-- Replaces the document at a place, or appends one. -/
def putEntry (key : DocumentKey) (item : Item) :
    List (DocumentKey × Item) → List (DocumentKey × Item)
  | [] => [(key, item)]
  | (k, old) :: rest =>
    if k = key then (k, item) :: rest else (k, old) :: putEntry key item rest

theorem mem_keys_putEntry {key : DocumentKey} {item : Item}
    {entries : List (DocumentKey × Item)} {k : DocumentKey} :
    k ∈ (putEntry key item entries).map Prod.fst ↔ k = key ∨ k ∈ entries.map Prod.fst := by
  induction entries with
  | nil => simp [putEntry]
  | cons head rest inductionHypothesis =>
    simp only [putEntry]
    split
    · rename_i same
      simp only [List.map_cons, List.mem_cons, same]
      grind
    · simp only [List.map_cons, List.mem_cons, inductionHypothesis]
      grind

theorem nodup_keys_putEntry {key : DocumentKey} {item : Item}
    {entries : List (DocumentKey × Item)} (distinct : (entries.map Prod.fst).Nodup) :
    ((putEntry key item entries).map Prod.fst).Nodup := by
  induction entries with
  | nil => simp [putEntry]
  | cons head rest inductionHypothesis =>
    simp only [List.map_cons, List.nodup_cons] at distinct
    simp only [putEntry]
    split
    · simpa using distinct
    · rename_i different
      simp only [List.map_cons, List.nodup_cons, mem_keys_putEntry]
      exact ⟨by simpa [different] using distinct.1, inductionHypothesis distinct.2⟩

/-- The contents with a document at a place, whatever was there. -/
def put (c : Contents) (key : DocumentKey) (item : Item) : Contents :=
  ⟨putEntry key item c.entries, nodup_keys_putEntry c.distinct⟩

/-- The contents without the document at a place. -/
def erase (c : Contents) (key : DocumentKey) : Contents where
  entries := c.entries.filter fun entry => entry.1 != key
  distinct := c.distinct.sublist (List.Sublist.map _ List.filter_sublist)

/-- The documents of a collection in one partition. -/
def itemsIn (c : Contents) (part : String) (collection : Collection) : List Item :=
  (c.entries.filter fun entry =>
    entry.1.part == part && entry.1.collection == collection).map Prod.snd

@[simp] theorem find?_empty (key : DocumentKey) : empty.find? key = none := rfl

theorem lookup_cons_ite (k : DocumentKey) (head : DocumentKey × Item)
    (rest : List (DocumentKey × Item)) :
    (head :: rest).lookup k = if k = head.1 then some head.2 else rest.lookup k := by
  obtain ⟨key, item⟩ := head
  by_cases atHead : k = key
  · simp [atHead]
  · have notHead : (k == key) = false := by simpa using atHead
    simp [List.lookup_cons, atHead, notHead]

theorem find?_put (c : Contents) (key : DocumentKey) (item : Item) (k : DocumentKey) :
    (c.put key item).find? k = if k = key then some item else c.find? k := by
  simp only [find?, put]
  generalize c.entries = entries
  induction entries with
  | nil => simp only [putEntry, lookup_cons_ite]
  | cons head rest inductionHypothesis =>
    simp only [putEntry]
    split
    · rename_i isHead
      simp only [lookup_cons_ite, isHead]
      split <;> rfl
    · rename_i notKey
      simp only [lookup_cons_ite, inductionHypothesis]
      by_cases atHead : k = head.1
      · subst atHead
        simp [notKey]
      · simp [atHead]

theorem find?_erase (c : Contents) (key k : DocumentKey) :
    (c.erase key).find? k = if k = key then none else c.find? k := by
  simp only [find?, erase]
  generalize c.entries = entries
  induction entries with
  | nil => simp
  | cons head rest inductionHypothesis =>
    by_cases removed : head.1 = key
    · rw [List.filter_cons_of_neg (by simp [removed]), inductionHypothesis, lookup_cons_ite]
      by_cases same : k = key <;> simp [removed, same]
    · rw [List.filter_cons_of_pos (by simp [removed]), lookup_cons_ite, inductionHypothesis,
        lookup_cons_ite]
      by_cases atHead : k = head.1
      · subst atHead
        simp [removed]
      · simp [atHead]

end Contents

end PlanArchive
