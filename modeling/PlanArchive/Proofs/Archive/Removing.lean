import PlanArchive.Archive.Delete
import PlanArchive.Proofs.Store.Memory

/-!
# Changes that only remove documents

`Removes` is a triple about a change of the store in memory that takes documents away and adds
none. Its invariant holds at whatever call the change is cut short; what it promises afterwards
holds when it comes to its end, and without faults it does. Promises are about documents that are
gone, and what is gone stays gone (`Stable`), so that they add up along a chain of changes.
`Keeps` is about a single place that a change leaves alone, and `KeepsOrClears` about one that it
may clear with its last step.
-/

namespace PlanArchive

theorem Change.bind_of_ok {α β : Type} {change : Change MemoryStore α}
    {next : α → Change MemoryStore β} {s t : MemoryStore} {v : α} (made : change s = (.ok v, t)) :
    (change >>= next) s = next v t := by
  have chained : (change >>= next) s = change.andThen next s := rfl
  rw [chained, andThen, made]

theorem Change.bind_of_error {α β : Type} {change : Change MemoryStore α}
    {next : α → Change MemoryStore β} {s t : MemoryStore} {e : ArchiveError}
    (failed : change s = (.error e, t)) : (change >>= next) s = (.error e, t) := by
  have chained : (change >>= next) s = change.andThen next s := rfl
  rw [chained, andThen, failed]

/-! ## Fewer documents -/

/-- Contents that differ from others in missing documents only. -/
def Contents.Within (d c : Contents) : Prop :=
  ∀ key, d.find? key = c.find? key ∨ d.find? key = none

namespace Contents.Within

theorem refl (c : Contents) : c.Within c := fun _ => .inl rfl

theorem trans {b c d : Contents} (first : d.Within c) (second : c.Within b) : d.Within b := by
  intro key
  rcases first key with same | missing
  · rw [same]
    exact second key
  · exact .inr missing

theorem erase (c : Contents) (key : DocumentKey) : (c.erase key).Within c := by
  intro k
  rw [find?_erase]
  by_cases isKey : k = key
  · exact .inr (if_pos isKey)
  · exact .inl (if_neg isKey)

theorem find?_eq_none {c d : Contents} (within : d.Within c) {key : DocumentKey}
    (missing : c.find? key = none) : d.find? key = none := by
  rcases within key with same | gone
  · rw [same, missing]
  · exact gone

end Contents.Within

/-- What stays true when documents are removed. -/
def Stable (property : Contents → Prop) : Prop :=
  ∀ c d : Contents, d.Within c → property c → property d

theorem Stable.find?_eq_none (key : DocumentKey) : Stable fun c => c.find? key = none :=
  fun _ _ within missing => within.find?_eq_none missing

theorem Stable.true : Stable fun _ => True := fun _ _ _ _ => trivial

theorem Stable.forall {ι : Sort _} {property : ι → Contents → Prop}
    (each : ∀ i, Stable (property i)) : Stable fun c => ∀ i, property i c :=
  fun c d within holds i => each i c d within (holds i)

theorem Stable.and {first second : Contents → Prop} (left : Stable first) (right : Stable second) :
    Stable fun c => first c ∧ second c :=
  fun c d within holds => ⟨left c d within holds.1, right c d within holds.2⟩

theorem Stable.or_left {fact : Prop} {property : Contents → Prop} (stable : Stable property) :
    Stable fun c => fact ∨ property c :=
  fun c d within holds => holds.imp_right (stable c d within)

/-! ## The triple -/

/-- What a change that was made from a store comes to. -/
structure Removal {α : Type} (invariant : Contents → Prop) (after : α → Contents → Prop)
    (s : MemoryStore) (made : Except ArchiveError α × MemoryStore) : Prop where
  /-- The invariant holds, also when the change was cut short. -/
  safe : invariant made.2.contents
  within : made.2.contents.Within s.contents
  /-- A change that came to its end keeps its promise. -/
  kept : ∀ v, made.1 = .ok v → after v made.2.contents
  /-- Without faults it comes to its end. -/
  total : s.Faultless → made.2.Faultless ∧ ∃ v, made.1 = .ok v

/-- A change that removes documents, keeps an invariant and, from contents of which `before` is
true, comes to ones of which `after` is. -/
def Removes {α : Type} (invariant before : Contents → Prop) (change : Change MemoryStore α)
    (after : α → Contents → Prop) : Prop :=
  ∀ s : MemoryStore, invariant s.contents → before s.contents →
    Removal invariant after s (change s)

namespace Removes

variable {α β ι : Type} {invariant before : Contents → Prop} {change : Change MemoryStore α}
  {mid : α → Contents → Prop}

theorem given {stronger : Contents → Prop} (removes : Removes invariant before change mid)
    (enough : ∀ c, stronger c → before c) : Removes invariant stronger change mid :=
  fun s safe holds => removes s safe (enough _ holds)

theorem weaken {weaker : α → Contents → Prop} (removes : Removes invariant before change mid)
    (implies : ∀ v c, mid v c → weaker v c) : Removes invariant before change weaker := by
  intro s safe holds
  have ⟨stillSafe, within, kept, total⟩ := removes s safe holds
  exact ⟨stillSafe, within, fun v isValue => implies v _ (kept v isValue), total⟩

theorem done {after : α → Contents → Prop} {value : α} (promise : ∀ c, before c → after value c) :
    Removes invariant before (pure value) after := by
  intro s safe holds
  refine ⟨safe, .refl _, ?_, fun faultless => ⟨faultless, value, rfl⟩⟩
  rintro v ⟨⟩
  exact promise _ holds

theorem looking {look : MemoryStore → Except ArchiveError α} {after : α → Contents → Prop}
    (found : ∀ s : MemoryStore, invariant s.contents → before s.contents →
      ∃ v, look s = .ok v ∧ after v s.contents) :
    Removes invariant before (Change.looking look) after := by
  intro s safe holds
  obtain ⟨v, isValue, promise⟩ := found s safe holds
  refine ⟨safe, .refl _, ?_, fun faultless => ⟨faultless, v, isValue⟩⟩
  intro w isFound
  have same : v = w := Except.ok.inj (isValue.symm.trans isFound)
  rw [← same]
  exact promise

/-- One change after another. -/
theorem bind {next : α → Change MemoryStore β} {after : β → Contents → Prop}
    (stable : Stable before) (first : Removes invariant before change mid)
    (then_ : ∀ v, Removes invariant (fun c => before c ∧ mid v c) (next v) after) :
    Removes invariant before (change >>= next) after := by
  intro s safe holds
  have ⟨midSafe, midWithin, midKept, midTotal⟩ := first s safe holds
  cases made : change s with
  | mk result t =>
    rw [made] at midSafe midWithin midKept midTotal
    cases result with
    | error e =>
      rw [Change.bind_of_error made]
      refine ⟨midSafe, midWithin, by rintro v ⟨⟩, ?_⟩
      intro faultless
      obtain ⟨_, v, isValue⟩ := midTotal faultless
      cases isValue
    | ok v =>
      rw [Change.bind_of_ok made]
      have still : before t.contents := stable _ _ midWithin holds
      have ⟨endSafe, endWithin, endKept, endTotal⟩ :=
        then_ v t midSafe ⟨still, midKept v rfl⟩
      exact ⟨endSafe, endWithin.trans midWithin, endKept,
        fun faultless => endTotal (midTotal faultless).1⟩

/-- A change for each item of a list. -/
theorem each {change : ι → Change MemoryStore Unit} {items : List ι}
    {after : ι → Contents → Prop} (stable : Stable before)
    (stableAfter : ∀ x ∈ items, Stable (after x))
    (one : ∀ x ∈ items, Removes invariant before (change x) fun _ => after x) :
    Removes invariant before (Change.each change items) fun _ c => ∀ x ∈ items, after x c := by
  induction items with
  | nil => exact done fun _ _ => by simp
  | cons x rest inductionHypothesis =>
    have first := one x List.mem_cons_self
    have others := inductionHypothesis
      (fun y member => stableAfter y (List.mem_cons_of_mem _ member))
      fun y member => one y (List.mem_cons_of_mem _ member)
    have firstStable := stableAfter x List.mem_cons_self
    refine bind stable first fun _ s safe holds => ?_
    have ⟨endSafe, within, kept, total⟩ := others s safe holds.1
    refine ⟨endSafe, within, ?_, total⟩
    intro v isValue
    exact List.forall_mem_cons.mpr ⟨firstStable _ _ within holds.2, kept v isValue⟩

/-- Collecting what a change yields for the items of a list: what it promises of a value it promises
of one for each item that has a value, and something else of all other items. -/
theorem collect {change : ι → Change MemoryStore (Option α)} {items : List ι}
    {found : ι → α → Prop} {missing : ι → Contents → Prop} (stable : Stable before)
    (stableMissing : ∀ x ∈ items, Stable (missing x))
    (one : ∀ x ∈ items, Removes invariant before (change x) fun result c =>
      (∀ v ∈ result, found x v) ∧ (result = none → missing x c)) :
    Removes invariant before (Change.collect change items) fun results c =>
      (∀ v ∈ results, ∃ x ∈ items, found x v) ∧
        ∀ x ∈ items, (∃ v ∈ results, found x v) ∨ missing x c := by
  induction items with
  | nil => exact done fun _ _ => by simp
  | cons x rest inductionHypothesis =>
    have others := inductionHypothesis
      (fun y member => stableMissing y (List.mem_cons_of_mem _ member))
      fun y member => one y (List.mem_cons_of_mem _ member)
    refine bind stable (one x List.mem_cons_self) fun result => ?_
    have firstStable : Stable fun c => before c ∧ (∀ v ∈ result, found x v) ∧
        (result = none → missing x c) := by
      intro c d within ⟨holds, isFound, isMissing⟩
      exact ⟨stable c d within holds, isFound,
        fun absent => stableMissing x List.mem_cons_self c d within (isMissing absent)⟩
    refine bind firstStable (others.given fun _ holds => holds.1)
      fun results => done fun c holds => ?_
    obtain ⟨⟨_, isFound, isMissing⟩, each, all⟩ := holds
    constructor
    · intro v member
      rcases List.mem_append.mp member with isFirst | isLater
      · exact ⟨x, List.mem_cons_self, isFound v (Option.mem_toList.mp isFirst)⟩
      · obtain ⟨y, inRest, isValue⟩ := each v isLater
        exact ⟨y, List.mem_cons_of_mem _ inRest, isValue⟩
    · refine List.forall_mem_cons.mpr ⟨?_, ?_⟩
      · cases result with
        | none => exact .inr (isMissing rfl)
        | some v => exact .inl ⟨v, List.mem_cons_self, isFound v rfl⟩
      · intro y inRest
        rcases all y inRest with ⟨v, isLater, isValue⟩ | gone
        · exact .inl ⟨v, List.mem_append_right _ isLater, isValue⟩
        · exact .inr gone

/-- Removing one document. It must be the revision that is demanded, if it is there, and the
invariant must hold without it. -/
theorem remove {a : Archive} {kind : EntityKind} {id : Uuid} {demanded : Option VersionToken}
    (erasable : ∀ c, invariant c → before c → invariant (c.erase (a.key kind id)))
    (matching : ∀ c item, invariant c → before c → c.find? (a.key kind id) = some item →
      ∀ token ∈ demanded, token = item.token) :
    Removes invariant before (a.remove kind id demanded)
      fun _ c => c.find? (a.key kind id) = none := by
  intro s safe holds
  have deleting : DocumentStore.delete s (a.key kind id) demanded =
      s.delete (a.key kind id) demanded := rfl
  have refused (faultless : s.Faultless) :=
    MemoryStore.isNotFound_of_delete faultless fun item => matching s.contents item safe holds
  rcases s.delete_cases (a.key kind id) demanded with
    ⟨e, t, failed, same, missing⟩ | ⟨t, deleted, erased⟩
  · rw [failed] at deleting refused
    by_cases isNotFound : e.isNotFound = true
    · have made : a.remove kind id demanded s = (.ok (), t) := by
        simp only [Archive.remove, deleting, if_pos isNotFound]
      rw [made]
      refine ⟨same ▸ safe, same ▸ .refl _, ?_, fun faultless => ⟨(refused faultless).1, (), rfl⟩⟩
      intro _ _
      rw [same]
      exact missing isNotFound
    · have made : a.remove kind id demanded s = (.error (.ofStore .delete kind id e), t) := by
        simp only [Archive.remove, deleting, if_neg isNotFound]
      rw [made]
      refine ⟨same ▸ safe, same ▸ .refl _, by rintro v ⟨⟩, ?_⟩
      intro faultless
      exact absurd ((refused faultless).2 e rfl) isNotFound
  · rw [deleted] at deleting refused
    have made : a.remove kind id demanded s = (.ok (), t) := by
      simp only [Archive.remove, deleting]
    rw [made]
    refine ⟨erased ▸ erasable _ safe holds, erased ▸ .erase _ _, ?_,
      fun faultless => ⟨(refused faultless).1, (), rfl⟩⟩
    intro _ _
    rw [erased, Contents.find?_erase, if_pos rfl]

end Removes

/-! ## Places that stay as they are -/

/-- A change that leaves a place alone, whatever it comes to. -/
def Keeps {α : Type} (key : DocumentKey) (change : Change MemoryStore α) : Prop :=
  ∀ s : MemoryStore, (change s).2.contents.find? key = s.contents.find? key

/-- A change that leaves a place alone, or clears it and comes to its end. -/
def KeepsOrClears {α : Type} (key : DocumentKey) (change : Change MemoryStore α) : Prop :=
  ∀ s : MemoryStore, (change s).2.contents.find? key = s.contents.find? key ∨
    (∃ v, (change s).1 = .ok v) ∧ (change s).2.contents.find? key = none

section

variable {α β ι : Type} {key : DocumentKey} {a : Archive} {kind : EntityKind} {id : Uuid}
  {demanded : Option VersionToken}

/-- Removing a document leaves all documents alone, or it erases this one and succeeds. -/
theorem remove_cases (a : Archive) (kind : EntityKind) (id : Uuid)
    (demanded : Option VersionToken) (s : MemoryStore) :
    (a.remove kind id demanded s).2.contents = s.contents ∨
      ∃ t, a.remove kind id demanded s = (.ok (), t) ∧
        t.contents = s.contents.erase (a.key kind id) := by
  have deleting : DocumentStore.delete s (a.key kind id) demanded =
      s.delete (a.key kind id) demanded := rfl
  rcases s.delete_cases (a.key kind id) demanded with
    ⟨e, t, failed, same, _⟩ | ⟨t, deleted, erased⟩
  · rw [failed] at deleting
    have unchanged : (a.remove kind id demanded s).2 = t := by
      simp only [Archive.remove, deleting]
      split <;> rfl
    exact .inl (by rw [unchanged, same])
  · rw [deleted] at deleting
    exact .inr ⟨t, by simp only [Archive.remove, deleting], erased⟩

namespace Keeps

theorem done (value : α) : Keeps key (pure value : Change MemoryStore α) := fun _ => rfl

theorem looking (look : MemoryStore → Except ArchiveError α) : Keeps key (Change.looking look) :=
  fun _ => rfl

theorem orClears {change : Change MemoryStore α} (keeps : Keeps key change) :
    KeepsOrClears key change :=
  fun s => .inl (keeps s)

theorem bind {change : Change MemoryStore α} {next : α → Change MemoryStore β}
    (first : Keeps key change) (then_ : ∀ v, Keeps key (next v)) : Keeps key (change >>= next) := by
  intro s
  have same := first s
  cases made : change s with
  | mk result t =>
    rw [made] at same
    cases result with
    | error e => rwa [Change.bind_of_error made]
    | ok v => rw [Change.bind_of_ok made, then_ v t, same]

theorem each {change : ι → Change MemoryStore Unit} {items : List ι}
    (one : ∀ x ∈ items, Keeps key (change x)) : Keeps key (Change.each change items) := by
  induction items with
  | nil => exact done ()
  | cons x rest inductionHypothesis =>
    have ⟨first, others⟩ := List.forall_mem_cons.mp one
    exact first.bind fun _ => inductionHypothesis others

theorem collect {change : ι → Change MemoryStore (Option α)} {items : List ι}
    (one : ∀ x ∈ items, Keeps key (change x)) : Keeps key (Change.collect change items) := by
  induction items with
  | nil => exact done []
  | cons x rest inductionHypothesis =>
    have ⟨first, others⟩ := List.forall_mem_cons.mp one
    exact first.bind fun _ => (inductionHypothesis others).bind fun _ => done _

theorem remove (other : key ≠ a.key kind id) : Keeps key (a.remove kind id demanded) := by
  intro s
  rcases remove_cases a kind id demanded s with same | ⟨t, made, erased⟩
  · rw [same]
  · rw [made, erased, Contents.find?_erase, if_neg other]

end Keeps

namespace KeepsOrClears

theorem bind {change : Change MemoryStore α} {next : α → Change MemoryStore β}
    (first : Keeps key change) (then_ : ∀ v, KeepsOrClears key (next v)) :
    KeepsOrClears key (change >>= next) := by
  intro s
  have same := first s
  cases made : change s with
  | mk result t =>
    rw [made] at same
    cases result with
    | error e =>
      rw [Change.bind_of_error made]
      exact .inl same
    | ok v =>
      rw [Change.bind_of_ok made, ← same]
      exact then_ v t

/-- Removing a document clears its place if it succeeds. -/
theorem remove : KeepsOrClears key (a.remove kind id demanded) := by
  intro s
  rcases remove_cases a kind id demanded s with same | ⟨t, made, erased⟩
  · exact .inl (by rw [same])
  · rw [made, erased, Contents.find?_erase]
    by_cases isKey : key = a.key kind id
    · exact .inr ⟨⟨(), rfl⟩, if_pos isKey⟩
    · exact .inl (if_neg isKey)

end KeepsOrClears

end

end PlanArchive
