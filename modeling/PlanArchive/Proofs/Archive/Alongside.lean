import PlanArchive.Archive.Change
import PlanArchive.Archive.Create
import PlanArchive.Proofs.Steps

/-!
# The same on two stores

Whether something comes to the same on two stores is asked of the value that it ends in and of the
stores that it leaves, which have to be related as they were before (`SameOutcome`). Of a change of
many calls it is shown call by call: what comes after a call is told its value
(`Change.Same.bind_map`). Values may be translated on the way from one store to the other.
-/

namespace PlanArchive

/-! ## Outcomes -/

/-- Two calls came to the same, on stores that are still related. -/
structure SameOutcome {σ τ α : Type} (related : σ → τ → Prop) (first : α × σ) (second : α × τ) :
    Prop where
  value : first.1 = second.1
  stores : related first.2 second.2

theorem SameOutcome.exists_eq {σ τ α : Type} {related : σ → τ → Prop} {first : α × σ}
    {second : α × τ} (same : SameOutcome related first second) :
    ∃ v s t, first = (v, s) ∧ second = (v, t) ∧ related s t := by
  obtain ⟨v, s⟩ := first
  obtain ⟨w, t⟩ := second
  obtain ⟨rfl, related⟩ := same
  exact ⟨_, s, t, rfl, rfl, related⟩

/-- An outcome with its value, if it has one, translated. -/
def translated {σ ε α β : Type} (f : α → β) (outcome : Except ε α × σ) : Except ε β × σ :=
  (outcome.1.map f, outcome.2)

@[simp] theorem translated_id {σ ε α : Type} (outcome : Except ε α × σ) :
    translated (fun v => v) outcome = outcome := by
  rw [translated, Except.map_id]

theorem SameOutcome.exists_translated {σ τ ε α β : Type} {related : σ → τ → Prop} {f : α → β}
    {first : Except ε α × σ} {second : Except ε β × τ}
    (same : SameOutcome related (translated f first) second) :
    ∃ result s t, first = (result, s) ∧ second = (result.map f, t) ∧ related s t := by
  obtain ⟨result, s⟩ := first
  obtain ⟨other, t⟩ := second
  obtain ⟨rfl, related⟩ := same
  exact ⟨result, s, t, rfl, rfl, related⟩

/-- An outcome with its error, if it has one, reported as another one. -/
def reported {σ ε δ α : Type} (f : ε → δ) (outcome : Except ε α × σ) : Except δ α × σ :=
  (outcome.1.mapError f, outcome.2)

theorem SameOutcome.report {σ τ ε δ α β : Type} {related : σ → τ → Prop} {f : α → β}
    {first : Except ε α × σ} {second : Except ε β × τ}
    (same : SameOutcome related (translated f first) second) (naming : ε → δ) :
    SameOutcome related (translated f (reported naming first)) (reported naming second) := by
  obtain ⟨result, s, t, rfl, rfl, isRelated⟩ := same.exists_translated
  refine ⟨?_, isRelated⟩
  cases result <;> rfl

/-! ## Changes -/

namespace Change

variable {σ τ α β γ ι : Type} {related : σ → τ → Prop}

/-- Two changes that come to the same on related stores. -/
def Same (related : σ → τ → Prop) (first : Change σ α) (second : Change τ α) : Prop :=
  ∀ s t, related s t → SameOutcome related (first s) (second t)

/-- A change with its value translated. -/
def map (f : α → β) (change : Change σ α) : Change σ β := fun s => translated f (change s)

theorem Same.done (value : α) :
    Same related (pure value : Change σ α) (pure value : Change τ α) :=
  fun _ _ isRelated => ⟨rfl, isRelated⟩

theorem Same.looking {left : σ → Except ArchiveError α} {right : τ → Except ArchiveError α}
    (alike : ∀ s t, related s t → left s = right t) :
    Same related (Change.looking left) (Change.looking right) :=
  fun s t isRelated => ⟨alike s t isRelated, isRelated⟩

/-- What comes after a change may be told a translated value. -/
theorem Same.bind_map {first : Change σ α} {second : Change τ γ} {f : α → γ}
    {next : α → Change σ β} {then_ : γ → Change τ β} (same : Same related (first.map f) second)
    (each : ∀ v, Same related (next v) (then_ (f v))) :
    Same related (first >>= next) (second >>= then_) := by
  intro s t isRelated
  obtain ⟨result, u, v, ofFirst, ofSecond, stillRelated⟩ := (same s t isRelated).exists_translated
  have left : (first >>= next) s = first.andThen next s := rfl
  have right : (second >>= then_) t = second.andThen then_ t := rfl
  rw [left, right, andThen, andThen, ofFirst, ofSecond]
  cases result with
  | error e => exact ⟨rfl, stillRelated⟩
  | ok value => exact each value u v stillRelated

theorem Same.bind {first : Change σ α} {second : Change τ α} {next : α → Change σ β}
    {then_ : α → Change τ β} (same : Same related first second)
    (each : ∀ v, Same related (next v) (then_ v)) :
    Same related (first >>= next) (second >>= then_) := by
  refine Same.bind_map (f := fun v => v) ?_ each
  intro s t isRelated
  rw [map, translated_id]
  exact same s t isRelated

/-- A change for each of some items, which one of the changes may be told translated. -/
theorem Same.each_map {left : ι → Change σ Unit} {right : γ → Change τ Unit} {f : ι → γ}
    (one : ∀ x, Same related (left x) (right (f x))) (items : List ι) :
    Same related (Change.each left items) (Change.each right (items.map f)) := by
  induction items with
  | nil => exact done ()
  | cons x rest inductionHypothesis => exact (one x).bind fun _ => inductionHypothesis

theorem Same.each {left : ι → Change σ Unit} {right : ι → Change τ Unit}
    (one : ∀ x, Same related (left x) (right x)) (items : List ι) :
    Same related (Change.each left items) (Change.each right items) := by
  simpa using Same.each_map (f := fun x => x) one items

theorem map_bind (first : Change σ α) (next : α → Change σ β) (f : β → γ) :
    (first >>= next).map f = first >>= fun v => (next v).map f := by
  funext s
  have left : (first >>= next).map f s = translated f (first.andThen next s) := rfl
  have right : (first >>= fun v => (next v).map f) s = first.andThen (fun v => (next v).map f) s :=
    rfl
  rw [left, right, andThen, andThen]
  obtain ⟨result, t⟩ := first s
  cases result <;> rfl

theorem Same.collect_map {left : ι → Change σ (Option α)} {right : ι → Change τ (Option β)}
    {f : α → β} (one : ∀ x, Same related ((left x).map (Option.map f)) (right x))
    (items : List ι) :
    Same related ((Change.collect left items).map (List.map f)) (Change.collect right items) := by
  induction items with
  | nil => exact done []
  | cons x rest inductionHypothesis =>
    rw [Change.collect, Change.collect, map_bind]
    refine (one x).bind_map fun found => ?_
    rw [map_bind]
    refine inductionHypothesis.bind_map fun others => ?_
    cases found <;> exact done _

end Change

/-- The outcome of an operation with the store that it leaves. -/
def Stored.outcome {σ α : Type} (stored : Stored σ α) : (Except ArchiveError Unit × α) × σ :=
  ((stored.result, stored.entity), stored.store)

theorem SameOutcome.map {σ τ α β : Type} {related : σ → τ → Prop} {first : Stored σ α}
    {second : Stored τ α} (same : SameOutcome related first.outcome second.outcome) (f : α → β) :
    SameOutcome related (first.map f).outcome (second.map f).outcome := by
  obtain ⟨value, stores⟩ := same
  have ⟨result, entity⟩ := Prod.mk.inj value
  exact ⟨Prod.ext result (congrArg f entity), stores⟩

end PlanArchive
