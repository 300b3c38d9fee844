import Mathlib.Data.List.Forall2

/-!
# Steps that may fail

What is known of chains and lists of steps when they succeed. A list of steps succeeds with some
results when each step does with its own (`Except.mapM_eq_ok`); what is said about the results of a
list follows from that by induction on the pairs. Some steps are told the places of their items in
the list.
-/

namespace PlanArchive

namespace Except

variable {ε α β γ δ : Type}

/-! ## Chains -/

/-- A chain of two steps succeeds exactly when both do. -/
theorem bind_eq_ok {first : Except ε α} {next : α → Except ε β} {b : β} :
    first >>= next = .ok b ↔ ∃ a, first = .ok a ∧ next a = .ok b := by
  cases first with
  | error e => simp [bind, Except.bind]
  | ok a => simp [bind, Except.bind]

theorem bind_unit_eq_ok {first : Except ε Unit} {next : Unit → Except ε β} {b : β} :
    first >>= next = .ok b ↔ first = .ok () ∧ next () = .ok b := by
  cases first with
  | error e => simp [bind, Except.bind]
  | ok a => simp [bind, Except.bind]

theorem bind_congr {x : Except ε α} {f g : α → Except ε β}
    (same : ∀ v, x = .ok v → f v = g v) : (x >>= f) = (x >>= g) := by
  cases x with
  | error e => rfl
  | ok v => exact same v rfl

theorem exists_ok_bind {first : Except ε α} {next : α → Except ε β} :
    (∃ r, (first >>= next) = .ok r) ↔ ∃ v, first = .ok v ∧ ∃ r, next v = .ok r := by
  cases first with
  | error e => simp [bind, Except.bind]
  | ok v => simp [bind, Except.bind]

theorem exists_ok_pure {v : α} : (∃ r, (pure v : Except ε α) = .ok r) ↔ True :=
  iff_true_intro ⟨v, rfl⟩

theorem exists_of_isOk {outcome : Except ε α} (isOk : outcome.isOk = true) :
    ∃ v, outcome = .ok v := by
  cases outcome with
  | error e => cases isOk
  | ok v => exact ⟨v, rfl⟩

theorem eq_ok_of_isOk {outcome : Except ε Unit} (isOk : outcome.isOk = true) :
    outcome = .ok () := by
  cases outcome with
  | error e => cases isOk
  | ok _ => rfl

/-! ## Verdicts -/

/-- Whether a step succeeds, and else its error. -/
def verdict (step : Except ε α) : Except ε Unit := step.map fun _ => ()

@[simp] theorem verdict_ok (v : α) : verdict (.ok v : Except ε α) = .ok () := rfl

@[simp] theorem verdict_error (e : ε) : verdict (.error e : Except ε α) = .error e := rfl

theorem verdict_eq_ok {step : Except ε α} : verdict step = .ok () ↔ ∃ v, step = .ok v := by
  cases step <;> simp

theorem verdict_eq_error {step : Except ε α} {e : ε} :
    verdict step = .error e ↔ step = .error e := by
  cases step <;> simp

theorem verdict_bind (first : Except ε α) (next : α → Except ε β) :
    verdict (first >>= next) = first >>= fun v => verdict (next v) := by
  cases first <;> rfl

/-- A step whose result is not looked at may as well have none. -/
theorem verdict_seq (first : Except ε α) (next : Except ε β) :
    (verdict first >>= fun _ => next) = first >>= fun _ => next := by
  cases first <;> rfl

@[simp] theorem verdict_pure (v : α) : verdict (pure v : Except ε α) = pure () := rfl

@[simp] theorem verdict_verdict (step : Except ε α) : verdict (verdict step) = verdict step := by
  cases step <;> rfl

theorem bind_pure_unit (first : Except ε α) : (first >>= fun _ => pure ()) = verdict first := by
  cases first <;> rfl

theorem verdict_map (first : Except ε α) (f : α → β) : verdict (first.map f) = verdict first := by
  cases first <;> rfl

/-! ## Translated results -/

theorem map_eq_ok {first : Except ε α} {f : α → β} {b : β} :
    first.map f = .ok b ↔ ∃ a, first = .ok a ∧ f a = b := by
  cases first <;> simp [Except.map]

theorem exists_ok_map {first : Except ε α} {f : α → β} :
    (∃ r, first.map f = .ok r) ↔ ∃ v, first = .ok v := by
  cases first <;> simp [Except.map]

theorem map_id (first : Except ε α) : first.map (fun v => v) = first := by
  cases first <;> rfl

theorem map_bind (first : Except ε α) (next : α → Except ε β) (f : β → γ) :
    (first >>= next).map f = first >>= fun v => (next v).map f := by
  cases first <;> rfl

theorem bind_map (first : Except ε α) (f : α → β) (next : β → Except ε γ) :
    (first.map f >>= next) = first >>= fun v => next (f v) := by
  cases first <;> rfl

theorem map_pure (v : α) (f : α → β) : (pure v : Except ε α).map f = pure (f v) := rfl

/-- A chain comes to the translation of another one when its steps do. -/
theorem bind_of_map {first : Except ε α} {second : Except ε γ} {next : α → Except ε β}
    {then_ : γ → Except ε δ} {f : α → γ} {g : β → δ} (same : second = first.map f)
    (each : ∀ v, then_ (f v) = (next v).map g) : (second >>= then_) = (first >>= next).map g := by
  rw [same, bind_map, map_bind]
  exact bind_congr fun v _ => each v

theorem bind_of_each {first : Except ε α} {next : α → Except ε β} {then_ : α → Except ε γ}
    {f : β → γ} (each : ∀ v, then_ v = (next v).map f) :
    (first >>= then_) = (first >>= next).map f :=
  bind_of_map (map_id first).symm each

/-! ## Lists -/

variable {step : α → Except ε β} {items : List α} {results : List β}

/-- The results of a list of steps are those of its steps, one for each item. -/
theorem mapM_eq_ok :
    items.mapM step = .ok results ↔ List.Forall₂ (fun x y => step x = .ok y) items results := by
  induction items generalizing results with
  | nil => simp [pure, Except.pure, eq_comm]
  | cons x rest inductionHypothesis =>
    simp only [List.mapM_cons, bind_eq_ok, pure, Except.pure, Except.ok.injEq,
      inductionHypothesis, List.forall₂_cons_left_iff]
    constructor
    · rintro ⟨y, stepped, others, pairs, rfl⟩
      exact ⟨y, others, stepped, pairs, rfl⟩
    · rintro ⟨y, others, stepped, pairs, rfl⟩
      exact ⟨y, stepped, others, pairs, rfl⟩

theorem exists_ok_mapM : (∃ r, items.mapM step = .ok r) ↔ ∀ x ∈ items, ∃ y, step x = .ok y := by
  induction items with
  | nil => exact iff_of_true ⟨[], rfl⟩ (by simp)
  | cons x rest inductionHypothesis =>
    simp only [List.mapM_cons, exists_ok_bind, exists_ok_pure, and_true, exists_and_right,
      inductionHypothesis, List.forall_mem_cons]

/-- A list of steps without results succeeds when each of them does. -/
theorem forM_eq_ok {check : α → Except ε Unit} :
    forM items check = .ok () ↔ ∀ x ∈ items, check x = .ok () := by
  induction items with
  | nil => exact iff_of_true rfl (by simp)
  | cons x rest inductionHypothesis =>
    rw [List.forM_cons, bind_unit_eq_ok, inductionHypothesis, List.forall_mem_cons]

/-- A list of steps without results fails with the error of the first one that fails. -/
theorem first_of_forM_eq_error {check : α → Except ε Unit} {e : ε}
    (failed : forM items check = .error e) :
    ∃ before x after, items = before ++ x :: after ∧ (∀ y ∈ before, check y = .ok ()) ∧
      check x = .error e := by
  induction items with
  | nil => cases failed
  | cons x rest inductionHypothesis =>
    rw [List.forM_cons] at failed
    cases first : check x with
    | error f =>
      rw [first] at failed
      cases failed
      exact ⟨[], x, rest, rfl, by simp, first⟩
    | ok _ =>
      rw [first] at failed
      obtain ⟨before, y, after, split, succeeded, fails⟩ := inductionHypothesis failed
      exact ⟨x :: before, y, after, by rw [split]; rfl,
        List.forall_mem_cons.mpr ⟨first, succeeded⟩, fails⟩

theorem forM_flatMap {check : β → Except ε Unit} {expand : α → List β} :
    forM (items.flatMap expand) check = forM items fun x => forM (expand x) check := by
  induction items with
  | nil => rfl
  | cons x rest inductionHypothesis =>
    rw [List.flatMap_cons, List.forM_append, List.forM_cons, inductionHypothesis]

/-- The verdict of a list of steps is that of their verdicts. -/
theorem verdict_mapM : verdict (items.mapM step) = forM items fun x => verdict (step x) := by
  induction items with
  | nil => rfl
  | cons x rest inductionHypothesis =>
    rw [List.mapM_cons, List.forM_cons, ← inductionHypothesis]
    cases step x with
    | error e => rfl
    | ok y => cases rest.mapM step <;> rfl

/-- A list of steps fails with an error when a step does after others that succeed. -/
theorem mapM_eq_error {e : ε} :
    items.mapM step = .error e ↔ ∃ before x after, items = before ++ x :: after ∧
      (∀ y ∈ before, ∃ v, step y = .ok v) ∧ step x = .error e := by
  constructor
  · intro failed
    rw [← verdict_eq_error, verdict_mapM] at failed
    obtain ⟨before, x, after, split, succeeded, fails⟩ := first_of_forM_eq_error failed
    exact ⟨before, x, after, split, fun y member => verdict_eq_ok.mp (succeeded y member),
      verdict_eq_error.mp fails⟩
  · rintro ⟨before, x, after, rfl, succeeded, fails⟩
    obtain ⟨results, made⟩ := exists_ok_mapM.mpr succeeded
    rw [List.mapM_append, made, List.mapM_cons, fails]
    rfl

/-- A list of steps comes to the translation of another one when each step does. -/
theorem mapM_of_map {other : α → Except ε γ} {f : β → γ}
    (each : ∀ x, other x = (step x).map f) :
    items.mapM other = (items.mapM step).map (List.map f) := by
  induction items with
  | nil => rfl
  | cons x rest inductionHypothesis =>
    rw [List.mapM_cons, List.mapM_cons]
    exact bind_of_map (each x) fun _ => bind_of_map inductionHypothesis fun _ => rfl

theorem mapM_congr {f g : α → Except ε β} (same : ∀ x ∈ items, f x = g x) :
    items.mapM f = items.mapM g := by
  induction items with
  | nil => rfl
  | cons x rest inductionHypothesis =>
    have ⟨first, later⟩ := List.forall_mem_cons.mp same
    rw [List.mapM_cons, List.mapM_cons, first, inductionHypothesis later]

/-- Every item of a list of steps has its result in the list of results. -/
theorem mem_of_mapM (mapped : items.mapM step = .ok results) {x : α} (member : x ∈ items) :
    ∃ y ∈ results, step x = .ok y := by
  induction mapM_eq_ok.mp mapped with
  | nil => cases member
  | cons stepped pairs inductionHypothesis =>
    rcases List.mem_cons.mp member with rfl | inRest
    · exact ⟨_, List.mem_cons_self, stepped⟩
    · obtain ⟨z, isResult, found⟩ := inductionHypothesis (mapM_eq_ok.mpr pairs) inRest
      exact ⟨z, List.mem_cons_of_mem _ isResult, found⟩

/-- Every result of a list of steps is that of an item. -/
theorem mem_of_mapM_result (mapped : items.mapM step = .ok results) {y : β}
    (isResult : y ∈ results) : ∃ x ∈ items, step x = .ok y := by
  induction mapM_eq_ok.mp mapped with
  | nil => cases isResult
  | cons stepped pairs inductionHypothesis =>
    rcases List.mem_cons.mp isResult with rfl | isLater
    · exact ⟨_, List.mem_cons_self, stepped⟩
    · obtain ⟨w, inRest, made⟩ := inductionHypothesis (mapM_eq_ok.mpr pairs) isLater
      exact ⟨w, List.mem_cons_of_mem _ inRest, made⟩

/-- The results of steps have a property exactly when the items have one that stands for it. -/
theorem forall_mem_mapM {before : α → Prop} {after : β → Prop}
    (each : ∀ x ∈ items, ∀ y, step x = .ok y → (after y ↔ before x))
    (mapped : items.mapM step = .ok results) :
    (∀ y ∈ results, after y) ↔ ∀ x ∈ items, before x := by
  constructor
  · intro all x member
    obtain ⟨y, isResult, stepped⟩ := mem_of_mapM mapped member
    exact (each x member y stepped).mp (all y isResult)
  · intro all y isResult
    obtain ⟨x, member, stepped⟩ := mem_of_mapM_result mapped isResult
    exact (each x member y stepped).mpr (all x member)

/-! ## What steps make of lists -/

/-- The results of a list of steps, seen through `left`, when each step determines its own. -/
theorem mapM_eq_map {left : β → γ} {right : α → γ}
    (each : ∀ x ∈ items, ∀ y, step x = .ok y → left y = right x)
    (mapped : items.mapM step = .ok results) : results.map left = items.map right := by
  induction mapM_eq_ok.mp mapped with
  | nil => rfl
  | cons stepped pairs inductionHypothesis =>
    have ⟨first, later⟩ := List.forall_mem_cons.mp each
    rw [List.map_cons, List.map_cons, first _ stepped,
      inductionHypothesis later (mapM_eq_ok.mpr pairs)]

/-- Steps that succeed on every item with results that look alike succeed on the list. -/
theorem mapM_alike {left : β → γ} {right : α → γ}
    (each : ∀ x ∈ items, ∃ y, step x = .ok y ∧ left y = right x) :
    ∃ results, items.mapM step = .ok results ∧ results.map left = items.map right := by
  obtain ⟨results, mapped⟩ := exists_ok_mapM.mpr fun x member =>
    (each x member).imp fun _ => And.left
  refine ⟨results, mapped, mapM_eq_map ?_ mapped⟩
  intro x member y stepped
  obtain ⟨z, alsoStepped, alike⟩ := each x member
  rwa [Except.ok.inj (stepped.symm.trans alsoStepped)]

/-- What each of a list of steps made can be turned into something related to its item. -/
theorem mapM_related {next : β → Except ε γ} {Related : α → γ → Prop}
    (each : ∀ x ∈ items, ∀ y, step x = .ok y → ∃ z, next y = .ok z ∧ Related x z)
    (mapped : items.mapM step = .ok results) :
    ∃ zs, results.mapM next = .ok zs ∧ List.Forall₂ Related items zs := by
  induction mapM_eq_ok.mp mapped with
  | nil => exact ⟨[], rfl, .nil⟩
  | cons stepped pairs inductionHypothesis =>
    have ⟨first, later⟩ := List.forall_mem_cons.mp each
    obtain ⟨z, made, related⟩ := first _ stepped
    obtain ⟨zs, restMade, restRelated⟩ := inductionHypothesis later (mapM_eq_ok.mpr pairs)
    exact ⟨z :: zs, mapM_eq_ok.mpr (.cons made (mapM_eq_ok.mp restMade)),
      .cons related restRelated⟩

/-- A list of successful steps undone by others. -/
theorem mapM_undone {undo : β → Except ε γ} {left : γ → δ} {right : α → δ}
    (each : ∀ x ∈ items, ∀ y, step x = .ok y → ∃ z, undo y = .ok z ∧ left z = right x)
    (mapped : items.mapM step = .ok results) :
    ∃ undone, results.mapM undo = .ok undone ∧ undone.map left = items.map right := by
  obtain ⟨undone, isUndone, alike⟩ := mapM_related each mapped
  refine ⟨undone, isUndone, ?_⟩
  clear each mapped isUndone
  induction alike with
  | nil => rfl
  | cons same _ inductionHypothesis => rw [List.map_cons, List.map_cons, same, inductionHypothesis]

/-- What a list of steps made can be turned into something that matches its items when what each
step made can be. -/
theorem exists_mapM_matching {undo : β → Except ε γ} {Matches : γ → α → Prop} {good : α → Prop}
    (each : ∀ x ∈ items, ∀ y, step x = .ok y → ((∃ z, undo y = .ok z ∧ Matches z x) ↔ good x))
    (mapped : items.mapM step = .ok results) :
    (∃ zs, results.mapM undo = .ok zs ∧ List.Forall₂ Matches zs items) ↔ ∀ x ∈ items, good x := by
  have pairs := mapM_eq_ok.mp mapped
  clear mapped
  simp only [mapM_eq_ok]
  induction pairs with
  | nil => exact iff_of_true ⟨[], .nil, .nil⟩ (by simp)
  | cons stepped _ inductionHypothesis =>
    have ⟨first, later⟩ := List.forall_mem_cons.mp each
    rw [List.forall_mem_cons]
    refine Iff.trans ?_ (and_congr (first _ stepped) (inductionHypothesis later))
    constructor
    · rintro ⟨_, _ | ⟨undone, othersUndone⟩, _ | ⟨same, othersSame⟩⟩
      exact ⟨⟨_, undone, same⟩, _, othersUndone, othersSame⟩
    · rintro ⟨⟨z, undone, same⟩, zs, othersUndone, othersSame⟩
      exact ⟨z :: zs, .cons undone othersUndone, .cons same othersSame⟩

/-- Steps that map to each other item by item map the list of their results. -/
theorem mapM_map_results {other : α → Except ε β} {after : β → β}
    (each : ∀ x ∈ items, ∀ y, step x = .ok y → other x = .ok (after y))
    (mapped : items.mapM step = .ok results) : items.mapM other = .ok (results.map after) := by
  induction mapM_eq_ok.mp mapped with
  | nil => rfl
  | cons stepped pairs inductionHypothesis =>
    have ⟨first, later⟩ := List.forall_mem_cons.mp each
    have rest := inductionHypothesis later (mapM_eq_ok.mpr pairs)
    exact mapM_eq_ok.mpr (.cons (first _ stepped) (mapM_eq_ok.mp rest))

end Except

/-! ## Numbered lists -/

namespace List

variable {α β γ : Type}

theorem map_flatten_eq_flatMap {lists : List (List β)} {f : β → γ} {g : α → List γ}
    {items : List α} (each : lists.map (List.map f) = items.map g) :
    lists.flatten.map f = items.flatMap g := by
  rw [List.map_flatten, each, List.flatMap_def]

/-- Numbering the items of a list does not matter to what does not look at the numbers. -/
theorem map_zipIdx_fst (f : α → β) (items : List α) :
    items.zipIdx.map (fun x => f x.1) = items.map f := by
  conv => rhs; rw [← List.zipIdx_map_fst 0 items, List.map_map]
  rfl

theorem zipIdx_map_left (f : α → β) (items : List α) :
    (items.map f).zipIdx = items.zipIdx.map fun x => (f x.1, x.2) := by
  rw [List.zipIdx_map]
  rfl

end List

namespace Except

variable {ε α β : Type} {step : α × Nat → Except ε β} {items : List α} {results : List β}

/-- Every item of a list of steps that are told where it stands has its result, too. -/
theorem mem_of_numbered (mapped : items.zipIdx.mapM step = .ok results) {x : α}
    (member : x ∈ items) : ∃ position, ∃ y ∈ results, step (x, position) = .ok y := by
  rw [← List.zipIdx_map_fst 0 items] at member
  obtain ⟨⟨_, position⟩, isNumbered, rfl⟩ := List.mem_map.mp member
  exact ⟨position, mem_of_mapM mapped isNumbered⟩

/-- A change of items that the steps do not see does not change what they come to. -/
theorem mapM_numbered_congr {change : α → α}
    (each : ∀ x position, step (change x, position) = step (x, position)) (items : List α) :
    (items.map change).zipIdx.mapM step = items.zipIdx.mapM step := by
  rw [List.zipIdx_map, List.mapM_map]
  exact congrArg (List.mapM · _) (funext fun x => each x.1 x.2)

theorem mapM_numbered_map {change : α → α} {after : β → β}
    (each : ∀ x ∈ items, ∀ position y, step (x, position) = .ok y →
      step (change x, position) = .ok (after y))
    (mapped : items.zipIdx.mapM step = .ok results) :
    (items.map change).zipIdx.mapM step = .ok (results.map after) := by
  rw [List.zipIdx_map_left, List.mapM_map]
  apply mapM_map_results _ mapped
  rintro ⟨x, position⟩ member y stepped
  have isItem : x ∈ items := by
    rw [← List.zipIdx_map_fst 0 items]
    exact List.mem_map.mpr ⟨(x, position), member, rfl⟩
  exact each x isItem position y stepped

end Except

end PlanArchive
