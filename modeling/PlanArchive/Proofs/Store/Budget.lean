import Mathlib.Data.List.Infix
import PlanArchive.Proofs.Store.Patches

/-!
# Which writes a limit lets through

A store in memory that was told to let a number of writes through is compared, call by call, with
the same store without faults. What uses the limit up is that a call asks to be let through, not
that it succeeds: a call that is refused for what is or is not at its place has used it up as well,
and only a patch that addresses no field is refused before it asks (`WriteCall.Counted`). As long as
fewer calls were counted than the limit says, both stores answer alike and hold the same; from then
on the limited store refuses every call that is counted and stays as it is.

So the limit is a number of successes exactly when no counted call fails on its own within it, or
nothing after it would have succeeded (`failAfter_letsFirst_iff`).
-/

namespace PlanArchive

/-- A call that writes to a store. -/
inductive WriteCall where
  | create (key : DocumentKey) (doc : Json)
  | replace (key : DocumentKey) (doc : Json) (demanded : Option VersionToken)
  | patch (key : DocumentKey) (patches : List Patch) (demanded : Option VersionToken)
  | delete (key : DocumentKey) (demanded : Option VersionToken)

namespace WriteCall

/-- The call asks the store to be let through: all do but a patch with a path that addresses no
field. -/
def Counted : WriteCall → Prop
  | .patch _ patches _ => ∀ patch ∈ patches, patch.WellPlaced
  | _ => True

instance (call : WriteCall) : Decidable call.Counted :=
  match call with
  | .create .. => .isTrue trivial
  | .replace .. => .isTrue trivial
  | .patch _ patches _ => inferInstanceAs (Decidable (∀ patch ∈ patches, patch.WellPlaced))
  | .delete .. => .isTrue trivial

/-- How many of some calls ask to be let through. -/
def counted (calls : List WriteCall) : Nat := calls.countP (·.Counted)

end WriteCall

namespace MemoryStore

open WriteCall (counted)

variable {s : MemoryStore} {call : WriteCall} {before : List WriteCall} {left limit : Nat}

/-- Makes a call; a deletion answers without a token. -/
def write (s : MemoryStore) : WriteCall → Written MemoryStore (Option VersionToken)
  | .create key doc => (s.create key doc).map (Except.map some) id
  | .replace key doc demanded => (s.replace key doc demanded).map (Except.map some) id
  | .patch key patches demanded => (s.patch key patches demanded).map (Except.map some) id
  | .delete key demanded => (s.delete key demanded).map (Except.map fun _ => none) id

/-- The store after calls in turn, whether they succeeded or not. -/
def after (s : MemoryStore) (calls : List WriteCall) : MemoryStore :=
  calls.foldl (fun s call => (s.write call).2) s

/-- The call succeeds on the store. -/
def Succeeds (s : MemoryStore) (call : WriteCall) : Prop := (s.write call).1.isOk

instance (s : MemoryStore) (call : WriteCall) : Decidable (s.Succeeds call) :=
  inferInstanceAs (Decidable (_ = true))

/-- How many of some calls in turn succeed. -/
def successes (s : MemoryStore) : List WriteCall → Nat
  | [] => 0
  | call :: rest => (if s.Succeeds call then 1 else 0) + (s.write call).2.successes rest

/-! ## One call -/

/-- A call that does not ask to be let through fails on every store for the same reason. -/
theorem write_of_not_counted (uncounted : ¬ call.Counted) :
    ∃ e, ∀ s : MemoryStore, s.write call = (.error e, s) := by
  cases call with
  | patch key patches demanded =>
    have uncollected := mt (Patch.exists_collectOnto []).mp uncounted
    cases collected : Patch.collect patches with
    | error e =>
      refine ⟨e, fun s => ?_⟩
      rw [write, patch, collected]
      rfl
    | ok fields => exact absurd ⟨fields, collected⟩ uncollected
  | _ => exact absurd trivial uncounted

@[simp] theorem contents_failAfter (s : MemoryStore) (left : Nat) :
    (s.failAfter left).contents = s.contents := rfl

@[simp] theorem contents_clearFaults (s : MemoryStore) : s.clearFaults.contents = s.contents := rfl

/-- What is at a place does not depend on the limit. -/
theorem current_failAfter (s : MemoryStore) (left : Nat) (key : DocumentKey)
    (demanded : Option VersionToken) :
    (s.failAfter left).current key demanded = s.clearFaults.current key demanded := rfl

/-- A write that asks to be let through is made within the limit, which goes down. -/
theorem admitting_failAfter_succ {α : Type} (write : MemoryStore → Written MemoryStore α) :
    (s.failAfter (left + 1)).admitting write = write (s.failAfter left) := rfl

theorem admitting_clearFaults {α : Type} (write : MemoryStore → Written MemoryStore α) :
    s.clearFaults.admitting write = write s.clearFaults := rfl

/-- A counted call within the limit does what it does without faults, and the limit goes down. -/
theorem write_failAfter_succ (isCounted : call.Counted) :
    (s.failAfter (left + 1)).write call =
      ((s.clearFaults.write call).1, (s.clearFaults.write call).2.failAfter left) := by
  cases call with
  | create key doc =>
    simp only [write, create, admitting_failAfter_succ, admitting_clearFaults, contents_failAfter,
      contents_clearFaults]
    cases s.contents.find? key <;> rfl
  | replace key doc demanded =>
    simp only [write, replace, admitting_failAfter_succ, admitting_clearFaults, current_failAfter]
    cases s.clearFaults.current key demanded <;> rfl
  | patch key patches demanded =>
    simp only [write, patch_of_wellPlaced isCounted, admitting_failAfter_succ,
      admitting_clearFaults, current_failAfter]
    cases s.clearFaults.current key demanded with
    | error e => rfl
    | ok item =>
      obtain ⟨content, old⟩ := item
      cases content <;> rfl
  | delete key demanded =>
    simp only [write, delete, admitting_failAfter_succ, admitting_clearFaults, current_failAfter]
    cases s.clearFaults.current key demanded <;> rfl

/-- A counted call beyond the limit is refused. -/
theorem write_failAfter_zero (isCounted : call.Counted) :
    (s.failAfter 0).write call = (.error injectedFailure, s.failAfter 0) := by
  cases call with
  | patch key patches demanded =>
    rw [write, patch_of_wellPlaced isCounted]
    rfl
  | _ => rfl

theorem faultless_write (faultless : s.Faultless) (call : WriteCall) :
    (s.write call).2.Faultless := by
  cases call with
  | create key doc => exact (touches_create s key doc).faultless faultless
  | replace key doc demanded => exact (touches_replace s key doc demanded).faultless faultless
  | patch key patches demanded => exact (touches_patch s key patches demanded).faultless faultless
  | delete key demanded => exact (touches_delete s key demanded).faultless faultless

theorem clearFaults_of_faultless (faultless : s.Faultless) : s.clearFaults = s := by
  rw [clearFaults, ← faultless]

/-- Only a counted call can succeed. -/
theorem Succeeds.isCounted (succeeds : s.Succeeds call) : call.Counted := by
  by_contra uncounted
  obtain ⟨e, fails⟩ := write_of_not_counted uncounted
  rw [Succeeds, fails s] at succeeds
  cases succeeds

/-! ## Calls in turn -/

@[simp] theorem after_nil (s : MemoryStore) : s.after [] = s := rfl

@[simp] theorem after_cons (s : MemoryStore) (call : WriteCall) (rest : List WriteCall) :
    s.after (call :: rest) = (s.write call).2.after rest := rfl

theorem after_append (s : MemoryStore) (before later : List WriteCall) :
    s.after (before ++ later) = (s.after before).after later :=
  List.foldl_append

theorem counted_cons (call : WriteCall) (rest : List WriteCall) :
    counted (call :: rest) = counted rest + if call.Counted then 1 else 0 := by
  simp [counted, List.countP_cons]

theorem counted_append (before later : List WriteCall) :
    counted (before ++ later) = counted before + counted later :=
  List.countP_append

theorem successes_append (s : MemoryStore) (before later : List WriteCall) :
    s.successes (before ++ later) = s.successes before + (s.after before).successes later := by
  induction before generalizing s with
  | nil => simp [successes]
  | cons call rest inductionHypothesis =>
    simp only [List.cons_append, successes, after_cons, inductionHypothesis]
    omega

theorem successes_append_singleton (succeeds : (s.after before).Succeeds call) :
    s.successes (before ++ [call]) = s.successes before + 1 := by
  simp [successes_append, successes, succeeds]

theorem successes_le_of_prefix {front calls : List WriteCall} (isPrefix : front <+: calls)
    (s : MemoryStore) : s.successes front ≤ s.successes calls := by
  obtain ⟨rest, rfl⟩ := isPrefix
  exact successes_append s front rest ▸ Nat.le_add_right ..

theorem successes_le_counted (s : MemoryStore) (calls : List WriteCall) :
    s.successes calls ≤ counted calls := by
  induction calls generalizing s with
  | nil => exact Nat.le_refl 0
  | cons call rest inductionHypothesis =>
    have ofRest := inductionHypothesis (s.write call).2
    rw [successes, counted_cons]
    by_cases succeeds : s.Succeeds call
    · simp only [succeeds, succeeds.isCounted, if_true]
      omega
    · simp only [succeeds, if_false]
      omega

/-- Among calls of which one succeeds there is a first one that does. -/
theorem exists_first_success {calls : List WriteCall} (someSucceed : s.successes calls ≠ 0) :
    ∃ before call later, calls = before ++ call :: later ∧ s.successes before = 0 ∧
      (s.after before).Succeeds call := by
  induction calls generalizing s with
  | nil => exact absurd rfl someSucceed
  | cons call rest inductionHypothesis =>
    by_cases succeeds : s.Succeeds call
    · exact ⟨[], call, rest, rfl, rfl, succeeds⟩
    · have amongRest : (s.write call).2.successes rest ≠ 0 := by
        simpa [successes, succeeds] using someSucceed
      obtain ⟨before, first, later, rfl, noneBefore, isFirst⟩ := inductionHypothesis amongRest
      exact ⟨call :: before, first, later, rfl, by simp [successes, succeeds, noneBefore], isFirst⟩

/-- Every number of counted calls up to that of all is reached somewhere among them. -/
theorem exists_prefix_counted {calls : List WriteCall} (enough : limit ≤ counted calls) :
    ∃ front, front <+: calls ∧ counted front = limit := by
  induction calls generalizing limit with
  | nil => exact ⟨[], List.nil_prefix, (Nat.le_zero.mp enough).symm⟩
  | cons call rest inductionHypothesis =>
    rw [counted_cons] at enough
    by_cases isZero : limit = 0
    · exact ⟨[], List.nil_prefix, isZero.symm⟩
    · have restEnough : limit - (if call.Counted then 1 else 0) ≤ counted rest := by omega
      obtain ⟨front, isPrefix, reached⟩ := inductionHypothesis restEnough
      refine ⟨call :: front, List.cons_prefix_cons.mpr ⟨rfl, isPrefix⟩, ?_⟩
      rw [counted_cons, reached]
      split <;> omega

/-- As long as the limit lasts, the stores with and without it hold the same. -/
theorem after_failAfter (faultless : s.Faultless) {calls : List WriteCall}
    (within : counted calls ≤ limit) :
    (s.failAfter limit).after calls = (s.after calls).failAfter (limit - counted calls) := by
  induction calls generalizing s limit with
  | nil => rfl
  | cons call rest inductionHypothesis =>
    have restFaultless := faultless_write faultless call
    rw [counted_cons] at within ⊢
    by_cases isCounted : call.Counted
    · rw [if_pos isCounted] at within ⊢
      obtain ⟨left, rfl⟩ : ∃ left, limit = left + 1 := ⟨limit - 1, by omega⟩
      rw [after_cons, write_failAfter_succ isCounted, clearFaults_of_faultless faultless,
        inductionHypothesis restFaultless (by omega), Nat.add_sub_add_right]
      rfl
    · obtain ⟨e, fails⟩ := write_of_not_counted isCounted
      rw [if_neg isCounted] at within ⊢
      rw [after_cons, fails, inductionHypothesis faultless within, after_cons, fails]
      rfl

/-- What is left of a limit after calls is what was not counted off. -/
theorem exists_after_failAfter (s : MemoryStore) (limit : Nat) (calls : List WriteCall) :
    ∃ t : MemoryStore, (s.failAfter limit).after calls = t.failAfter (limit - counted calls) := by
  induction calls generalizing s limit with
  | nil => exact ⟨s, rfl⟩
  | cons call rest inductionHypothesis =>
    rw [after_cons, counted_cons]
    by_cases isCounted : call.Counted
    · rw [if_pos isCounted]
      cases limit with
      | zero =>
        rw [write_failAfter_zero isCounted]
        simpa using inductionHypothesis s 0
      | succ left =>
        rw [write_failAfter_succ isCounted, Nat.add_sub_add_right]
        exact inductionHypothesis _ left
    · obtain ⟨e, fails⟩ := write_of_not_counted isCounted
      rw [if_neg isCounted, fails]
      exact inductionHypothesis s limit

theorem faultless_after (faultless : s.Faultless) (calls : List WriteCall) :
    (s.after calls).Faultless := by
  induction calls generalizing s with
  | nil => exact faultless
  | cons call rest inductionHypothesis => exact inductionHypothesis (faultless_write faultless call)

/-! ## A limit and the same calls without faults -/

/-- What calls on a store with a limit come to, beside what they come to without faults. -/
structure Limited (s : MemoryStore) (limit : Nat) (before : List WriteCall) (call : WriteCall) :
    Prop where
  /-- As long as the limit lasts, both stores hold the same and have minted as many tokens. -/
  alike : counted before ≤ limit → (s.failAfter limit).after before =
    (s.clearFaults.after before).failAfter (limit - counted before)
  /-- A call that is not counted fails on its own on both stores and changes neither. -/
  uncounted : ¬ call.Counted → ∃ e,
    ((s.failAfter limit).after before).write call = (.error e, (s.failAfter limit).after before) ∧
    (s.clearFaults.after before).write call = (.error e, s.clearFaults.after before)
  /-- A call that is counted within the limit does what it does without faults. -/
  within : call.Counted → counted before < limit →
    ((s.failAfter limit).after before).write call =
      (((s.clearFaults.after before).write call).1,
        ((s.clearFaults.after before).write call).2.failAfter (limit - (counted before + 1)))
  /-- A call that is counted beyond the limit is refused and changes nothing. -/
  beyond : call.Counted → limit ≤ counted before →
    ((s.failAfter limit).after before).write call =
      (.error injectedFailure, (s.failAfter limit).after before)

theorem limited (s : MemoryStore) (limit : Nat) (before : List WriteCall) (call : WriteCall) :
    s.Limited limit before call where
  alike := after_failAfter (s := s.clearFaults) rfl
  uncounted := fun isUncounted =>
    have ⟨e, fails⟩ := write_of_not_counted isUncounted
    ⟨e, fails _, fails _⟩
  within := by
    intro isCounted fewer
    have alike : (s.failAfter limit).after before =
        (s.clearFaults.after before).failAfter (limit - counted before) :=
      after_failAfter (s := s.clearFaults) rfl (Nat.le_of_lt fewer)
    obtain ⟨left, isLeft⟩ : ∃ left, limit - counted before = left + 1 :=
      ⟨limit - counted before - 1, by omega⟩
    have stillFaultless : (s.clearFaults.after before).Faultless :=
      faultless_after (s := s.clearFaults) rfl before
    rw [alike, isLeft, write_failAfter_succ isCounted, clearFaults_of_faultless stillFaultless,
      show limit - (counted before + 1) = left by omega]
  beyond := by
    intro isCounted reached
    obtain ⟨t, isLeft⟩ := exists_after_failAfter s limit before
    rw [isLeft, Nat.sub_eq_zero_of_le reached]
    exact write_failAfter_zero isCounted

/-- With a limit those calls succeed that do without faults and are counted within it. -/
theorem succeeds_failAfter_iff (s : MemoryStore) (limit : Nat) (before : List WriteCall)
    (call : WriteCall) :
    ((s.failAfter limit).after before).Succeeds call ↔
      (s.clearFaults.after before).Succeeds call ∧ counted before < limit := by
  have stores := s.limited limit before call
  by_cases isCounted : call.Counted
  · by_cases fewer : counted before < limit
    · simp [Succeeds, stores.within isCounted fewer, fewer]
    · simp [Succeeds, stores.beyond isCounted (Nat.le_of_not_lt fewer), fewer, Except.isOk,
        Except.toBool]
  · obtain ⟨e, onLimited, onFree⟩ := stores.uncounted isCounted
    simp [Succeeds, onLimited, onFree, Except.isOk, Except.toBool]

/-- Of some calls on a store with a limit exactly so many succeed, namely the first of those that
succeed without faults; every later one of these is unavailable and changes nothing. -/
structure LetsFirst (s : MemoryStore) (limit : Nat) (calls : List WriteCall) : Prop where
  first : ∀ before call, before ++ [call] <+: calls → (s.clearFaults.after before).Succeeds call →
    s.clearFaults.successes before < limit → ((s.failAfter limit).after before).Succeeds call
  later : ∀ before call, before ++ [call] <+: calls → (s.clearFaults.after before).Succeeds call →
    limit ≤ s.clearFaults.successes before →
    ∃ reason t, ((s.failAfter limit).after before).write call = (.error (.unavailable reason), t) ∧
      t.contents = ((s.failAfter limit).after before).contents
  others : ∀ before call, before ++ [call] <+: calls →
    ((s.failAfter limit).after before).Succeeds call → (s.clearFaults.after before).Succeeds call

/-- Whatever the calls are, no others succeed with a limit than without faults, and those beyond the
limit are refused; so it is only within the limit that success can be missed. -/
theorem letsFirst_iff_within (s : MemoryStore) (limit : Nat) (calls : List WriteCall) :
    s.LetsFirst limit calls ↔ ∀ before call, before ++ [call] <+: calls →
      (s.clearFaults.after before).Succeeds call → s.clearFaults.successes before < limit →
      counted before < limit := by
  constructor
  · intro letsFirst before call isPrefix succeeds fewer
    have stillSucceeds := letsFirst.first before call isPrefix succeeds fewer
    exact ((succeeds_failAfter_iff ..).mp stillSucceeds).2
  · intro within
    refine ⟨fun before call isPrefix succeeds fewer => ?_, fun before call _ succeeds reached => ?_,
      fun before call _ succeeds => ((succeeds_failAfter_iff ..).mp succeeds).1⟩
    · exact (succeeds_failAfter_iff ..).mpr ⟨succeeds, within before call isPrefix succeeds fewer⟩
    · have noFewer := Nat.le_trans reached (s.clearFaults.successes_le_counted before)
      exact ⟨_, _, (s.limited limit before call).beyond succeeds.isCounted noFewer, rfl⟩

/-- The limit that a store in memory is given counts the calls that ask to be let through, and not
those that succeed. Within it a call does what it does without faults, beyond it every call that is
counted is refused and changes nothing. Hence exactly so many calls as the limit says succeed, the
first of those that would, if and only if none of the calls that use the limit up fails on its own,
or no call after them would succeed. -/
theorem failAfter_letsFirst_iff (s : MemoryStore) (limit : Nat) :
    (∀ before call, s.Limited limit before call) ∧
    ∀ calls, s.LetsFirst limit calls ↔ ∀ front, front <+: calls → counted front = limit →
      s.clearFaults.successes front = limit ∨
        s.clearFaults.successes calls = s.clearFaults.successes front := by
  refine ⟨s.limited limit, fun calls => ?_⟩
  rw [letsFirst_iff_within]
  constructor
  · rintro within front ⟨rest, rfl⟩ isLimit
    refine or_iff_not_imp_left.mpr fun someFail => ?_
    have fewer : s.clearFaults.successes front < limit :=
      Nat.lt_of_le_of_ne (isLimit ▸ successes_le_counted ..) someFail
    suffices noneLater : (s.clearFaults.after front).successes rest = 0 by
      rw [successes_append, noneLater, Nat.add_zero]
    -- The first call that succeeds after these would have to be counted within the limit.
    by_contra someLater
    obtain ⟨skipped, call, later, rfl, noneSkipped, succeeds⟩ := exists_first_success someLater
    have isWithin : counted (front ++ skipped) < limit := by
      refine within (front ++ skipped) call ⟨later, by simp⟩ ?_ ?_
      · rwa [after_append]
      · rwa [successes_append, noneSkipped, Nat.add_zero]
    rw [counted_append] at isWithin
    omega
  · intro frontal before call isPrefix succeeds fewer
    by_contra reached
    obtain ⟨front, isFront, isLimit⟩ := exists_prefix_counted (Nat.le_of_not_lt reached)
    have isShorter := successes_le_of_prefix isFront s.clearFaults
    have isLonger := successes_le_of_prefix isPrefix s.clearFaults
    rw [successes_append_singleton succeeds] at isLonger
    have beforeCall : front <+: calls :=
      isFront.trans ((List.prefix_append before [call]).trans isPrefix)
    rcases frontal front beforeCall isLimit with allSucceed | noneLater
    · omega
    · omega

/-- A limit of one is used up by a creation at a place that is taken; a limit of two is not by a
patch that addresses no field, and lasts for the two calls that succeed. -/
theorem failAfter_letsFirst_iff_refusals :
    let taken : DocumentKey := ⟨"p", .plans, Uuid.nil⟩
    let free : DocumentKey := ⟨"p", .actions, Uuid.nil⟩
    let s := (empty.commit taken .null).2
    let misplaced : WriteCall := .patch taken [⟨"/a/b", .null⟩] none
    ((s.failAfter 1).after [.create taken .null]).write (.create free .null)
        = (.error injectedFailure, (s.failAfter 1).after [.create taken .null]) ∧
      s.LetsFirst 2 [misplaced, .create free .null, .delete taken none, .create free .null] := by
  intro taken free s misplaced
  refine ⟨((failAfter_letsFirst_iff s 1).1 [.create taken .null] (.create free .null)).beyond
    (by decide) (by decide), ((failAfter_letsFirst_iff s 2).2 _).mpr fun front isPrefix => ?_⟩
  have each : ∀ front ∈ List.inits
      [misplaced, .create free .null, .delete taken none, .create free .null],
      counted front = 2 → s.clearFaults.successes front = 2 ∨
        s.clearFaults.successes [misplaced, .create free .null, .delete taken none,
          .create free .null] = s.clearFaults.successes front := by
    decide +kernel
  exact each front ((List.mem_inits ..).mpr isPrefix)

/-- A creation at a place that is taken uses a limit of one up: the next one is refused, although
it is the first that would succeed. -/
theorem refused_creation_uses_limit :
    let taken : DocumentKey := ⟨"p", .plans, Uuid.nil⟩
    let free : DocumentKey := ⟨"p", .plans, ⟨1, by decide⟩⟩
    let s := (empty.commit taken .null).2
    ¬ s.LetsFirst 1 [.create taken .null, .create free .null] := by
  intro taken free s letsFirst
  have succeeds := letsFirst.first [.create taken .null] (.create free .null)
    (List.prefix_refl _) (by decide +kernel) (by decide +kernel)
  revert succeeds
  decide +kernel

end MemoryStore

end PlanArchive
