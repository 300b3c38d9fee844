import PlanArchive.Plan.Entities

/-!
# Plans as documents keep them

A document writes nothing for an absent identifier and zero for an absent point in time, so that
the nil identifier and every point in time up to the epoch read back as absent. Numbers of
nanoseconds have none for leap seconds, so that a point in time within one reads back as the one
outside of them that is as far from the epoch. The normal form of a plan has these values as they
are read and is the plan itself in everything else, so that storing it once more loses nothing
(`Plan.normal_normal`).
-/

namespace PlanArchive

/-- The point in time, unless it is one that stands for none. -/
def Instant.afterEpoch? (t : Option Instant) : Option Instant := t.filter fun t => 0 < t.sinceEpoch

/-- The point in time outside of leap seconds that is as far from the epoch. -/
def Instant.regular (t : Instant) : Instant := ofNanos t.sinceEpoch

/-- The point in time as a number of nanoseconds keeps it. -/
def Instant.kept? (t : Option Instant) : Option Instant := (afterEpoch? t).map regular

/-- The identifier, unless it is the one that stands for none. -/
def Uuid.notNil? (id : Option Uuid) : Option Uuid := id.filter fun id => !id.isNil

/-- The state as its document keeps it. -/
def State.normal (s : State) : State :=
  { s with start := Instant.kept? s.start, finish := Instant.kept? s.finish }

/-- The attempt as its text keeps it. -/
def Attempt.normal (a : Attempt) : Attempt :=
  { a with start := Instant.kept? a.start, finish := Instant.kept? a.finish }

/-- The action as its document keeps it. -/
def Action.normal (a : Action) : Action :=
  { a with
    key := Uuid.notNil? a.key
    attempts := a.attempts.map Attempt.normal
    state := a.state.normal }

/-- The checks as their documents keep them. -/
def Checks.normal (c : Checks) : Checks :=
  { c with
    key := Uuid.notNil? c.key
    actions := c.actions.map Action.normal
    state := c.state.normal }

/-- The sequence as its documents keep it. -/
def Sequence.normal (s : Sequence) : Sequence :=
  { s with
    key := Uuid.notNil? s.key
    actions := s.actions.map Action.normal
    state := s.state.normal }

/-- The block as its documents keep it. -/
def Block.normal (b : Block) : Block :=
  { b with
    key := Uuid.notNil? b.key
    checks := b.checks.map (Option.map Checks.normal)
    sequences := b.sequences.map Sequence.normal
    state := b.state.normal }

/-- The plan as its documents keep it. -/
def Plan.normal (p : Plan) : Plan :=
  { p with
    groupId := Uuid.notNil? p.groupId
    checks := p.checks.map (Option.map Checks.normal)
    blocks := p.blocks.map Block.normal
    state := p.state.normal
    submitTime := Instant.kept? p.submitTime }

/-! ## Points in time outside of leap seconds -/

namespace Instant

variable {t : Instant}

@[simp] theorem sinceEpoch_ofNanos (n : Int) : (ofNanos n).sinceEpoch = n := by
  simp only [ofNanos, sinceEpoch]
  omega

theorem regular_ofNanos (n : Int) : (ofNanos n).regular = ofNanos n := by
  rw [regular, sinceEpoch_ofNanos]

/-- Only points in time within a leap second are changed. -/
theorem regular_eq_self_iff : t.regular = t ↔ t.nanos < 1000000000 := by
  obtain ⟨seconds, nanos, nanos_lt⟩ := t
  simp only [regular, ofNanos, sinceEpoch, Instant.mk.injEq]
  omega

theorem kept?_some (t : Instant) :
    kept? (some t) = if 0 < t.sinceEpoch then some t.regular else none := by
  by_cases positive : 0 < t.sinceEpoch <;> simp [kept?, afterEpoch?, Option.filter, positive]

theorem kept?_some_ofNanos {n : Int} (positive : 0 < n) :
    kept? (some (ofNanos n)) = some (ofNanos n) := by
  rw [kept?_some, sinceEpoch_ofNanos, if_pos positive, regular_ofNanos]

end Instant

/-! ## Normal forms are kept as they are -/

@[simp] theorem Instant.kept?_kept? (t : Option Instant) : kept? (kept? t) = kept? t := by
  cases t with
  | none => rfl
  | some t =>
    rw [kept?_some]
    split
    · exact kept?_some_ofNanos ‹_›
    · rfl

@[simp] theorem Uuid.notNil?_notNil? (id : Option Uuid) : notNil? (notNil? id) = notNil? id := by
  simp [notNil?, Option.filter_filter]

@[simp] theorem State.normal_normal (s : State) : s.normal.normal = s.normal := by
  simp only [normal, Instant.kept?_kept?]

@[simp] theorem Attempt.normal_normal (a : Attempt) : a.normal.normal = a.normal := by
  simp only [normal, Instant.kept?_kept?]

@[simp] theorem Action.normal_normal (a : Action) : a.normal.normal = a.normal := by
  simp [normal]

@[simp] theorem Checks.normal_normal (c : Checks) : c.normal.normal = c.normal := by
  simp [normal]

@[simp] theorem Sequence.normal_normal (q : Sequence) : q.normal.normal = q.normal := by
  simp [normal]

theorem Slots.normal_normal (slots : Slots (Option Checks)) :
    (slots.map (Option.map Checks.normal)).map (Option.map Checks.normal) =
      slots.map (Option.map Checks.normal) := by
  have each (c : Option Checks) :
      (c.map Checks.normal).map Checks.normal = c.map Checks.normal := by
    cases c with
    | none => rfl
    | some c => simp
  simp only [map, each]

@[simp] theorem Block.normal_normal (b : Block) : b.normal.normal = b.normal := by
  simp [normal, Slots.normal_normal]

/-- A plan that was stored and read is stored and read as it is. -/
@[simp] theorem Plan.normal_normal (p : Plan) : p.normal.normal = p.normal := by
  simp [normal, Slots.normal_normal]

end PlanArchive
