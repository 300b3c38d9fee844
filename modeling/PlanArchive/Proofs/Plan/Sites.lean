import Mathlib.Data.List.Basic
import PlanArchive.Plan.Entities
import PlanArchive.Plan.Path
import PlanArchive.Proofs.Plan.States
import PlanArchive.Proofs.Steps

/-!
# The sites of a plan

A site is an entity together with the path that leads to it, so that entities with the same
identifier are told apart. `Plan.sites` lists those of a plan in the order of a commit. What the
list is does not rest on how it is made: its sites are exactly what `Plan.focus?` finds at the
paths of the plan (`Plan.mem_sites_iff`), and no site stands before one whose path leads through it
(`Plan.childrenFirst_sites`), so that each stands behind all that is below it, and none is listed
twice. The entities and the states of a plan are read off its sites (`Plan.map_ref_sites`,
`Plan.map_entityState_sites`).
-/

namespace PlanArchive

/-- An entity of a plan with the path to it. -/
structure Site where
  path : List PathStep
  entity : Entity

namespace Site

/-- The entity of a site by kind and identifier. -/
def ref (s : Site) : EntityRef := (s.entity.kind, s.entity.id)

/-- The entity of a site with its state. -/
def entityState (s : Site) : EntityState := ⟨s.entity.kind, s.entity.id, s.entity.state⟩

/-- The site as it is seen from one step above. -/
def below (step : PathStep) (s : Site) : Site := ⟨step :: s.path, s.entity⟩

end Site

/-- The sites of a child, with the step to the child. -/
abbrev Branch := PathStep × List Site

/-- The sites of branches, each below its step. -/
def Branch.sites (branches : List Branch) : List Site :=
  branches.flatMap fun branch => branch.2.map (Site.below branch.1)

/-- The sites of an entity: those of its branches, and its own. -/
def Site.under (branches : List Branch) (own : Entity) : List Site :=
  Branch.sites branches ++ [⟨[], own⟩]

/-- The branches of the items of a list, each with the step of its index. -/
def Branch.numbered {α : Type} (step : Nat → PathStep) (sites : α → List Site) (items : List α) :
    List Branch :=
  items.zipIdx.map fun (x, index) => (step index, sites x)

/-! ## The sites of each kind of entity -/

/-- The action alone. -/
def Action.sites (x : Action) : List Site := Site.under [] (.action x)

/-- The actions of the checks and the checks. -/
def Checks.sites (c : Checks) : List Site :=
  Site.under (Branch.numbered .action Action.sites c.actions) (.checks c)

/-- The checks that are there with their slots, in the order of the slots. -/
def Slots.occupied (slots : Slots (Option Checks)) : List (Slot × Checks) :=
  slots.entries.filterMap fun (slot, c) => c.map fun c => (slot, c)

/-- The branches of the checks in slots. -/
def Slots.branches (slots : Slots (Option Checks)) : List Branch :=
  slots.occupied.map fun (slot, c) => (.checks slot, c.sites)

/-- The actions of the sequence and the sequence. -/
def Sequence.sites (q : Sequence) : List Site :=
  Site.under (Branch.numbered .action Action.sites q.actions) (.sequence q)

/-- The checks, the sequences and the block. -/
def Block.sites (b : Block) : List Site :=
  Site.under (b.checks.branches ++ Branch.numbered .sequence Sequence.sites b.sequences) (.block b)

/-- Every site of the plan. -/
def Plan.sites (p : Plan) : List Site :=
  Site.under (p.checks.branches ++ Branch.numbered .block Block.sites p.blocks) (.plan p)

theorem Branch.sites_append (branches others : List Branch) :
    sites (branches ++ others) = sites branches ++ sites others :=
  List.flatMap_append

/-! ## Where the entities are -/

theorem Site.nil_mem_under {branches : List Branch} {own e : Entity} :
    ⟨[], e⟩ ∈ under branches own ↔ e = own := by
  simp [under, Branch.sites, below]

theorem Site.cons_mem_under {branches : List Branch} {own e : Entity} {step : PathStep}
    {path : List PathStep} :
    ⟨step :: path, e⟩ ∈ under branches own ↔
      ∃ sites, (step, sites) ∈ branches ∧ ⟨path, e⟩ ∈ sites := by
  simp only [under, Branch.sites, List.mem_append, List.mem_flatMap, List.mem_map,
    List.mem_singleton]
  constructor
  · rintro (⟨⟨_, sites⟩, isBranch, s, member, same⟩ | same)
    · cases same
      exact ⟨sites, isBranch, member⟩
    · cases same
  · rintro ⟨sites, isBranch, member⟩
    exact .inl ⟨_, isBranch, _, member, rfl⟩

theorem Branch.mem_numbered {α : Type} {step : Nat → PathStep} {sites : α → List Site}
    {items : List α} {branch : Branch} :
    branch ∈ numbered step sites items ↔
      ∃ index x, items[index]? = some x ∧ branch = (step index, sites x) := by
  simp only [numbered, List.mem_map, Prod.exists, List.mem_zipIdx_iff_getElem?]
  constructor
  · rintro ⟨x, index, isItem, rfl⟩
    exact ⟨index, x, isItem, rfl⟩
  · rintro ⟨index, x, isItem, rfl⟩
    exact ⟨x, index, isItem, rfl⟩

theorem Slots.mem_occupied {slots : Slots (Option Checks)} {slot : Slot} {c : Checks} :
    (slot, c) ∈ slots.occupied ↔ slots.get slot = some c := by
  have isSlot : slot ∈ Slot.all := by cases slot <;> decide
  simp only [occupied, entries, List.mem_filterMap, List.mem_map, Option.map_eq_some_iff]
  constructor
  · rintro ⟨_, ⟨_, _, rfl⟩, _, isThere, same⟩
    cases same
    exact isThere
  · exact fun isThere => ⟨_, ⟨slot, isSlot, rfl⟩, c, isThere, rfl⟩

theorem Slots.mem_branches {slots : Slots (Option Checks)} {branch : Branch} :
    branch ∈ slots.branches ↔
      ∃ slot c, slots.get slot = some c ∧ branch = (.checks slot, c.sites) := by
  simp only [branches, List.mem_map, Prod.exists, mem_occupied, eq_comm]

/-- The entity at a path, if there is one. -/
def Plan.at? (p : Plan) (path : List PathStep) : Option Entity := (p.focus? path).map Focus.entity

namespace Focus

variable {α β : Type}

theorem entity_map (f : α → β) (focus : Option (Focus α)) :
    (focus.map (map f)).map entity = focus.map entity := by
  rw [Option.map_map]
  rfl

theorem entity_inList? {items : List α} {index : Nat} {inItem : α → Option (Focus α)}
    {e : Entity} :
    (inList? items index inItem).map entity = some e ↔
      ∃ x, items[index]? = some x ∧ (inItem x).map entity = some e := by
  cases isItem : items[index]? with
  | none => simp [inList?, isItem]
  | some x =>
    have inThis : (inList? items index inItem).map entity = (inItem x).map entity := by
      cases found : inItem x <;> simp [inList?, isItem, found, map]
    simp [inThis]

/-- What is found in an item of a list is found below the step of its index. -/
theorem entity_inList?_iff {items : List α} {index : Nat} {inItem : α → Option (Focus α)}
    {step : Nat → PathStep} (injective : ∀ m n, step m = step n → m = n) {sites : α → List Site}
    {path : List PathStep} {e : Entity}
    (each : ∀ x, (inItem x).map entity = some e ↔ ⟨path, e⟩ ∈ sites x) :
    (inList? items index inItem).map entity = some e ↔
      ∃ below, (step index, below) ∈ Branch.numbered step sites items ∧ ⟨path, e⟩ ∈ below := by
  simp only [entity_inList?, Branch.mem_numbered, each]
  constructor
  · rintro ⟨x, isItem, member⟩
    exact ⟨_, ⟨index, x, isItem, rfl⟩, member⟩
  · rintro ⟨_, ⟨_, x, isItem, same⟩, member⟩
    obtain ⟨sameStep, rfl⟩ := Prod.mk.inj same
    cases injective _ _ sameStep
    exact ⟨x, isItem, member⟩

end Focus

theorem Action.entity_focusIn? {actions : List Action} {step : PathStep} {path : List PathStep}
    {e : Entity} :
    (focusIn? actions (step :: path)).map Focus.entity = some e ↔
      ∃ below, (step, below) ∈ Branch.numbered .action sites actions ∧ ⟨path, e⟩ ∈ below := by
  cases step with
  | action index =>
    cases path with
    | nil =>
      refine Focus.entity_inList?_iff (fun _ _ => PathStep.action.inj) fun x => ?_
      simp [sites, Site.nil_mem_under, eq_comm]
    | cons next rest => simp [focusIn?, Branch.mem_numbered, sites, Site.cons_mem_under]
  | _ => simp [focusIn?, Branch.mem_numbered]

theorem Checks.mem_sites {c : Checks} {path : List PathStep} {e : Entity} :
    ⟨path, e⟩ ∈ c.sites ↔ (c.focus? path).map Focus.entity = some e := by
  cases path with
  | nil => simp [sites, Site.nil_mem_under, focus?, eq_comm]
  | cons step path =>
    rw [sites, Site.cons_mem_under, focus?, Focus.entity_map, Action.entity_focusIn?]
    simp

theorem Sequence.mem_sites {q : Sequence} {path : List PathStep} {e : Entity} :
    ⟨path, e⟩ ∈ q.sites ↔ (q.focus? path).map Focus.entity = some e := by
  cases path with
  | nil => simp [sites, Site.nil_mem_under, focus?, eq_comm]
  | cons step path =>
    rw [sites, Site.cons_mem_under, focus?, Focus.entity_map, Action.entity_focusIn?]
    simp

theorem Checks.entity_focusIn? {slots : Slots (Option Checks)} {slot : Slot}
    {path : List PathStep} {e : Entity} :
    (focusIn? slots slot path).map Focus.entity = some e ↔
      ∃ below, (.checks slot, below) ∈ slots.branches ∧ ⟨path, e⟩ ∈ below := by
  have inSlot : (focusIn? slots slot path).map Focus.entity =
      (slots.get slot).bind fun c => (c.focus? path).map Focus.entity := by
    cases isThere : slots.get slot with
    | none => simp [focusIn?, isThere]
    | some c => cases found : c.focus? path <;> simp [focusIn?, isThere, found, Focus.map]
  rw [inSlot, Option.bind_eq_some_iff]
  constructor
  · rintro ⟨c, isThere, found⟩
    exact ⟨_, Slots.mem_branches.mpr ⟨slot, c, isThere, rfl⟩, mem_sites.mpr found⟩
  · rintro ⟨below, isBranch, member⟩
    obtain ⟨_, c, isThere, same⟩ := Slots.mem_branches.mp isBranch
    cases same
    exact ⟨c, isThere, mem_sites.mp member⟩

theorem Block.mem_sites {b : Block} {path : List PathStep} {e : Entity} :
    ⟨path, e⟩ ∈ b.sites ↔ (b.focus? path).map Focus.entity = some e := by
  cases path with
  | nil => simp [sites, Site.nil_mem_under, focus?, eq_comm]
  | cons step path =>
    rw [sites, Site.cons_mem_under]
    cases step with
    | checks slot =>
      rw [focus?, Focus.entity_map, Checks.entity_focusIn?]
      simp [Branch.mem_numbered]
    | sequence index =>
      rw [focus?, Focus.entity_map, Focus.entity_inList?_iff (fun _ _ => PathStep.sequence.inj)
        fun x => Sequence.mem_sites.symm]
      simp [Slots.mem_branches]
    | _ => simp [focus?, Branch.mem_numbered, Slots.mem_branches]

/-- The sites of a plan are what there is at its paths. -/
theorem Plan.mem_sites_iff {p : Plan} {path : List PathStep} {e : Entity} :
    ⟨path, e⟩ ∈ p.sites ↔ p.at? path = some e := by
  cases path with
  | nil => simp [sites, Site.nil_mem_under, at?, focus?, eq_comm]
  | cons step path =>
    rw [sites, Site.cons_mem_under, at?]
    cases step with
    | checks slot =>
      rw [focus?, Focus.entity_map, Checks.entity_focusIn?]
      simp [Branch.mem_numbered]
    | block index =>
      rw [focus?, Focus.entity_map, Focus.entity_inList?_iff (fun _ _ => PathStep.block.inj)
        fun x => Block.mem_sites.symm]
      simp [Slots.mem_branches]
    | _ => simp [focus?, Branch.mem_numbered, Slots.mem_branches]

/-! ## Children first -/

/-- No site stands before one that is reached through it. -/
def ChildrenFirst (sites : List Site) : Prop :=
  sites.Pairwise fun earlier later => ¬ earlier.path <+: later.path

/-- Different branches start with different steps. -/
def Branch.Apart (branches : List Branch) : Prop :=
  branches.Pairwise fun first second => first.1 ≠ second.1

theorem Site.childrenFirst_under {branches : List Branch} {own : Entity}
    (apart : Branch.Apart branches) (each : ∀ branch ∈ branches, ChildrenFirst branch.2) :
    ChildrenFirst (under branches own) := by
  refine List.pairwise_append.mpr
    ⟨List.pairwise_flatMap.mpr ⟨?_, ?_⟩, List.pairwise_singleton .., ?_⟩
  · intro branch isBranch
    refine List.pairwise_map.mpr ((each branch isBranch).imp fun apart through => ?_)
    exact apart (List.cons_prefix_cons.mp through).2
  · refine apart.imp fun different first isFirst second isSecond through => ?_
    obtain ⟨_, _, rfl⟩ := List.mem_map.mp isFirst
    obtain ⟨_, _, rfl⟩ := List.mem_map.mp isSecond
    exact different (List.cons_prefix_cons.mp through).1
  · -- The path of the entity itself is empty.
    intro first isFirst second isSecond through
    obtain ⟨_, _, isBelow⟩ := List.mem_flatMap.mp isFirst
    obtain ⟨_, _, rfl⟩ := List.mem_map.mp isBelow
    cases List.mem_singleton.mp isSecond
    cases List.prefix_nil.mp through

theorem Branch.apart_numbered {α : Type} {step : Nat → PathStep}
    (injective : ∀ m n, step m = step n → m = n) (sites : α → List Site) (items : List α) :
    Apart (numbered step sites items) := by
  have indices : (items.zipIdx.map Prod.snd).Pairwise (· ≠ ·) := by
    rw [List.zipIdx_map_snd]
    exact List.nodup_range'
  refine List.pairwise_map.mpr ((List.pairwise_map.mp indices).imp fun different same => ?_)
  exact different (injective _ _ same)

theorem Slots.apart_branches (slots : Slots (Option Checks)) : Branch.Apart slots.branches := by
  refine List.pairwise_map.mpr (List.pairwise_filterMap.mpr (List.pairwise_map.mpr ?_))
  have different : Slot.all.Pairwise (· ≠ ·) := by decide
  refine different.imp fun apart first isFirst second isSecond same => apart ?_
  obtain ⟨_, _, rfl⟩ := Option.map_eq_some_iff.mp isFirst
  obtain ⟨_, _, rfl⟩ := Option.map_eq_some_iff.mp isSecond
  exact PathStep.checks.inj same

/-- The branches of checks and of numbered items, which start with steps of their own. -/
theorem Branch.apart_append {α : Type} {step : Nat → PathStep} (slots : Slots (Option Checks))
    (injective : ∀ m n, step m = step n → m = n) (notChecks : ∀ slot n, .checks slot ≠ step n)
    (sites : α → List Site) (items : List α) :
    Apart (slots.branches ++ numbered step sites items) := by
  refine List.pairwise_append.mpr ⟨slots.apart_branches, apart_numbered injective sites items, ?_⟩
  intro first isFirst second isSecond
  obtain ⟨slot, _, _, rfl⟩ := Slots.mem_branches.mp isFirst
  obtain ⟨index, _, _, rfl⟩ := mem_numbered.mp isSecond
  exact notChecks slot index

theorem Branch.childrenFirst_numbered {α : Type} {step : Nat → PathStep} {sites : α → List Site}
    (each : ∀ x, ChildrenFirst (sites x)) (items : List α) :
    ∀ branch ∈ numbered step sites items, ChildrenFirst branch.2 := by
  intro branch isBranch
  obtain ⟨_, x, _, rfl⟩ := mem_numbered.mp isBranch
  exact each x

theorem Action.childrenFirst_sites (x : Action) : ChildrenFirst x.sites :=
  Site.childrenFirst_under .nil (by simp)

theorem Checks.childrenFirst_sites (c : Checks) : ChildrenFirst c.sites :=
  Site.childrenFirst_under (Branch.apart_numbered (fun _ _ => PathStep.action.inj) ..)
    (Branch.childrenFirst_numbered Action.childrenFirst_sites c.actions)

theorem Sequence.childrenFirst_sites (q : Sequence) : ChildrenFirst q.sites :=
  Site.childrenFirst_under (Branch.apart_numbered (fun _ _ => PathStep.action.inj) ..)
    (Branch.childrenFirst_numbered Action.childrenFirst_sites q.actions)

theorem Slots.childrenFirst_branches (slots : Slots (Option Checks)) :
    ∀ branch ∈ slots.branches, ChildrenFirst branch.2 := by
  intro branch isBranch
  obtain ⟨_, c, _, rfl⟩ := mem_branches.mp isBranch
  exact c.childrenFirst_sites

theorem Block.childrenFirst_sites (b : Block) : ChildrenFirst b.sites := by
  refine Site.childrenFirst_under
    (Branch.apart_append b.checks (fun _ _ => PathStep.sequence.inj) (by simp) ..) ?_
  exact List.forall_mem_append.mpr ⟨b.checks.childrenFirst_branches,
    Branch.childrenFirst_numbered Sequence.childrenFirst_sites b.sequences⟩

/-- Every entity of a plan is listed behind all that is below it. -/
theorem Plan.childrenFirst_sites (p : Plan) : ChildrenFirst p.sites := by
  refine Site.childrenFirst_under
    (Branch.apart_append p.checks (fun _ _ => PathStep.block.inj) (by simp) ..) ?_
  exact List.forall_mem_append.mpr ⟨p.checks.childrenFirst_branches,
    Branch.childrenFirst_numbered Block.childrenFirst_sites p.blocks⟩

/-! ## The states at the sites -/

theorem Site.map_under {branches : List Branch} {own : Entity} :
    (under branches own).map entityState =
      branches.flatMap (fun branch => branch.2.map entityState) ++
        [⟨own.kind, own.id, own.state⟩] := by
  simp only [under, Branch.sites, List.map_append, List.map_flatMap, List.map_map]
  rfl

theorem Branch.flatMap_numbered {α : Type} {step : Nat → PathStep} {sites : α → List Site}
    {states : α → List EntityState} (each : ∀ x, (sites x).map Site.entityState = states x)
    (items : List α) :
    (numbered step sites items).flatMap (fun branch => branch.2.map Site.entityState) =
      (items.map states).flatten := by
  rw [numbered, List.flatMap_map, List.flatMap_def]
  simp only [each]
  exact congrArg List.flatten (List.map_zipIdx_fst states items)

theorem Action.map_entityState_sites (x : Action) :
    x.sites.map Site.entityState = [⟨.action, x.id, x.state⟩] := rfl

theorem Action.flatten_states (actions : List Action) :
    (actions.map fun x => [(⟨.action, x.id, x.state⟩ : EntityState)]).flatten =
      statesOf actions := by
  induction actions with
  | nil => rfl
  | cons x rest inductionHypothesis => simp [statesOf, inductionHypothesis]

theorem Checks.map_entityState_sites (c : Checks) : c.sites.map Site.entityState = c.states := by
  rw [sites, Site.map_under, Branch.flatMap_numbered Action.map_entityState_sites,
    Action.flatten_states]
  rfl

theorem Sequence.map_entityState_sites (q : Sequence) :
    q.sites.map Site.entityState = q.states := by
  rw [sites, Site.map_under, Branch.flatMap_numbered Action.map_entityState_sites,
    Action.flatten_states]
  rfl

theorem Slots.map_snd_occupied (slots : Slots (Option Checks)) :
    slots.occupied.map Prod.snd = slots.present := by
  have present : slots.present = slots.entries.filterMap Prod.snd := rfl
  rw [present, occupied, List.map_filterMap]
  congr 1
  funext entry
  rw [Option.map_map]
  exact Option.map_id_apply

theorem Slots.flatMap_branches (slots : Slots (Option Checks)) :
    slots.branches.flatMap (fun branch => branch.2.map Site.entityState) =
      (slots.present.map Checks.states).flatten := by
  rw [branches, List.flatMap_map, List.flatMap_def, ← map_snd_occupied, List.map_map]
  exact congrArg List.flatten
    (List.map_congr_left fun entry _ => entry.2.map_entityState_sites)

theorem Block.map_entityState_sites (b : Block) : b.sites.map Site.entityState = b.states := by
  rw [sites, Site.map_under, List.flatMap_append, Slots.flatMap_branches,
    Branch.flatMap_numbered Sequence.map_entityState_sites]
  rfl

/-- The states of a plan are those at its sites, in order. -/
theorem Plan.map_entityState_sites (p : Plan) : p.sites.map Site.entityState = p.states := by
  rw [sites, Site.map_under, List.flatMap_append, Slots.flatMap_branches,
    Branch.flatMap_numbered Block.map_entityState_sites]
  rfl

/-- The entities of a plan are those at its sites, in order. -/
theorem Plan.map_ref_sites (p : Plan) : p.sites.map Site.ref = p.entities := by
  rw [← map_entity_states, ← map_entityState_sites, List.map_map]
  rfl

theorem Plan.getLast?_sites (p : Plan) : p.sites.getLast? = some ⟨[], .plan p⟩ :=
  List.getLast?_concat

end PlanArchive
