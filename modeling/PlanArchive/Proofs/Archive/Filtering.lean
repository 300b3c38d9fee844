import PlanArchive.Archive.Listing
import PlanArchive.Proofs.Document.Encoding
import PlanArchive.Proofs.Document.Layout
import PlanArchive.Proofs.Store.Query

/-!
# What filters mean

`Refused` says which filters cannot be meant, and `Selects` which plans the others select, in terms
of what a listing says about a plan. The program says the first by checks that fail
(`toQuery_of_refused`) and the second by comparing texts and numbers in the document of the plan.
Both come to the same for every plan that has a document (`query_selects_iff`).
-/

namespace PlanArchive

theorem Uuid.isNil_eq_true {id : Uuid} : id.isNil = true ↔ id = nil := by
  obtain ⟨value, _⟩ := id
  simp [isNil, nil]

theorem Status.code_injective : Function.Injective Status.code := by
  intro first second same
  have decoded := congrArg Status.ofCode? same
  rw [Status.ofCode?_code, Status.ofCode?_code] at decoded
  exact Option.some.inj decoded

namespace Filters

variable {f g : Filters}

/-- The filters hold the nil identifier, or a list of them holds a value twice. -/
def Refused (f : Filters) : Prop :=
  Uuid.nil ∈ f.ids ∨ Uuid.nil ∈ f.groups ∨
    ¬ f.ids.Nodup ∨ ¬ f.groups.Nodup ∨ ¬ f.statuses.Nodup

/-- The filters select what a listing says about a plan. -/
def Selects (f : Filters) (x : PlanSummary) : Prop :=
  (f.ids = [] ∨ x.id ∈ f.ids) ∧ (f.groups = [] ∨ ∃ id ∈ x.groupId, id ∈ f.groups) ∧
    (f.statuses = [] ∨ x.state.status ∈ f.statuses)

instance (f : Filters) : Decidable f.Refused := by
  unfold Refused
  infer_instance

instance (f : Filters) : DecidablePred f.Selects := fun x => by
  unfold Selects
  infer_instance

/-- Filters with the same values, each list in some order of its own. -/
structure SameValues (f g : Filters) : Prop where
  ids : f.ids.Perm g.ids
  groups : f.groups.Perm g.groups
  statuses : f.statuses.Perm g.statuses

theorem SameValues.refused_iff (same : f.SameValues g) : g.Refused ↔ f.Refused := by
  simp only [Refused, same.ids.mem_iff, same.groups.mem_iff, same.ids.nodup_iff,
    same.groups.nodup_iff, same.statuses.nodup_iff]

theorem SameValues.selects_iff (same : f.SameValues g) (x : PlanSummary) :
    g.Selects x ↔ f.Selects x := by
  have empty {α : Type} {values others : List α} (perm : values.Perm others) :
      others = [] ↔ values = [] := by
    constructor
    · rintro rfl
      exact perm.eq_nil
    · rintro rfl
      exact perm.nil_eq.symm
  simp only [Selects, empty same.ids, empty same.groups, empty same.statuses, same.ids.mem_iff,
    same.groups.mem_iff, same.statuses.mem_iff]

/-! ## Refused filters -/

/-- A check that fails validation exactly when something is wrong. -/
structure RefusesWhen (wrong : Prop) (check : Except ArchiveError Unit) : Prop where
  refuses : wrong → ∃ cause, check = .error (.validation cause)
  accepts : ¬ wrong → check = .ok ()

theorem RefusesWhen.bind {wrong alsoWrong : Prop} {check next : Except ArchiveError Unit}
    (first : RefusesWhen wrong check) (second : RefusesWhen alsoWrong next) :
    RefusesWhen (wrong ∨ alsoWrong) (check >>= fun _ => next) where
  refuses := by
    intro someWrong
    by_cases isWrong : wrong
    · obtain ⟨cause, failed⟩ := first.refuses isWrong
      exact ⟨cause, by rw [failed]; rfl⟩
    · rw [first.accepts isWrong]
      exact second.refuses (someWrong.resolve_left isWrong)
  accepts := by
    intro noneWrong
    have ⟨isRight, isAlsoRight⟩ := not_or.mp noneWrong
    rw [first.accepts isRight]
    exact second.accepts isAlsoRight

theorem firstRepeated?_eq_none {α : Type} [DecidableEq α] {seen values : List α} :
    firstRepeated? seen values = none ↔ values.Nodup ∧ ∀ v ∈ values, v ∉ seen := by
  induction values generalizing seen with
  | nil => simp [firstRepeated?]
  | cons v rest inductionHypothesis =>
    by_cases isSeen : v ∈ seen
    · simp [firstRepeated?, isSeen]
    · simp only [firstRepeated?, isSeen, if_false, inductionHypothesis, List.nodup_cons,
        List.mem_cons, not_or, forall_eq_or_imp, not_false_eq_true, true_and]
      grind

theorem checkDistinct_refusesWhen {α : Type} [DecidableEq α] (list : String) (text : α → String)
    (values : List α) : RefusesWhen (¬ values.Nodup) (checkDistinct list text values) := by
  have unrepeated : firstRepeated? [] values = none ↔ values.Nodup := by
    simp [firstRepeated?_eq_none]
  cases found : firstRepeated? [] values with
  | none =>
    refine ⟨fun isWrong => absurd (unrepeated.mp found) isWrong, fun _ => ?_⟩
    simp only [checkDistinct, found]
  | some v =>
    refine ⟨fun _ => ⟨.repeatedFilter list (text v), by simp only [checkDistinct, found]⟩, ?_⟩
    intro isRight
    cases found.symm.trans (unrepeated.mpr (not_not.mp isRight))

theorem checkNotNil_refusesWhen (list : String) (ids : List Uuid) :
    RefusesWhen (Uuid.nil ∈ ids) (checkNotNil list ids) := by
  have holdsNil : ids.any Uuid.isNil = true ↔ Uuid.nil ∈ ids := by
    simp [List.any_eq_true, Uuid.isNil_eq_true]
  exact ⟨fun isWrong => ⟨.nilFilter list, if_pos (holdsNil.mpr isWrong)⟩,
    fun isRight => if_neg (mt holdsNil.mp isRight)⟩

theorem validate_refusesWhen (f : Filters) : RefusesWhen f.Refused f.validate :=
  (checkNotNil_refusesWhen "by_ids" f.ids).bind <|
    (checkNotNil_refusesWhen "by_group_ids" f.groups).bind <|
      (checkDistinct_refusesWhen "by_ids" Uuid.toText f.ids).bind <|
        (checkDistinct_refusesWhen "by_group_ids" Uuid.toText f.groups).bind <|
          checkDistinct_refusesWhen "by_status" Status.variant f.statuses

/-- The query of filters that are not refused. -/
def query (f : Filters) : Query := ⟨f.conditions, Field.submitTime, none⟩

theorem toQuery_of_refused (refused : f.Refused) :
    ∃ cause, f.toQuery = .error (.validation cause) := by
  obtain ⟨cause, failed⟩ := f.validate_refusesWhen.refuses refused
  exact ⟨cause, by rw [toQuery, failed]; rfl⟩

theorem toQuery_of_not_refused (accepted : ¬ f.Refused) : f.toQuery = .ok f.query := by
  rw [toQuery, f.validate_refusesWhen.accepts accepted, Query.foldl_and]
  rfl

/-! ## Selected plans -/

theorem holds_texts {doc : Json} {field text : String} {values : List String}
    (hasText : Field.text? doc field = some text) :
    (⟨field, .texts values⟩ : Condition).holds doc = true ↔ text ∈ values := by
  have found : (doc.field? field).bind Json.text? = some text := hasText
  simp [Condition.holds, found]

theorem holds_ints {doc : Json} {field : String} {n : Int64} {values : List Int64}
    (hasInt : Field.int? doc field = some n) :
    (⟨field, .ints values⟩ : Condition).holds doc = true ↔ n ∈ values := by
  have found : (doc.field? field).bind Json.int64? = some n := hasInt
  simp [Condition.holds, found]

/-- A condition that is only made when a list is not empty. -/
theorem all_optional {α : Type} {values : List α} {c : Condition} {doc : Json} :
    (if values.isEmpty then [] else [c]).all (fun c => c.holds doc) = true ↔
      values = [] ∨ c.holds doc = true := by
  cases values <;> simp

/-- A document meets the conditions of filters when each list is empty or has the value that the
document has. -/
theorem query_selects {doc : Json} {id groupId : String} {status : Int64}
    (hasId : Field.text? doc Field.id = some id)
    (hasGroup : Field.text? doc Field.groupId = some groupId)
    (hasStatus : Field.int? doc Field.status = some status) :
    f.query.selects doc = true ↔
      (f.ids = [] ∨ id ∈ f.ids.map Uuid.toText) ∧
        (f.groups = [] ∨ groupId ∈ f.groups.map Uuid.toText) ∧
        (f.statuses = [] ∨ status ∈ f.statuses.map Status.code) := by
  simp only [query, Query.selects, conditions, List.all_append, Bool.and_eq_true, all_optional,
    holds_texts hasId, holds_texts hasGroup, holds_ints hasStatus, and_assoc]

theorem mem_map_toText {id : Uuid} {ids : List Uuid} : id.toText ∈ ids.map Uuid.toText ↔ id ∈ ids :=
  List.mem_map_of_injective fun _ _ same => Uuid.toText_injective same

/-- The group of a plan is found among the texts of some identifiers exactly when it is one of
them; to have none, or the nil one, is to be in no group. -/
theorem encodeId_mem_iff {id : Option Uuid} {groups : List Uuid} (notNil : Uuid.nil ∉ groups) :
    Field.encodeId id ∈ groups.map Uuid.toText ↔ ∃ x ∈ Uuid.notNil? id, x ∈ groups := by
  cases id with
  | none =>
    -- The empty text stands for no group, and no identifier has it.
    simp only [Field.encodeId, List.mem_map, Uuid.notNil?, Option.filter_none, Option.mem_def,
      reduceCtorEq, false_and, exists_false, iff_false]
    rintro ⟨x, _, isEmpty⟩
    simpa [isEmpty] using x.isEmpty_toText
  | some x =>
    rw [Field.encodeId, mem_map_toText]
    simp only [Uuid.notNil?, Option.mem_filter_iff]
    constructor
    · intro member
      -- What is listed is not the nil identifier, which a summary shows as no group.
      refine ⟨x, ⟨rfl, ?_⟩, member⟩
      cases isNil : x.isNil with
      | true => exact absurd (Uuid.isNil_eq_true.mp isNil ▸ member) notNil
      | false => rfl
    · rintro ⟨_, ⟨⟨⟩, _⟩, member⟩
      exact member

theorem mem_map_code {status : Status} {statuses : List Status} :
    status.code ∈ statuses.map Status.code ↔ status ∈ statuses :=
  List.mem_map_of_injective Status.code_injective

/-- The query of filters selects the document of a plan exactly when the filters select what a
listing says about the plan. -/
theorem query_selects_iff {part : String} {p q : Plan} {d : PlanDocument} {token : VersionToken}
    (accepted : ¬ f.Refused) (encoded : PlanDocument.encode part p = .ok d)
    (decoded : d.decode token = .ok q) :
    f.query.selects d.toJson = true ↔ f.Selects (.ofPlan q) := by
  have notNil : Uuid.nil ∉ f.groups := fun isNil => accepted (.inr (.inl isNil))
  cases decoded.symm.trans (PlanDocument.decode_of_encode encoded token)
  simp only [PlanDocument.encode, StateRecord.encode, Except.bind_eq_ok, pure, Except.pure,
    Except.ok.injEq] at encoded
  obtain ⟨_, ⟨start, _, finish, _, rfl⟩, submitTime, _, rfl⟩ := encoded
  rw [query_selects (Field.text?_of rfl) (Field.text?_of rfl) (Field.int?_of rfl)]
  simp only [mem_map_toText, encodeId_mem_iff notNil, mem_map_code]
  rfl

end Filters

end PlanArchive
