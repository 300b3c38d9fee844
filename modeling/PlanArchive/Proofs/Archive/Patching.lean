import PlanArchive.Archive.Update
import PlanArchive.Proofs.Archive.Walk
import PlanArchive.Proofs.Document.Encoding
import PlanArchive.Proofs.Store.Patches

/-!
# Updates keep the trees

An update sets integers in one document: those of the state, and for a plan the failure reason and
the submission time. Nothing that says where a document stands in a tree is among them, so that an
update of a laid out partition leaves it laid out and every node as it was (`update_keeps`).
-/

namespace PlanArchive

/-! ## The fields that an update sets -/

/-- The fields that an update of an entity of a kind sets. -/
def updatable (kind : EntityKind) : List String :=
  [Field.status, Field.start, Field.finish] ++
    if kind = .plan then [Field.reason, Field.submitTime] else []

/-- Fields with new integers for an update of an entity of a kind. -/
def NewIntegers (kind : EntityKind) (fields : List (String × Json)) : Prop :=
  ∀ f ∈ fields, f.1 ∈ updatable kind ∧ ∃ n, f.2 = .ofInt64 n

/-! ## Documents with other integers -/

/-- The members of a document. -/
def Document.fields (d : Document) : List (String × Json) :=
  match d.toJson with
  | .obj fields => fields
  | _ => []

theorem Document.toJson_eq (d : Document) : d.toJson = .obj d.fields := by
  cases d <;> rfl

/-- The document with another state. -/
def Document.mapState (f : StateRecord → StateRecord) : Document → Document
  | .plan d => .plan { d with state := f d.state }
  | .block d => .block { d with state := f d.state }
  | .checks d => .checks { d with state := f d.state }
  | .sequence d => .sequence { d with state := f d.state }
  | .action d => .action { d with state := f d.state }

/-- Two documents with the same place in a tree. -/
structure Document.SamePlace (d e : Document) : Prop where
  kind : e.kind = d.kind
  node : e.node = d.node
  refs : e.refs = d.refs

theorem Document.samePlace_mapState (d : Document) (f : StateRecord → StateRecord) :
    d.SamePlace (d.mapState f) := by
  cases d <;> exact ⟨rfl, rfl, rfl⟩

/-- Setting one updatable integer of a document makes another document in the same place. -/
theorem Document.putField_fields (d : Document) {name : String}
    (isUpdatable : name ∈ updatable d.kind) (n : Int64) :
    ∃ e : Document, Json.putField name (.ofInt64 n) d.fields = e.fields ∧ d.SamePlace e := by
  rcases List.mem_append.mp isUpdatable with ofState | ofPlan
  · simp only [List.mem_cons, List.not_mem_nil, or_false] at ofState
    rcases ofState with rfl | rfl | rfl
    · exact ⟨d.mapState fun r => { r with status := n }, by cases d <;> rfl,
        d.samePlace_mapState _⟩
    · exact ⟨d.mapState fun r => { r with start := n }, by cases d <;> rfl,
        d.samePlace_mapState _⟩
    · exact ⟨d.mapState fun r => { r with finish := n }, by cases d <;> rfl,
        d.samePlace_mapState _⟩
  · cases d with
    | plan d =>
      simp only [kind, if_true, List.mem_cons, List.not_mem_nil, or_false] at ofPlan
      rcases ofPlan with rfl | rfl
      · exact ⟨.plan { d with reason := n }, rfl, rfl, rfl, rfl⟩
      · exact ⟨.plan { d with submitTime := n }, rfl, rfl, rfl, rfl⟩
    | _ => simp [kind] at ofPlan

theorem Document.apply_fields (d : Document) {fields : List (String × Json)}
    (new : NewIntegers d.kind fields) :
    ∃ e : Document, Patch.apply fields d.fields = e.fields ∧ d.SamePlace e := by
  induction fields generalizing d with
  | nil => exact ⟨d, rfl, rfl, rfl, rfl⟩
  | cons f rest inductionHypothesis =>
    have ⟨⟨isUpdatable, n, isInteger⟩, restNew⟩ := List.forall_mem_cons.mp new
    obtain ⟨e, put, samePlace⟩ := d.putField_fields isUpdatable n
    rw [← samePlace.kind] at restNew
    obtain ⟨g, applied, alsoSame⟩ := inductionHypothesis e restNew
    refine ⟨g, ?_, alsoSame.kind.trans samePlace.kind, alsoSame.node.trans samePlace.node,
      alsoSame.refs.trans samePlace.refs⟩
    rw [← applied, ← put, ← isInteger]
    rfl

namespace Archive

variable {a : Archive} {s : MemoryStore}

/-! ## What an update does -/

/-- An update leaves the contents alone or sets integers of one document. -/
def Patches (a : Archive) (c d : Contents) : Prop :=
  d = c ∨ ∃ (e : EntityRef) (fields doc : List (String × Json)) (old token : VersionToken),
    NewIntegers e.1 fields ∧ c.find? (a.key e.1 e.2) = some ⟨.obj doc, old⟩ ∧
      d = c.put (a.key e.1 e.2) ⟨.obj (Patch.apply fields doc), token⟩

theorem target_of_updatable {kind : EntityKind} {name : String} (value : Json)
    (isUpdatable : name ∈ updatable kind) : (Patch.field name value).target = .ok name := by
  have isOne : name ∈ [Field.status, Field.start, Field.finish, Field.reason,
      Field.submitTime] := by
    rcases List.mem_append.mp isUpdatable with ofState | ofPlan
    · exact List.mem_append_left [Field.reason, Field.submitTime] ofState
    · split at ofPlan
      · exact List.mem_append_right [Field.status, Field.start, Field.finish] ofPlan
      · cases ofPlan
  have proper : ∀ name ∈ [Field.status, Field.start, Field.finish, Field.reason,
      Field.submitTime], name.toList ≠ [] ∧ '/' ∉ name.toList := by decide
  obtain ⟨notEmpty, noSlash⟩ := proper name isOne
  exact Patch.target_field value notEmpty noSlash

/-- Patches that set integers of an entity, and the fields that come of them. -/
theorem newIntegers_of_collect {kind : EntityKind} {patches : List Patch}
    {fields : List (String × Json)}
    (new : ∀ patch ∈ patches, ∃ name ∈ updatable kind, ∃ n, patch = .field name (.ofInt64 n))
    (collected : Patch.collect patches = .ok fields) : NewIntegers kind fields := by
  intro f member
  rcases Patch.mem_of_collectOnto collected member with
    impossible | ⟨patch, isPatch, isTarget, isValue⟩
  · cases impossible
  · obtain ⟨name, isUpdatable, n, rfl⟩ := new patch isPatch
    rw [target_of_updatable _ isUpdatable] at isTarget
    have same : name = f.1 := Except.ok.inj isTarget
    exact ⟨same ▸ isUpdatable, n, isValue.symm⟩

theorem new_of_statePatches {kind : EntityKind} {state : State} {patches : List Patch}
    (encoded : statePatches state = .ok patches) :
    ∀ patch ∈ patches, ∃ name ∈ updatable kind, ∃ n, patch = .field name (.ofInt64 n) := by
  simp only [statePatches, Except.bind_eq_ok, pure, Except.pure, Except.ok.injEq] at encoded
  obtain ⟨r, _, rfl⟩ := encoded
  intro patch member
  simp only [StateRecord.fields, List.map_cons, List.map_nil, List.mem_cons, List.not_mem_nil,
    or_false] at member
  rcases member with rfl | rfl | rfl
  · exact ⟨Field.status, by simp [updatable], r.status, rfl⟩
  · exact ⟨Field.start, by simp [updatable], r.start, rfl⟩
  · exact ⟨Field.finish, by simp [updatable], r.finish, rfl⟩

theorem patchState_patches {kind : EntityKind} {id : Uuid} {state : State} {more : List Patch}
    (new : ∀ patch ∈ more, ∃ name ∈ updatable kind, ∃ n, patch = .field name (.ofInt64 n)) :
    a.Patches s.contents (a.patchState kind id state more s).store.contents := by
  unfold patchState
  split
  · exact .inl rfl
  · split
    · exact .inl rfl
    · rename_i patches encoded
      have all : ∀ patch ∈ patches ++ more,
          ∃ name ∈ updatable kind, ∃ n, patch = .field name (.ofInt64 n) := by
        intro patch member
        rcases List.mem_append.mp member with ofState | isMore
        · exact new_of_statePatches encoded patch ofState
        · exact new patch isMore
      have patching : DocumentStore.patch s (a.key kind id) (patches ++ more) state.token =
          s.patch (a.key kind id) (patches ++ more) state.token := rfl
      rcases s.patch_cases (a.key kind id) (patches ++ more) state.token with
        ⟨e, t, failed, same⟩ | ⟨fields, doc, old, token, t, collected, stored, patched, put⟩
      · rw [patching, failed]
        exact .inl same
      · rw [patching, patched]
        exact .inr ⟨(kind, id), fields, doc, old, token, newIntegers_of_collect all collected,
          stored, put⟩

/-- An update of any entity sets integers of its document at most. -/
theorem update_patches (a : Archive) (e : Entity) (s : MemoryStore) :
    a.Patches s.contents (a.update e s).store.contents := by
  cases e with
  | plan p =>
    change a.Patches s.contents (a.updatePlan p s).store.contents
    unfold updatePlan
    split
    · exact .inl rfl
    · rename_i submitTime _
      apply patchState_patches
      intro patch member
      simp only [List.mem_cons, List.not_mem_nil, or_false] at member
      rcases member with rfl | rfl
      · exact ⟨Field.reason, by simp [updatable], _, rfl⟩
      · exact ⟨Field.submitTime, by simp [updatable], _, rfl⟩
  | block b => exact patchState_patches (by simp)
  | checks c => exact patchState_patches (by simp)
  | sequence q => exact patchState_patches (by simp)
  | action x => exact patchState_patches (by simp)

/-- Updating a laid out partition leaves it laid out, and everything in its place. -/
theorem update_keeps (a : Archive) (e : Entity) (s : MemoryStore)
    (laidOut : a.LaidOut s.contents) :
    a.LaidOut (a.update e s).store.contents ∧
      (∀ f, a.node? (a.update e s).store.contents f = a.node? s.contents f) := by
  rcases a.update_patches e s with same | ⟨g, fields, members, old, token, new, stored, put⟩
  · rw [same]
    exact ⟨laidOut, fun _ => rfl⟩
  · obtain ⟨d, isLaidOut, rfl, notNil, readable⟩ := laidOut g _ stored
    have sameMembers : members = d.fields := Json.obj.inj (isLaidOut.trans d.toJson_eq)
    obtain ⟨e, applied, samePlace⟩ := d.apply_fields new
    have isUpdated : Json.obj (Patch.apply fields members) = e.toJson := by
      rw [sameMembers, applied, e.toJson_eq]
    have sameEntity : e.entity = d.entity := by
      rw [Document.entity, samePlace.kind, samePlace.node, ← Document.entity]
    rw [put]
    constructor
    · exact laidOut.put ⟨e, isUpdated, sameEntity, notNil, samePlace.refs ▸ readable⟩
    · intro f
      by_cases isSame : f = d.entity
      · subst isSame
        have found := Contents.find?_put s.contents (a.key d.entity.1 d.entity.2)
          ⟨.obj (Patch.apply fields members), token⟩ (a.key d.entity.1 d.entity.2)
        rw [if_pos rfl] at found
        rw [node?_of_find? found isUpdated sameEntity, node?_of_find? stored isLaidOut rfl,
          samePlace.node]
      · exact node?_congr (find?_put_of_ne _ isSame)

end Archive

end PlanArchive
