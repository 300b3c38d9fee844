import PlanArchive.Proofs.Steps
import PlanArchive.Proofs.Store.Memory

/-!
# What patches do

The store collects the fields that a list of patches sets before it sets them. That comes to the
same as setting them one after the other (`Patch.apply_of_collect`), also when a field is set
more than once: a field keeps the place where it was set first, and the last value counts. A patch
that succeeds therefore does to the document what the patches do in turn, and one that fails leaves
documents and tokens alone (`MemoryStore.patch_inTurn`). A path that addresses no top-level field
is found before the store looks at anything else.
-/

namespace PlanArchive

namespace Json

variable {α : Type} {key name : String} {value : α} {fields : List (String × α)}

/-! ## Setting one field -/

theorem mem_putField {f : String × α} (member : f ∈ putField key value fields) :
    f = (key, value) ∨ f ∈ fields := by
  induction fields with
  | nil => simpa [putField] using member
  | cons head rest inductionHypothesis =>
    rw [putField] at member
    split at member
    · rename_i same
      rcases List.mem_cons.mp member with rfl | inRest
      · exact .inl (by rw [same])
      · exact .inr (List.mem_cons_of_mem _ inRest)
    · rcases List.mem_cons.mp member with rfl | inRest
      · exact .inr List.mem_cons_self
      · rcases inductionHypothesis inRest with isNew | isOld
        · exact .inl isNew
        · exact .inr (List.mem_cons_of_mem _ isOld)

theorem lookup_putField_self (key : String) (value : α) (fields : List (String × α)) :
    (putField key value fields).lookup key = some value := by
  induction fields with
  | nil => simp [putField]
  | cons head rest inductionHypothesis =>
    obtain ⟨k, old⟩ := head
    rw [putField]
    split
    · rename_i isKey
      simp [isKey]
    · rename_i notKey
      rw [List.lookup_cons, beq_eq_false_iff_ne.mpr (Ne.symm notKey)]
      exact inductionHypothesis

theorem lookup_putField (other : name ≠ key) (value : α) (fields : List (String × α)) :
    (putField key value fields).lookup name = fields.lookup name := by
  have notKey : (name == key) = false := beq_eq_false_iff_ne.mpr other
  induction fields with
  | nil => simp [putField, List.lookup_cons, notKey]
  | cons head rest inductionHypothesis =>
    obtain ⟨k, old⟩ := head
    rw [putField]
    split
    · rename_i isKey
      simp [List.lookup_cons, isKey, notKey]
    · rw [List.lookup_cons, List.lookup_cons, inductionHypothesis]

theorem mem_names_putField :
    name ∈ (putField key value fields).map Prod.fst ↔ name = key ∨ name ∈ fields.map Prod.fst := by
  induction fields with
  | nil => simp [putField]
  | cons head rest inductionHypothesis =>
    rw [putField]
    split
    · rename_i isKey
      simp [isKey]
    · simp only [List.map_cons, List.mem_cons, inductionHypothesis]
      exact or_left_comm

theorem nodup_names_putField (distinct : (fields.map Prod.fst).Nodup) :
    ((putField key value fields).map Prod.fst).Nodup := by
  induction fields with
  | nil => simp [putField]
  | cons head rest inductionHypothesis =>
    obtain ⟨notInRest, restDistinct⟩ := List.nodup_cons.mp distinct
    rw [putField]
    split
    · exact distinct
    · rename_i notKey
      refine List.nodup_cons.mpr ⟨fun member => ?_, inductionHypothesis restDistinct⟩
      exact (mem_names_putField.mp member).elim notKey notInRest

theorem putField_putField (key : String) (first second : α) (fields : List (String × α)) :
    putField key second (putField key first fields) = putField key second fields := by
  induction fields with
  | nil => simp [putField]
  | cons head rest inductionHypothesis =>
    by_cases isKey : head.1 = key
    · simp [putField, isKey]
    · simp [putField, isKey, inductionHypothesis]

/-- A field that is there keeps its place, so it may as well be set later. -/
theorem putField_comm {other : α} (different : key ≠ name) (present : key ∈ fields.map Prod.fst) :
    putField name other (putField key value fields) =
      putField key value (putField name other fields) := by
  induction fields with
  | nil => cases present
  | cons head rest inductionHypothesis =>
    by_cases isKey : head.1 = key
    · simp [putField, isKey, different]
    · have inRest := (List.mem_cons.mp present).resolve_left (Ne.symm isKey)
      by_cases isName : head.1 = name
      · simp [putField, isName, Ne.symm different]
      · simp [putField, isKey, isName, inductionHypothesis inRest]

end Json

namespace Patch

variable {patch : Patch} {patches : List Patch} {name : String}

/-! ## Paths -/

/-- The name in a path, which stands behind its first character. -/
def key (patch : Patch) : String := String.ofList (patch.path.toList.drop 1)

/-- The path addresses a top-level field: it is a slash and a name that is not empty and has no
slash in it. -/
def WellPlaced (patch : Patch) : Prop :=
  patch.path = "/" ++ patch.key ∧ patch.key ≠ "" ∧ '/' ∉ patch.key.toList

instance : DecidablePred WellPlaced := fun patch => by
  unfold WellPlaced
  infer_instance

theorem wellPlaced_iff :
    patch.WellPlaced ↔
      ∃ chars, patch.path.toList = '/' :: chars ∧ chars ≠ [] ∧ '/' ∉ chars := by
  constructor
  · rintro ⟨isPath, notEmpty, noSlash⟩
    have filled : patch.key.toList ≠ [] := mt String.toList_eq_nil_iff.mp notEmpty
    refine ⟨patch.key.toList, ?_, filled, noSlash⟩
    conv_lhs => rw [isPath]
    rw [String.toList_append]
    rfl
  · rintro ⟨chars, isPath, notEmpty, noSlash⟩
    have isKey : patch.key.toList = chars := by simp [key, isPath]
    refine ⟨String.toList_inj.mp ?_, fun isEmpty => notEmpty ?_, isKey ▸ noSlash⟩
    · rw [isPath, String.toList_append, isKey]
      rfl
    · rw [← isKey, isEmpty]
      rfl

theorem target_of_wellPlaced (wellPlaced : patch.WellPlaced) : patch.target = .ok patch.key := by
  obtain ⟨chars, isPath, notEmpty, noSlash⟩ := wellPlaced_iff.mp wellPlaced
  simp [target, key, isPath, notEmpty, noSlash]

theorem target_of_not_wellPlaced (misplaced : ¬ patch.WellPlaced) :
    patch.target = .error (.invalidPatch patch.path) := by
  unfold target
  split
  · rename_i chars isPath
    refine if_pos ?_
    by_contra nothingWrong
    simp only [Bool.or_eq_true, List.isEmpty_iff, List.contains_iff_mem, not_or] at nothingWrong
    exact misplaced (wellPlaced_iff.mpr ⟨chars, isPath, nothingWrong⟩)
  · rfl

theorem target_field {name : String} (value : Json) (notEmpty : name.toList ≠ [])
    (noSlash : '/' ∉ name.toList) : (field name value).target = .ok name := by
  have path : (field name value).path.toList = '/' :: name.toList := by
    rw [field, String.toList_append]
    rfl
  rw [target, path]
  simp [notEmpty, noSlash]

/-! ## Patches in turn -/

/-- A document after patches that each set their field, one after the other. -/
def inTurn (patches : List Patch) (doc : List (String × Json)) : List (String × Json) :=
  patches.foldl (fun doc patch => Json.putField patch.key patch.value doc) doc

/-- The value that the last of some patches sets a field to. -/
def lastValue? (name : String) (patches : List Patch) : Option Json :=
  (patches.reverse.find? fun patch => patch.key = name).map Patch.value

/-- After patches in turn a field has the last value that one of them sets it to, or its old one. -/
theorem lookup_inTurn (name : String) (patches : List Patch) (doc : List (String × Json)) :
    (inTurn patches doc).lookup name = (lastValue? name patches).or (doc.lookup name) := by
  induction patches generalizing doc with
  | nil => rfl
  | cons patch rest inductionHypothesis =>
    have others := inductionHypothesis (Json.putField patch.key patch.value doc)
    rw [inTurn, List.foldl_cons]
    refine others.trans ?_
    simp only [lastValue?, List.reverse_cons, List.find?_append, Option.map_or, Option.or_assoc]
    congr 1
    by_cases isKey : patch.key = name
    · subst isKey
      simp [Json.lookup_putField_self]
    · simp [isKey, Json.lookup_putField (Ne.symm isKey)]

/-- A field that is there and is not among those that are set may be set before or after them. -/
theorem apply_putField_of_present {fields doc : List (String × Json)} (value : Json)
    (notSet : name ∉ fields.map Prod.fst) (present : name ∈ doc.map Prod.fst) :
    apply fields (Json.putField name value doc) = Json.putField name value (apply fields doc) := by
  induction fields generalizing doc with
  | nil => rfl
  | cons head rest inductionHypothesis =>
    obtain ⟨notHead, notInRest⟩ := not_or.mp (mt List.mem_cons.mpr notSet)
    have stillPresent : name ∈ (Json.putField head.1 head.2 doc).map Prod.fst :=
      Json.mem_names_putField.mpr (.inr present)
    simp only [apply, List.foldl_cons] at inductionHypothesis ⊢
    rw [Json.putField_comm notHead present, inductionHypothesis notInRest stillPresent]

/-- One more collected field is one more field that is set after the others. -/
theorem apply_putField {fields : List (String × Json)} (distinct : (fields.map Prod.fst).Nodup)
    (value : Json) (doc : List (String × Json)) :
    apply (Json.putField name value fields) doc = Json.putField name value (apply fields doc) := by
  induction fields generalizing doc with
  | nil => rfl
  | cons head rest inductionHypothesis =>
    obtain ⟨notInRest, restDistinct⟩ := List.nodup_cons.mp distinct
    obtain ⟨first, old⟩ := head
    rw [Json.putField]
    split
    · -- The field was set before: its first value is overwritten where the field stands.
      rename_i isFirst
      subst isFirst
      have present : first ∈ (Json.putField first old doc).map Prod.fst :=
        Json.mem_names_putField.mpr (.inl rfl)
      calc apply ((first, value) :: rest) doc
        _ = apply rest (Json.putField first value (Json.putField first old doc)) := by
            rw [Json.putField_putField]
            rfl
        _ = Json.putField first value (apply rest (Json.putField first old doc)) :=
            apply_putField_of_present value notInRest present
    · exact inductionHypothesis restDistinct (Json.putField first old doc)

theorem apply_of_collectOnto {fields result : List (String × Json)}
    (distinct : (fields.map Prod.fst).Nodup) (collected : collectOnto fields patches = .ok result)
    (doc : List (String × Json)) :
    apply result doc = inTurn patches (apply fields doc) := by
  induction patches generalizing fields with
  | nil =>
    cases collected
    rfl
  | cons patch rest inductionHypothesis =>
    rw [collectOnto, Except.bind_eq_ok] at collected
    obtain ⟨name, isTarget, restCollected⟩ := collected
    have isKey : patch.key = name := by
      by_cases wellPlaced : patch.WellPlaced
      · exact Except.ok.inj ((target_of_wellPlaced wellPlaced).symm.trans isTarget)
      · cases (target_of_not_wellPlaced wellPlaced).symm.trans isTarget
    subst isKey
    rw [inductionHypothesis (Json.nodup_names_putField distinct) restCollected,
      apply_putField distinct]
    rfl

/-- Setting the fields that are collected from patches is what the patches do in turn. -/
theorem apply_of_collect {fields : List (String × Json)} (collected : collect patches = .ok fields)
    (doc : List (String × Json)) : apply fields doc = inTurn patches doc := by
  have distinct : (List.map Prod.fst ([] : List (String × Json))).Nodup := List.nodup_nil
  exact apply_of_collectOnto distinct collected doc

/-- Every field that patches set is the target of one of them. -/
theorem mem_of_collectOnto {fields result : List (String × Json)}
    (collected : collectOnto fields patches = .ok result) {f : String × Json}
    (member : f ∈ result) :
    f ∈ fields ∨ ∃ patch ∈ patches, patch.target = .ok f.1 ∧ patch.value = f.2 := by
  induction patches generalizing fields with
  | nil =>
    cases collected
    exact .inl member
  | cons patch rest inductionHypothesis =>
    rw [collectOnto, Except.bind_eq_ok] at collected
    obtain ⟨name, isTarget, restCollected⟩ := collected
    rcases inductionHypothesis restCollected with isEarlier | ⟨later, inRest, isLater⟩
    · rcases Json.mem_putField isEarlier with rfl | isOld
      · exact .inr ⟨patch, List.mem_cons_self, isTarget, rfl⟩
      · exact .inl isOld
    · exact .inr ⟨later, List.mem_cons_of_mem _ inRest, isLater⟩

/-- Fields are collected exactly when every path addresses one. -/
theorem exists_collectOnto (fields : List (String × Json)) :
    (∃ result, collectOnto fields patches = .ok result) ↔ ∀ patch ∈ patches, patch.WellPlaced := by
  induction patches generalizing fields with
  | nil => simp [collectOnto]
  | cons patch rest inductionHypothesis =>
    rw [collectOnto, Except.exists_ok_bind, List.forall_mem_cons]
    by_cases wellPlaced : patch.WellPlaced
    · simp [target_of_wellPlaced wellPlaced, wellPlaced, inductionHypothesis]
    · simp [target_of_not_wellPlaced wellPlaced, wellPlaced]

/-- The first path that addresses no field is the one that is reported. -/
theorem collectOnto_of_misplaced {before after : List Patch} {misplaced : Patch}
    (wellPlaced : ∀ patch ∈ before, patch.WellPlaced) (isMisplaced : ¬ misplaced.WellPlaced)
    (fields : List (String × Json)) :
    collectOnto fields (before ++ misplaced :: after) = .error (.invalidPatch misplaced.path) := by
  induction before generalizing fields with
  | nil =>
    rw [List.nil_append, collectOnto, target_of_not_wellPlaced isMisplaced]
    rfl
  | cons patch rest inductionHypothesis =>
    obtain ⟨first, others⟩ := List.forall_mem_cons.mp wellPlaced
    rw [List.cons_append, collectOnto, target_of_wellPlaced first]
    exact inductionHypothesis others _

end Patch

namespace MemoryStore

variable {s t : MemoryStore} {key : DocumentKey} {patches : List Patch}
  {demanded : Option VersionToken}

/-! ## Patching a stored document -/

/-- A patch that succeeded: every path addresses a field, an object of a demanded revision was at
the place, it is now as the patches in turn leave it, and has the next token. Each field that a
patch sets has the value of the last patch that does, all others have the value they had, and the
documents at other places are the same. -/
structure PatchedInTurn (s : MemoryStore) (key : DocumentKey) (patches : List Patch)
    (demanded : Option VersionToken) (token : VersionToken) (t : MemoryStore) : Prop where
  wellPlaced : ∀ patch ∈ patches, patch.WellPlaced
  document : ∃ doc old, s.contents.find? key = some ⟨.obj doc, old⟩ ∧
    (∀ asked ∈ demanded, asked = old) ∧
    t.contents.find? key = some ⟨.obj (Patch.inTurn patches doc), token⟩ ∧
    ∀ name, (Patch.inTurn patches doc).lookup name =
      (Patch.lastValue? name patches).or (doc.lookup name)
  others : ∀ place ≠ key, t.contents.find? place = s.contents.find? place
  token : token = .minted s.minted

theorem asked_eq_of_current {item : Item} (found : s.current key demanded = .ok item) :
    ∀ asked ∈ demanded, asked = item.token := by
  intro asked isDemanded
  cases isDemanded
  have stored := current_eq_ok found
  simp only [current, stored] at found
  split at found
  · assumption
  · cases found

/-- Patches whose paths address fields are what a write that sets the fields in turn would be. -/
theorem patch_of_wellPlaced (wellPlaced : ∀ patch ∈ patches, patch.WellPlaced) :
    s.patch key patches demanded = s.admitting fun s =>
      match s.current key demanded with
      | .error e => (.error e, s)
      | .ok item =>
        match item.doc with
        | .obj doc => s.commit key (.obj (Patch.inTurn patches doc))
        | _ =>
          let text := StoreError.documentText key.collection key.id ++ " is not an object"
          (.error (.invalidPatch text), s) := by
  obtain ⟨fields, collected⟩ := (Patch.exists_collectOnto []).mpr wellPlaced
  have applied : Patch.apply fields = Patch.inTurn patches :=
    funext (Patch.apply_of_collect collected)
  rw [patch, Patch.collect, collected]
  exact applied ▸ rfl

/-- A path that addresses no field is reported before anything else is looked at. -/
theorem patch_of_misplaced {before after : List Patch} {misplaced : Patch}
    (wellPlaced : ∀ patch ∈ before, patch.WellPlaced) (isMisplaced : ¬ misplaced.WellPlaced) :
    s.patch key (before ++ misplaced :: after) demanded
      = (.error (.invalidPatch misplaced.path), s) := by
  rw [patch, Patch.collect, Patch.collectOnto_of_misplaced wellPlaced isMisplaced]

/-- Patching a document fails with nothing changed, or does to it what the patches do in turn. -/
theorem patch_outcome (s : MemoryStore) (key : DocumentKey) (patches : List Patch)
    (demanded : Option VersionToken) :
    (∃ e t, s.patch key patches demanded = (.error e, t) ∧ s.Unchanged t) ∨
    ∃ token t, s.patch key patches demanded = (.ok token, t) ∧
      s.PatchedInTurn key patches demanded token t := by
  by_cases wellPlaced : ∀ patch ∈ patches, patch.WellPlaced
  · rw [patch_of_wellPlaced wellPlaced]
    generalize opened : s.admitting _ = made
    rcases admitting_cases opened with ⟨_, rfl⟩ | ⟨u, same, rfl⟩
    · exact .inl ⟨_, _, rfl, .refl s⟩
    · cases found : u.current key demanded with
      | error e => exact .inl ⟨e, u, rfl, same⟩
      | ok item =>
        obtain ⟨content, old⟩ := item
        have stored := current_eq_ok found
        rw [same.contents] at stored
        cases content with
        | obj doc =>
          obtain ⟨token, t, committed, puts⟩ := u.puts_commit key (.obj (Patch.inTurn patches doc))
          obtain ⟨isNext, contents, _, _⟩ := same.puts puts
          refine .inr ⟨token, t, committed, wellPlaced, ⟨doc, old, stored, ?_, ?_, ?_⟩, ?_, isNext⟩
          · exact asked_eq_of_current found
          · rw [contents, Contents.find?_put, if_pos rfl]
          · exact fun name => Patch.lookup_inTurn name patches doc
          · intro place other
            rw [contents, Contents.find?_put, if_neg other]
        | _ => exact .inl ⟨_, u, rfl, same⟩
  · have uncollected := mt (Patch.exists_collectOnto []).mp wellPlaced
    cases collected : Patch.collect patches with
    | error e => exact .inl ⟨e, s, by rw [patch, collected], .refl s⟩
    | ok fields => exact absurd ⟨fields, collected⟩ uncollected

/-- Patches of a document are made all in turn or not at all. When the store reports success, every
path addresses a field and the document is as the patches in turn leave it. When it reports an
error, no document and no token changed. The first path that addresses no field is reported
whatever the store is like. -/
theorem patch_inTurn (s : MemoryStore) (key : DocumentKey) (patches : List Patch)
    (demanded : Option VersionToken) :
    (∀ token t, s.patch key patches demanded = (.ok token, t) →
      s.PatchedInTurn key patches demanded token t) ∧
    (∀ e t, s.patch key patches demanded = (.error e, t) → s.Unchanged t) ∧
    (∀ before misplaced after, patches = before ++ misplaced :: after →
      (∀ patch ∈ before, patch.WellPlaced) → ¬ misplaced.WellPlaced →
      s.patch key patches demanded = (.error (.invalidPatch misplaced.path), s)) := by
  refine ⟨fun token t succeeded => ?_, fun e t failed => ?_, ?_⟩
  · rcases patch_outcome s key patches demanded with ⟨_, _, failed, _⟩ | ⟨_, _, patched, inTurn⟩
    · cases failed.symm.trans succeeded
    · cases patched.symm.trans succeeded
      exact inTurn
  · rcases patch_outcome s key patches demanded with ⟨_, _, refused, same⟩ | ⟨_, _, patched, _⟩
    · cases refused.symm.trans failed
      exact same
    · cases patched.symm.trans failed
  · rintro before misplaced after rfl wellPlaced isMisplaced
    exact patch_of_misplaced wellPlaced isMisplaced

/-- Two fields in three patches, once with the token of the document, once with one that is not its
token, and once with a path of two names behind a good one. -/
theorem patch_inTurn_repeatedField :
    let key : DocumentKey := ⟨"p", .plans, Uuid.nil⟩
    let s := (empty.commit key (.obj [("a", .null), ("b", .bool true)])).2
    let patches : List Patch :=
      [.field "c" (.str "1"), .field "a" (.str "2"), .field "c" (.str "3")]
    let bad : Patch := ⟨"/a/b", .null⟩
    s.PatchedInTurn key patches (some (.minted 0)) (.minted 1)
        (s.patch key patches (some (.minted 0))).2 ∧
      Patch.inTurn patches [("a", .null), ("b", .bool true)]
        = [("a", .str "2"), ("b", .bool true), ("c", .str "3")] ∧
      s.Unchanged (s.patch key patches (some (.minted 7))).2 ∧
      (s.failAfter 0).patch key (patches ++ [bad]) none
        = (.error (.invalidPatch "/a/b"), s.failAfter 0) := by
  intro key s patches bad
  have succeeded : s.patch key patches (some (.minted 0)) =
      (.ok (.minted 1), (s.patch key patches (some (.minted 0))).2) := rfl
  have failed : s.patch key patches (some (.minted 7)) =
      (.error (.preconditionFailed .plans Uuid.nil),
        (s.patch key patches (some (.minted 7))).2) := rfl
  exact ⟨(patch_inTurn s key patches _).1 _ _ succeeded, rfl,
    (patch_inTurn s key patches _).2.1 _ _ failed,
    (patch_inTurn (s.failAfter 0) key (patches ++ [bad]) none).2.2 patches bad [] rfl (by decide)
      (by decide)⟩

end MemoryStore

end PlanArchive
