import Mathlib.Data.Option.Basic
import PlanArchive.Plugin
import PlanArchive.Proofs.Store.Memory

/-!
# Plugins that know their payloads

A stored payload is decoded by its plugin, and the decoded payload may be encoded again: not always
to the value that was stored, but to one that is decoded to the same payload. This is asked of
plugins in general (`Plugin.Coherent`) and holds of the two kinds of plugins that the archive comes
with (`Plugin.untyped_coherent`, `Plugin.typed_coherent`).
-/

namespace PlanArchive

/-! ## Plugins that know their payloads -/

/-- The payload has an encoding, and this is decoded to the payload. -/
def Payload.KnownTo (decode : Json → Option Payload) (p : Payload) : Prop :=
  ∃ v, p.toJson = .ok v ∧ decode v = some p

/-- A plugin knows every payload that it decodes. -/
structure Plugin.Coherent (plugin : Plugin) : Prop where
  request : ∀ v p, plugin.decodeRequest v = some p → p.KnownTo plugin.decodeRequest
  response : ∀ v p, plugin.decodeResponse v = some p → p.KnownTo plugin.decodeResponse

/-- Every registered plugin knows what it decodes. -/
def Registry.Coherent (registry : Registry) : Prop :=
  ∀ plugin ∈ registry.plugins, plugin.Coherent

theorem Registry.Coherent.of_lookup? {registry : Registry} {name : String} {plugin : Plugin}
    (coherent : registry.Coherent) (registered : registry.lookup? name = some plugin) :
    plugin.Coherent :=
  coherent plugin (List.mem_of_find?_eq_some registered)

theorem Payload.knownTo_untyped (v : Json) :
    (ofJson Plugin.untypedName v).KnownTo fun v => some (ofJson Plugin.untypedName v) := by
  have same : ofJson Plugin.untypedName v.normalize = ofJson Plugin.untypedName v := by
    simp only [ofJson, Json.normalize_normalize]
  exact ⟨v.normalize, rfl, congrArg some same⟩

/-- A plugin that keeps payloads as they are knows them all. -/
theorem Plugin.untyped_coherent (name : String) : (untyped name).Coherent where
  request := by
    rintro v p ⟨⟩
    exact Payload.knownTo_untyped v
  response := by
    rintro v p ⟨⟩
    exact Payload.knownTo_untyped v

/-! ### Records -/

namespace Json

variable {key name : String} {fields : List (String × Json)}

theorem lookup_insertAbsent_self (isNew : fields.lookup key = none) (value : Json) :
    (insertAbsent key value fields).lookup key = some value := by
  induction fields with
  | nil => simp [insertAbsent]
  | cons head rest inductionHypothesis =>
    obtain ⟨k, v⟩ := head
    by_cases isKey : key = k
    · simp [isKey] at isNew
    · have notKey : (key == k) = false := beq_eq_false_iff_ne.mpr isKey
      rw [List.lookup_cons, notKey] at isNew
      simp only [insertAbsent, if_neg isKey]
      split
      · simp
      · rw [List.lookup_cons, notKey]
        exact inductionHypothesis isNew

theorem lookup_insertAbsent (other : name ≠ key) (value : Json) :
    (insertAbsent key value fields).lookup name = fields.lookup name := by
  have notKey : (name == key) = false := beq_eq_false_iff_ne.mpr other
  induction fields with
  | nil => simp [insertAbsent, List.lookup_cons, notKey]
  | cons head rest inductionHypothesis =>
    obtain ⟨k, v⟩ := head
    simp only [insertAbsent]
    split
    · rw [List.lookup_cons, notKey]
    · split
      · rfl
      · rw [List.lookup_cons, List.lookup_cons, inductionHypothesis]

/-- The fields of a normal form are the normal forms of the fields, when each is there once. -/
theorem lookup_normalizeFields (distinct : (fields.map Prod.fst).Nodup) (name : String) :
    (normalizeFields fields).lookup name = (fields.lookup name).map normalize := by
  induction fields generalizing name with
  | nil => rfl
  | cons head rest inductionHypothesis =>
    obtain ⟨k, v⟩ := head
    obtain ⟨notLater, restDistinct⟩ := List.nodup_cons.mp distinct
    by_cases isKey : name = k
    · subst isKey
      have isNew : (normalizeFields rest).lookup name = none := by
        rw [inductionHypothesis restDistinct, Option.map_eq_none_iff, List.lookup_eq_none_iff]
        intro f member
        rw [bne_iff_ne]
        rintro rfl
        exact notLater (List.mem_map.mpr ⟨f, member, rfl⟩)
      rw [normalizeFields, lookup_insertAbsent_self isNew, List.lookup_cons_self, Option.map_some]
    · rw [normalizeFields, lookup_insertAbsent isKey, inductionHypothesis restDistinct,
        List.lookup_cons, beq_eq_false_iff_ne.mpr isKey]

end Json

namespace RecordType

variable {types : List (String × Payload.FieldType)}

theorem normalize_of_admits {type : Payload.FieldType} {v : Json}
    (admitted : type.admits v = true) : v.normalize = v := by
  cases type <;> cases v <;> first | rfl | cases admitted

/-- Fields of some types: each under its name and with a value of its type. -/
inductive HasTypes : List (String × Payload.FieldType) → List (String × Json) → Prop
  | nil : HasTypes [] []
  | cons {name type v types fields} (admitted : type.admits v = true)
      (rest : HasTypes types fields) : HasTypes ((name, type) :: types) ((name, v) :: fields)

theorem hasTypes_of_ofObject? {object : Json} {fields : List (String × Json)}
    (taken : ofObject? object types = some fields) : HasTypes types fields := by
  induction types generalizing fields with
  | nil =>
    cases taken
    exact .nil
  | cons head rest inductionHypothesis =>
    simp only [ofObject?, Option.bind_eq_bind, Option.bind_eq_some_iff, pure, Option.some.injEq,
      Option.guard_eq_some'] at taken
    obtain ⟨v, _, _, admitted, others, restTaken, rfl⟩ := taken
    exact .cons admitted (inductionHypothesis restTaken)

theorem hasTypes_of_ofItems? {items : List Json} {fields : List (String × Json)}
    (taken : ofItems? types items = some fields) : HasTypes types fields := by
  induction types generalizing items fields with
  | nil =>
    cases items <;> cases taken
    exact .nil
  | cons head rest inductionHypothesis =>
    cases items with
    | nil => cases taken
    | cons v items =>
      simp only [ofItems?, Option.bind_eq_bind, Option.bind_eq_some_iff, pure, Option.some.injEq,
        Option.guard_eq_some'] at taken
      obtain ⟨_, admitted, others, restTaken, rfl⟩ := taken
      exact .cons admitted (inductionHypothesis restTaken)

theorem HasTypes.names {fields : List (String × Json)} (typed : HasTypes types fields) :
    fields.map Prod.fst = types.map Prod.fst := by
  induction typed with
  | nil => rfl
  | cons _ _ inductionHypothesis => rw [List.map_cons, List.map_cons, inductionHypothesis]

/-- Fields of the types are taken from every object that has them. -/
theorem HasTypes.ofObject? {object : Json} {fields : List (String × Json)}
    (typed : HasTypes types fields) (has : ∀ f ∈ fields, object.field? f.1 = some f.2) :
    RecordType.ofObject? object types = some fields := by
  induction typed with
  | nil => rfl
  | cons admitted _ inductionHypothesis =>
    obtain ⟨first, others⟩ := List.forall_mem_cons.mp has
    simp [RecordType.ofObject?, first, admitted, inductionHypothesis others, guard]

theorem HasTypes.normalize {fields : List (String × Json)} (typed : HasTypes types fields) :
    ∀ f ∈ fields, f.2.normalize = f.2 := by
  induction typed with
  | nil => simp
  | cons admitted _ inductionHypothesis =>
    exact List.forall_mem_cons.mpr ⟨normalize_of_admits admitted, inductionHypothesis⟩

/-- A record of a type whose fields have different names is decoded from its own encoding. -/
theorem knownTo_decode? {type : RecordType} (distinct : (type.fields.map Prod.fst).Nodup)
    {v : Json} {p : Payload} (decoded : type.decode? v = some p) : p.KnownTo type.decode? := by
  obtain ⟨fields, typed, rfl⟩ : ∃ fields, HasTypes type.fields fields ∧
      .ofJson type.name (.obj fields) = p := by
    cases v with
    | obj members =>
      obtain ⟨fields, taken, isPayload⟩ := Option.map_eq_some_iff.mp decoded
      exact ⟨fields, hasTypes_of_ofObject? taken, isPayload⟩
    | arr items =>
      obtain ⟨fields, taken, isPayload⟩ := Option.map_eq_some_iff.mp decoded
      exact ⟨fields, hasTypes_of_ofItems? taken, isPayload⟩
    | _ => cases decoded
  have distinctFields : (fields.map Prod.fst).Nodup := typed.names ▸ distinct
  have has : ∀ f ∈ fields, (Json.obj fields).normalize.field? f.1 = some f.2 := by
    intro f member
    have found : fields.lookup f.1 = some f.2 :=
      (List.lookup_eq_some_of_nodup distinctFields).mpr member
    rw [Json.normalize, Json.field?, Json.lookup_normalizeFields distinctFields, found,
      Option.map_some, typed.normalize f member]
  refine ⟨_, rfl, ?_⟩
  exact congrArg (Option.map _) (typed.ofObject? has)

end RecordType

/-- A plugin of records knows them when their fields have different names. -/
theorem Plugin.typed_coherent (name : String) {request response : RecordType}
    (distinctRequest : (request.fields.map Prod.fst).Nodup)
    (distinctResponse : (response.fields.map Prod.fst).Nodup) :
    (typed name request response).Coherent where
  request _ _ decoded := RecordType.knownTo_decode? distinctRequest decoded
  response _ _ decoded := RecordType.knownTo_decode? distinctResponse decoded

end PlanArchive
