import PlanArchive.Json.Basic

/-!
# Normal form of JSON values

Two values that differ in the order of fields only, or in a field that a later one of the same name
overrides, mean the same. The normal form has the fields of every object in ascending order of
their names, each name once; of fields with one name the last counts. Main statement:
`normalize_normalize`, a normal form is left as it is.

The sign of a zero is kept in the normal form, because it is written; `unsignedZeros` takes it away
where values are compared.
-/

namespace PlanArchive.Json

/-- Puts a field into its place among ascending names, unless the name is there. -/
def insertAbsent (key : String) (value : Json) : List (String × Json) → List (String × Json)
  | [] => [(key, value)]
  | (k, v) :: rest =>
    if key < k then (key, value) :: (k, v) :: rest
    else if key = k then (k, v) :: rest
    else (k, v) :: insertAbsent key value rest

mutual

/-- The normal form of a value. -/
def normalize : Json → Json
  | .arr items => .arr (normalizeItems items)
  | .obj fields => .obj (normalizeFields fields)
  | .null => .null
  | .bool b => .bool b
  | .int n => .int n
  | .real r => .real r
  | .str s => .str s

/-- The normal forms of the items of an array. -/
def normalizeItems : List Json → List Json
  | [] => []
  | v :: rest => normalize v :: normalizeItems rest

/-- The fields of an object in ascending order, values in normal form. -/
def normalizeFields : List (String × Json) → List (String × Json)
  | [] => []
  | (k, v) :: rest => insertAbsent k (normalize v) (normalizeFields rest)

end

mutual

/-- The value with no sign at any zero. -/
def unsignedZeros : Json → Json
  | .real r => .real r.unsignedZero
  | .arr items => .arr (unsignedZerosOfItems items)
  | .obj fields => .obj (unsignedZerosOfFields fields)
  | .null => .null
  | .bool b => .bool b
  | .int n => .int n
  | .str s => .str s

/-- The items of an array with no sign at any zero. -/
def unsignedZerosOfItems : List Json → List Json
  | [] => []
  | v :: rest => unsignedZeros v :: unsignedZerosOfItems rest

/-- The fields of an object with no sign at any zero. -/
def unsignedZerosOfFields : List (String × Json) → List (String × Json)
  | [] => []
  | (k, v) :: rest => (k, unsignedZeros v) :: unsignedZerosOfFields rest

end

/-- A value that is its own normal form. -/
def IsNormal (v : Json) : Prop := v.normalize = v

/-- Fields in ascending order with values in normal form. -/
def NormalFields (fields : List (String × Json)) : Prop :=
  fields.Pairwise (fun a b => a.1 < b.1) ∧ ∀ f ∈ fields, IsNormal f.2

theorem mem_insertAbsent {key : String} {value : Json} {fields : List (String × Json)}
    {f : String × Json} (member : f ∈ insertAbsent key value fields) :
    f = (key, value) ∨ f ∈ fields := by
  induction fields with
  | nil => simpa [insertAbsent] using member
  | cons head rest inductionHypothesis =>
    simp only [insertAbsent] at member
    split at member
    · simpa using member
    · split at member
      · exact .inr member
      · rcases List.mem_cons.mp member with isHead | inRest
        · exact .inr (by simp [isHead])
        · rcases inductionHypothesis inRest with isNew | old
          · exact .inl isNew
          · exact .inr (List.mem_cons_of_mem _ old)

theorem normalFields_insertAbsent {key : String} {value : Json} {fields : List (String × Json)}
    (normal : NormalFields fields) (valueNormal : IsNormal value) :
    NormalFields (insertAbsent key value fields) := by
  refine ⟨?_, ?_⟩
  · have ascending := normal.1
    clear normal
    induction fields with
    | nil => simp [insertAbsent]
    | cons head rest inductionHypothesis =>
      have ⟨headLeast, restAscending⟩ := List.pairwise_cons.mp ascending
      simp only [insertAbsent]
      split
      · rename_i below
        refine List.pairwise_cons.mpr ⟨?_, ascending⟩
        intro f member
        rcases List.mem_cons.mp member with isHead | inRest
        · simpa [isHead] using below
        · exact String.lt_trans below (headLeast f inRest)
      · split
        · exact ascending
        · rename_i notBelow different
          have above : head.1 < key := by
            rcases Std.lt_trichotomy key head.1 with h | h | h
            · exact absurd h notBelow
            · exact absurd h different
            · exact h
          refine List.pairwise_cons.mpr ⟨?_, inductionHypothesis restAscending⟩
          intro f member
          rcases mem_insertAbsent member with isNew | old
          · simpa [isNew] using above
          · exact headLeast f old
  · intro f member
    rcases mem_insertAbsent member with isNew | old
    · simpa [isNew] using valueNormal
    · exact normal.2 f old

theorem normalizeFields_eq_self {fields : List (String × Json)} (normal : NormalFields fields) :
    normalizeFields fields = fields := by
  induction fields with
  | nil => rfl
  | cons head rest inductionHypothesis =>
    have ⟨headLeast, restAscending⟩ := List.pairwise_cons.mp normal.1
    have restNormal : NormalFields rest :=
      ⟨restAscending, fun f member => normal.2 f (List.mem_cons_of_mem _ member)⟩
    have headNormal : head.2.normalize = head.2 := normal.2 head List.mem_cons_self
    simp only [normalizeFields, headNormal, inductionHypothesis restNormal]
    cases rest with
    | nil => rfl
    | cons next tail => simp [insertAbsent, headLeast next List.mem_cons_self]

mutual

/-- Taking the normal form twice changes nothing the second time. -/
theorem normalize_normalize : ∀ v : Json, v.normalize.normalize = v.normalize
  | .null => rfl
  | .bool _ => rfl
  | .int _ => rfl
  | .real _ => rfl
  | .str _ => rfl
  | .arr items => by simp [normalize, normalizeItems_normalizeItems items]
  | .obj fields => by
    simp [normalize, normalizeFields_eq_self (normalFields_normalizeFields fields)]

theorem normalizeItems_normalizeItems :
    ∀ items, normalizeItems (normalizeItems items) = normalizeItems items
  | [] => rfl
  | v :: rest => by
    simp [normalizeItems, normalize_normalize v, normalizeItems_normalizeItems rest]

theorem normalFields_normalizeFields : ∀ fields, NormalFields (normalizeFields fields)
  | [] => ⟨List.Pairwise.nil, by simp [normalizeFields]⟩
  | (_, v) :: rest =>
    normalFields_insertAbsent (normalFields_normalizeFields rest) (normalize_normalize v)

end

theorem isNormal_normalize (v : Json) : v.normalize.IsNormal := normalize_normalize v

instance (v : Json) : Decidable v.IsNormal := inferInstanceAs (Decidable (_ = _))

end PlanArchive.Json
