import PlanArchive.Json.Embedded
import PlanArchive.Proofs.Json.Token

/-!
# Written values read back

The compact text of a value whose numbers are `Exact` is read as that value when its containers are
nested no deeper than the reader allows, and is not read at all when they are (`value_write`). The
reader of stored texts takes an object whose first member has the reserved name for a text inside;
`Legible` says that a value contains none of these, so that it is read back (`read?_toText`).
-/

namespace PlanArchive.Json

/-- Every value has a property that containers inherit from what they hold. -/
@[elab_as_elim]
theorem inductionOn {motive : Json → Prop} (v : Json) (null : motive .null)
    (bool : ∀ b, motive (.bool b)) (int : ∀ n, motive (.int n)) (real : ∀ r, motive (.real r))
    (str : ∀ s, motive (.str s))
    (arr : ∀ items, (∀ v ∈ items, motive v) → motive (.arr items))
    (obj : ∀ fields, (∀ f ∈ fields, motive f.2) → motive (.obj fields)) : motive v :=
  @Json.rec motive (fun items => ∀ v ∈ items, motive v) (fun fields => ∀ f ∈ fields, motive f.2)
    (fun f => motive f.2) null bool int real str arr obj (by simp)
    (fun _ _ first others => List.forall_mem_cons.mpr ⟨first, others⟩) (by simp)
    (fun _ _ first others => List.forall_mem_cons.mpr ⟨first, others⟩) (fun _ _ value => value) v

/-- A number that is read from its own text. -/
def Real.ReadsBack (r : Real) : Prop :=
  Reader.number false (writeReal r []) = some (.real r, [])

mutual

/-- A value all of whose numbers are read from their own texts: its integers fit into 64 bits and
its other numbers read back. -/
def Exact : Json → Prop
  | .int n => Reader.IntegerFits n
  | .real r => r.ReadsBack
  | .arr items => ExactItems items
  | .obj fields => ExactFields fields
  | .null => True
  | .bool _ => True
  | .str _ => True

/-- The items of an array are exact. -/
def ExactItems : List Json → Prop
  | [] => True
  | v :: rest => Exact v ∧ ExactItems rest

/-- The values of an object are exact. -/
def ExactFields : List (String × Json) → Prop
  | [] => True
  | (_, v) :: rest => Exact v ∧ ExactFields rest

end

mutual

/-- A value whose text the reader takes for nothing else: its integers fit into 64 bits, its other
numbers read back, and none of its objects stands for a text inside. -/
def Legible : Json → Prop
  | .int n => Reader.IntegerFits n
  | .real r => r.ReadsBack
  | .arr items => LegibleItems items
  | .obj fields => isEmbedding fields = false ∧ LegibleFields fields
  | .null => True
  | .bool _ => True
  | .str _ => True

/-- The items of an array are legible. -/
def LegibleItems : List Json → Prop
  | [] => True
  | v :: rest => Legible v ∧ LegibleItems rest

/-- The values of an object are legible. -/
def LegibleFields : List (String × Json) → Prop
  | [] => True
  | (_, v) :: rest => Legible v ∧ LegibleFields rest

end

theorem exactItems_iff {items : List Json} : ExactItems items ↔ ∀ v ∈ items, v.Exact := by
  induction items with
  | nil => simp [ExactItems]
  | cons v rest inductionHypothesis => simp [ExactItems, inductionHypothesis]

theorem exactFields_iff {fields : List (String × Json)} :
    ExactFields fields ↔ ∀ f ∈ fields, f.2.Exact := by
  induction fields with
  | nil => simp [ExactFields]
  | cons f rest inductionHypothesis => simp [ExactFields, inductionHypothesis]

theorem legibleItems_iff {items : List Json} : LegibleItems items ↔ ∀ v ∈ items, v.Legible := by
  induction items with
  | nil => simp [LegibleItems]
  | cons v rest inductionHypothesis => simp [LegibleItems, inductionHypothesis]

theorem legibleFields_iff {fields : List (String × Json)} :
    LegibleFields fields ↔ ∀ f ∈ fields, f.2.Legible := by
  induction fields with
  | nil => simp [LegibleFields]
  | cons f rest inductionHypothesis => simp [LegibleFields, inductionHypothesis]

/-- The numbers of a legible value are exact. -/
theorem Legible.exact {v : Json} : v.Legible → v.Exact := by
  induction v using inductionOn with
  | null => exact fun _ => trivial
  | bool b => exact fun _ => trivial
  | int n => exact id
  | real r => exact id
  | str s => exact fun _ => trivial
  | arr items inductionHypothesis =>
    intro legible
    exact exactItems_iff.mpr fun w member =>
      inductionHypothesis w member (legibleItems_iff.mp legible w member)
  | obj fields inductionHypothesis =>
    intro legible
    exact exactFields_iff.mpr fun f member =>
      inductionHypothesis f member (legibleFields_iff.mp legible.2 f member)

/-! ## How long written values are -/

theorem layOut_append (digits : List Char) (point : Int) (tail : List Char) :
    layOut digits point tail = layOut digits point [] ++ tail := by
  unfold layOut
  split
  · simp
  split
  · simp
  split
  · simp
  · simp only [writeExponent]
    split <;> simp

theorem writeReal_append (r : Real) (tail : List Char) :
    writeReal r tail = writeReal r [] ++ tail := by
  unfold writeReal
  split
  rw [layOut_append]
  split <;> simp

theorem length_writeChars (chars tail : List Char) :
    tail.length < (writeChars chars tail).length := by
  induction chars with
  | nil => simp [writeChars]
  | cons c rest inductionHypothesis =>
    have longer : ∀ text, text.length < (writeChar c text).length := by
      intro text
      unfold writeChar
      repeat' split
      all_goals simp only [List.length_cons, List.length_append, Hex.length_fixed]
      all_goals omega
    exact Nat.lt_trans inductionHypothesis (longer _)

theorem length_writeString (s : String) (tail : List Char) :
    tail.length < (writeString s tail).length :=
  Nat.lt_succ_of_lt (length_writeChars s.toList tail)

theorem length_writeItems {items : List Json}
    (each : ∀ v ∈ items, ∀ tail, tail.length ≤ (v.write tail).length)
    (tail : List Char) : items.length + tail.length < (writeItems items tail).length := by
  induction items with
  | nil => simp [writeItems]
  | cons v rest inductionHypothesis =>
    have restLonger := inductionHypothesis fun w member => each w (List.mem_cons_of_mem _ member)
    have firstLonger := each v List.mem_cons_self (writeItems rest tail)
    simp only [writeItems, List.length_cons]
    omega

theorem length_writeFields {fields : List (String × Json)}
    (each : ∀ f ∈ fields, ∀ tail, tail.length ≤ (f.2.write tail).length) (tail : List Char) :
    fields.length + tail.length < (writeFields fields tail).length := by
  induction fields with
  | nil => simp [writeFields]
  | cons f rest inductionHypothesis =>
    obtain ⟨name, v⟩ := f
    have restLonger := inductionHypothesis fun w member => each w (List.mem_cons_of_mem _ member)
    have firstLonger : _ ≤ (v.write (writeFields rest tail)).length :=
      each (name, v) List.mem_cons_self _
    have nameLonger := length_writeString name (':' :: v.write (writeFields rest tail))
    simp only [writeFields, List.length_cons] at nameLonger ⊢
    omega

/-- A written value is no shorter than nothing: its text stands in front of what follows. -/
theorem length_write (v : Json) : ∀ tail, tail.length ≤ (v.write tail).length := by
  induction v using inductionOn with
  | null =>
    intro tail
    simp only [write, List.length_cons]
    omega
  | bool b =>
    intro tail
    cases b <;> simp only [write, List.length_cons] <;> omega
  | int n =>
    intro tail
    rw [write, Reader.writeInt_append]
    simp
  | real r =>
    intro tail
    rw [write, writeReal_append]
    simp
  | str s => exact fun tail => Nat.le_of_lt (length_writeString s tail)
  | arr items inductionHypothesis =>
    intro tail
    cases items with
    | nil =>
      simp only [write, List.length_cons]
      omega
    | cons v rest =>
      have restLonger := length_writeItems
        (fun w member => inductionHypothesis w (List.mem_cons_of_mem _ member)) tail
      have firstLonger := inductionHypothesis v List.mem_cons_self (writeItems rest tail)
      simp only [write, List.length_cons]
      omega
  | obj fields inductionHypothesis =>
    intro tail
    cases fields with
    | nil =>
      simp only [write, List.length_cons]
      omega
    | cons f rest =>
      obtain ⟨name, v⟩ := f
      have restLonger := length_writeFields
        (fun w member => inductionHypothesis w (List.mem_cons_of_mem _ member)) tail
      have firstLonger : _ ≤ (v.write (writeFields rest tail)).length :=
        inductionHypothesis (name, v) List.mem_cons_self _
      have nameLonger := length_writeString name (':' :: v.write (writeFields rest tail))
      simp only [write, List.length_cons] at nameLonger ⊢
      omega

/-! ## How written values start -/

/-- The first character of a value: neither a blank nor the end of an array. -/
def StartsValue : List Char → Prop
  | [] => False
  | c :: _ => Reader.isBlank c = false ∧ c ≠ ']'

theorem StartsValue.of_number : ∀ {text : List Char}, Reader.StartsNumber text → StartsValue text
  | c :: _, starts => by
    rcases starts with rfl | isDigit
    · exact ⟨rfl, by decide⟩
    · refine ⟨?_, ?_⟩
      · rw [Bool.eq_false_iff]
        intro isBlank
        simp only [Reader.isBlank, Bool.or_eq_true, beq_iff_eq] at isBlank
        rcases isBlank with ((rfl | rfl) | rfl) | rfl <;> cases isDigit
      · rintro rfl
        cases isDigit

namespace Reader

theorem number_write_real {r : Real} (readsBack : r.ReadsBack) {tail : List Char}
    (delimited : Delimited tail) : number false (writeReal r tail) = some (.real r, tail) := by
  rw [writeReal_append]
  exact number_append delimited.endsNumber readsBack

theorem number_write_int {n : Int} (fits : IntegerFits n) {tail : List Char}
    (delimited : Delimited tail) : number false (writeInt n tail) = some (.int n, tail) := by
  rw [writeInt_append]
  exact number_append delimited.endsNumber (number_writeInt fits)

end Reader

theorem startsValue_write {v : Json} (isExact : v.Exact) {tail : List Char}
    (delimited : Reader.Delimited tail) : StartsValue (v.write tail) := by
  cases v with
  | null => exact ⟨rfl, by decide⟩
  | bool b => cases b <;> exact ⟨rfl, by decide⟩
  | int n =>
    exact .of_number (Reader.startsNumber_of_number (Reader.number_write_int isExact delimited))
  | real r =>
    exact .of_number (Reader.startsNumber_of_number (Reader.number_write_real isExact delimited))
  | str s => exact ⟨rfl, by decide⟩
  | arr items => cases items <;> exact ⟨rfl, by decide⟩
  | obj fields => cases fields <;> exact ⟨rfl, by decide⟩

theorem isEmpty_toText {v : Json} (isExact : v.Exact) : v.toText.isEmpty = false := by
  have starts : StartsValue (v.write []) := startsValue_write isExact trivial
  cases written : v.write [] with
  | nil => simp [written, StartsValue] at starts
  | cons c rest => simp [toText, written]

namespace Reader

theorem skipBlanks_of_startsValue : ∀ {text : List Char}, StartsValue text → skipBlanks text = text
  | c :: rest, ⟨notBlank, _⟩ => by simp [skipBlanks, notBlank]

theorem skipBlanks_writeString (s : String) (tail : List Char) :
    skipBlanks (writeString s tail) = writeString s tail := rfl

theorem scalar_of_number {text rest : List Char} {v : Json}
    (read : number false text = some (v, rest)) : scalar false text = some (v, rest) := by
  have starts := startsNumber_of_number read
  unfold scalar
  split
  · rcases starts with impossible | impossible <;> cases impossible
  · rcases starts with impossible | impossible <;> cases impossible
  · rcases starts with impossible | impossible <;> cases impossible
  · rcases starts with impossible | impossible <;> cases impossible
  · exact read

/-- A value that opens no container is read at any depth. -/
theorem value_eq_scalar (depth : Nat) {c : Char} {text : List Char} (noArray : c ≠ '[')
    (noObject : c ≠ '{') : value false depth (c :: text) = scalar false (c :: text) := by
  cases depth with
  | zero => rfl
  | succ depth =>
    unfold value
    split <;> simp_all

theorem value_of_number (depth : Nat) {text rest : List Char} {v : Json}
    (read : number false text = some (v, rest)) : value false depth text = some (v, rest) := by
  have starts := startsNumber_of_number read
  have isScalar := scalar_of_number read
  cases text with
  | nil => exact starts.elim
  | cons c text =>
    rw [value_eq_scalar, isScalar]
    · rintro rfl
      rcases starts with impossible | impossible <;> cases impossible
    · rintro rfl
      rcases starts with impossible | impossible <;> cases impossible

/-! ## Containers -/

theorem delimited_writeItems (items : List Json) (tail : List Char) :
    Delimited (writeItems items tail) := by
  cases items with
  | nil => exact .inr (.inl rfl)
  | cons v rest => exact .inl rfl

theorem delimited_writeFields (fields : List (String × Json)) (tail : List Char) :
    Delimited (writeFields fields tail) := by
  cases fields with
  | nil => exact .inr (.inr rfl)
  | cons f rest => exact .inl rfl

/-- What becomes of the items of an array is known when it is known of each item in front of more
text. -/
theorem items_write {α : Type} {item : Reader α} {result : Json → Option α} {v : Json}
    {rest : List Json}
    (each : ∀ w ∈ v :: rest, ∀ tail, Delimited tail →
      StartsValue (w.write tail) ∧ item (w.write tail) = (result w).map fun x => (x, tail))
    (fuel : Nat) (enough : rest.length < fuel) (tail : List Char) :
    items item fuel (v.write (writeItems rest tail)) =
      ((v :: rest).mapM result).map fun xs => (xs, tail) := by
  induction rest generalizing v fuel with
  | nil =>
    obtain ⟨fuel, rfl⟩ : ∃ n, fuel = n + 1 := ⟨fuel - 1, by omega⟩
    obtain ⟨starts, read⟩ := each v List.mem_cons_self _ (delimited_writeItems [] tail)
    simp only [items, skipBlanks_of_startsValue starts, read]
    cases found : result v <;> simp [found, writeItems, skipBlanks, isBlank]
  | cons w rest inductionHypothesis =>
    obtain ⟨fuel, rfl⟩ : ∃ n, fuel = n + 1 := ⟨fuel - 1, by omega⟩
    obtain ⟨starts, read⟩ := each v List.mem_cons_self _ (delimited_writeItems (w :: rest) tail)
    have others := inductionHypothesis (fun x member => each x (List.mem_cons_of_mem _ member)) fuel
      (by simp only [List.length_cons] at enough; omega)
    rw [List.mapM_cons]
    simp only [items, skipBlanks_of_startsValue starts, read]
    cases result v with
    | none => rfl
    | some x =>
      simp only [writeItems, Option.map_some, Option.bind_eq_bind, Option.bind_some, skipBlanks,
        show isBlank ',' = false from rfl, Bool.false_eq_true, if_false, others]
      cases (w :: rest).mapM result <;> rfl

theorem array_write {α : Type} {item : Reader α} {result : Json → Option α} {items : List Json}
    (each : ∀ w ∈ items, ∀ tail, Delimited tail →
      StartsValue (w.write tail) ∧ item (w.write tail) = (result w).map fun x => (x, tail))
    (tail : List Char) :
    ∃ text, (Json.arr items).write tail = '[' :: text ∧
      array item text = (items.mapM result).map fun xs => (xs, tail) := by
  cases items with
  | nil => exact ⟨_, rfl, rfl⟩
  | cons v rest =>
    refine ⟨_, rfl, ?_⟩
    obtain ⟨starts, -⟩ := each v List.mem_cons_self _ (delimited_writeItems rest tail)
    have enough : rest.length < (v.write (writeItems rest tail)).length := by
      have long : rest.length + tail.length < (writeItems rest tail).length :=
        length_writeItems (fun w _ => length_write w) tail
      have longer := length_write v (writeItems rest tail)
      omega
    have read := items_write each _ enough tail
    unfold array
    rw [skipBlanks_of_startsValue starts]
    split
    · rename_i closes
      rw [closes] at starts
      exact absurd rfl starts.2
    · exact read

theorem name_writeString (s : String) (tail : List Char) :
    name false (writeString s (':' :: tail)) = some (s, tail) := by
  simp only [name, writeString, string_writeChars, Option.bind_eq_bind, Option.bind_some,
    skipBlanks, show isBlank ':' = false from rfl, Bool.false_eq_true, if_false, List.reverse_nil,
    List.nil_append, String.ofList_toList]

/-- The result for a member with its name. -/
def namedResult {α : Type} (result : String → Json → Option α) (f : String × Json) :
    Option (String × α) :=
  (result f.1 f.2).map fun x => (f.1, x)

/-- What becomes of the members of an object is known when it is known of each value in front of
more text. -/
theorem members_write {α : Type} {read : String → Reader α} {result : String → Json → Option α}
    {f : String × Json} {rest : List (String × Json)}
    (each : ∀ g ∈ f :: rest, ∀ tail, Delimited tail → StartsValue (g.2.write tail) ∧
      read g.1 (g.2.write tail) = (result g.1 g.2).map fun x => (x, tail))
    (fuel : Nat) (enough : rest.length < fuel) (tail : List Char) :
    members false read fuel (writeString f.1 (':' :: f.2.write (writeFields rest tail))) =
      ((f :: rest).mapM (namedResult result)).map fun xs => (xs, tail) := by
  induction rest generalizing f fuel with
  | nil =>
    obtain ⟨fuel, rfl⟩ : ∃ n, fuel = n + 1 := ⟨fuel - 1, by omega⟩
    obtain ⟨starts, valueRead⟩ := each f List.mem_cons_self _ (delimited_writeFields [] tail)
    simp only [members, skipBlanks_writeString, name_writeString, skipBlanks_of_startsValue starts,
      valueRead, Option.bind_eq_bind, Option.bind_some]
    cases found : result f.1 f.2 <;>
      simp [namedResult, found, writeFields, skipBlanks, isBlank]
  | cons g rest inductionHypothesis =>
    obtain ⟨fuel, rfl⟩ : ∃ n, fuel = n + 1 := ⟨fuel - 1, by omega⟩
    obtain ⟨starts, valueRead⟩ :=
      each f List.mem_cons_self _ (delimited_writeFields (g :: rest) tail)
    have others := inductionHypothesis (fun x member => each x (List.mem_cons_of_mem _ member)) fuel
      (by simp only [List.length_cons] at enough; omega)
    rw [List.mapM_cons]
    simp only [members, skipBlanks_writeString, name_writeString, skipBlanks_of_startsValue starts,
      valueRead, Option.bind_eq_bind, Option.bind_some]
    cases found : result f.1 f.2 with
    | none => simp [namedResult, found]
    | some x =>
      simp only [namedResult, found, Option.map_some, Option.bind_some, writeFields, skipBlanks,
        show isBlank ',' = false from rfl, Bool.false_eq_true, if_false]
      rw [others]
      cases (g :: rest).mapM (namedResult result) <;> rfl

theorem object_write {α : Type} {read : String → Reader α} {result : String → Json → Option α}
    {fields : List (String × Json)}
    (each : ∀ g ∈ fields, ∀ tail, Delimited tail → StartsValue (g.2.write tail) ∧
      read g.1 (g.2.write tail) = (result g.1 g.2).map fun x => (x, tail))
    (tail : List Char) :
    ∃ text, (Json.obj fields).write tail = '{' :: text ∧
      object false read text =
        (fields.mapM (namedResult result)).map fun xs => (xs, tail) := by
  cases fields with
  | nil => exact ⟨_, rfl, rfl⟩
  | cons f rest =>
    refine ⟨_, rfl, ?_⟩
    have enough : rest.length <
        (writeString f.1 (':' :: f.2.write (writeFields rest tail))).length := by
      have long : rest.length + tail.length < (writeFields rest tail).length :=
        length_writeFields (fun w _ => length_write w.2) tail
      have longer := length_write f.2 (writeFields rest tail)
      have longest := length_writeString f.1 (':' :: f.2.write (writeFields rest tail))
      rw [List.length_cons] at longest
      omega
    have written := members_write each _ enough tail
    unfold object
    rw [skipBlanks_writeString]
    split
    · rename_i closes
      cases closes
    · exact written

/-! ## Values -/

/-- The value, if it is nested no deeper than `depth`. -/
def within? (depth : Nat) (v : Json) : Option Json := if v.nesting ≤ depth then some v else none

theorem mapM_within? (depth : Nat) (items : List Json) : items.mapM (within? depth) =
    if nestingOfItems items ≤ depth then some items else none := by
  induction items with
  | nil => rfl
  | cons v rest inductionHypothesis =>
    simp only [List.mapM_cons, inductionHypothesis, within?, nestingOfItems, Nat.max_le]
    by_cases first : v.nesting ≤ depth
    · by_cases others : nestingOfItems rest ≤ depth <;> simp [first, others]
    · simp [first]

theorem mapM_named_within? (depth : Nat) (fields : List (String × Json)) :
    fields.mapM (namedResult fun _ => within? depth) =
      if nestingOfFields fields ≤ depth then some fields else none := by
  induction fields with
  | nil => rfl
  | cons f rest inductionHypothesis =>
    simp only [List.mapM_cons, inductionHypothesis, namedResult, within?, nestingOfFields,
      Nat.max_le]
    by_cases first : f.2.nesting ≤ depth
    · by_cases others : nestingOfFields rest ≤ depth <;> simp [first, others]
    · simp [first]

/-- A container is not read where no more containers are allowed. -/
theorem value_zero_container {c : Char} (opens : c = '[' ∨ c = '{') (text : List Char) :
    value false 0 (c :: text) = none := by
  rcases opens with rfl | rfl <;> rfl

/-- A value with exact numbers is read from its text by a reader that allows its nesting, and by no
other. -/
theorem value_write (v : Json) : ∀ {depth : Nat} {tail : List Char}, v.Exact → Delimited tail →
    value false depth (v.write tail) = (within? depth v).map fun w => (w, tail) := by
  induction v using inductionOn with
  | null => exact fun _ _ => value_eq_scalar _ (by decide) (by decide)
  | bool b =>
    cases b
    · exact fun _ _ => value_eq_scalar _ (by decide) (by decide)
    · exact fun _ _ => value_eq_scalar _ (by decide) (by decide)
  | int n => exact fun isExact delimited => value_of_number _ (number_write_int isExact delimited)
  | real r => exact fun isExact delimited => value_of_number _ (number_write_real isExact delimited)
  | str s =>
    intro depth tail _ _
    rw [write, writeString, value_eq_scalar _ (by decide) (by decide)]
    simp [scalar, string_writeChars, within?, nesting]
  | arr items inductionHypothesis =>
    intro depth tail isExact delimited
    have each : ∀ depth, ∀ w ∈ items, ∀ tail, Delimited tail → StartsValue (w.write tail) ∧
        value false depth (w.write tail) = (within? depth w).map fun x => (x, tail) := by
      intro depth w member tail delimited
      have itemExact := exactItems_iff.mp isExact w member
      exact ⟨startsValue_write itemExact delimited,
        inductionHypothesis w member itemExact delimited⟩
    cases depth with
    | zero =>
      obtain ⟨text, written, _⟩ := array_write (each 0) tail
      rw [written, value_zero_container (.inl rfl)]
      rfl
    | succ depth =>
      obtain ⟨text, written, read⟩ := array_write (each depth) tail
      rw [mapM_within?] at read
      by_cases shallow : nestingOfItems items ≤ depth
      · simp [written, value, read, within?, nesting, shallow]
      · simp [written, value, read, within?, nesting, shallow]
  | obj fields inductionHypothesis =>
    intro depth tail isExact delimited
    have each : ∀ depth, ∀ f ∈ fields, ∀ tail, Delimited tail → StartsValue (f.2.write tail) ∧
        value false depth (f.2.write tail) = (within? depth f.2).map fun x => (x, tail) := by
      intro depth f member tail delimited
      have fieldExact := exactFields_iff.mp isExact f member
      exact ⟨startsValue_write fieldExact delimited,
        inductionHypothesis f member fieldExact delimited⟩
    cases depth with
    | zero =>
      obtain ⟨text, written, _⟩ :=
        @object_write Json (fun _ => value false 0) (fun _ => within? 0) fields (each 0) tail
      rw [written, value_zero_container (.inr rfl)]
      rfl
    | succ depth =>
      obtain ⟨text, written, read⟩ := @object_write Json (fun _ => value false depth)
        (fun _ => within? depth) fields (each depth) tail
      rw [mapM_named_within?] at read
      by_cases shallow : nestingOfFields fields ≤ depth
      · simp [written, value, read, within?, nesting, shallow]
      · simp [written, value, read, within?, nesting, shallow]

/-- A reader of whole texts makes of the text of a value what it makes of it in front of nothing. -/
theorem whole?_toText {α : Type} {read : Reader α} {v : Json} {result : Option α}
    (isExact : v.Exact) (isRead : read (v.write []) = result.map fun x => (x, [])) :
    whole? read v.toText = result := by
  have starts : StartsValue (v.write []) := startsValue_write isExact trivial
  cases result <;> simp [whole?, toText, skipBlanks_of_startsValue starts, isRead, skipBlanks]

end Reader

/-! ## Texts inside -/

/-- A legible value holds no text inside. -/
theorem expand_of_legible (read : String → Option Json) (v : Json) :
    v.Legible → v.expand read = some v := by
  induction v using inductionOn with
  | null => exact fun _ => rfl
  | bool b => exact fun _ => rfl
  | int n => exact fun _ => rfl
  | real r => exact fun _ => rfl
  | str s => exact fun _ => rfl
  | arr items inductionHypothesis =>
    intro legible
    have expanded : expandItems read items = some items := by
      rw [Legible, legibleItems_iff] at legible
      induction items with
      | nil => rfl
      | cons v rest restExpanded =>
        have first := inductionHypothesis v List.mem_cons_self (legible v List.mem_cons_self)
        have others := restExpanded
          (fun w member => inductionHypothesis w (List.mem_cons_of_mem _ member))
          (fun w member => legible w (List.mem_cons_of_mem _ member))
        simp [expandItems, first, others]
    simp [expand, expanded]
  | obj fields inductionHypothesis =>
    intro legible
    have expanded : expandFields read fields = some fields := by
      have valuesLegible := legibleFields_iff.mp legible.2
      clear legible
      induction fields with
      | nil => rfl
      | cons f rest restExpanded =>
        obtain ⟨name, v⟩ := f
        have first : v.expand read = some v :=
          inductionHypothesis (name, v) List.mem_cons_self
            (valuesLegible (name, v) List.mem_cons_self)
        have others := restExpanded
          (fun w member => inductionHypothesis w (List.mem_cons_of_mem _ member))
          (fun w member => valuesLegible w (List.mem_cons_of_mem _ member))
        simp [expandFields, first, others]
    simp [expand, legible.1, expanded]

/-- The compact text of a legible value denotes that value. -/
theorem read?_toText {v : Json} {depth : Nat} (legible : v.Legible) (shallow : v.nesting ≤ depth) :
    read? depth v.toText = some v := by
  have isRead := Reader.whole?_toText legible.exact
    (@Reader.value_write v depth [] legible.exact trivial)
  simp [read?, readWithin?, isRead, Reader.within?, shallow, expand_of_legible _ v legible]

end PlanArchive.Json
