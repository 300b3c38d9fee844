import PlanArchive.Proofs.Json.RoundTrip

/-!
# Texts inside values

Reading a text goes down into the texts inside its value, and the number of levels is bounded by
the length of the text. `read?_eq`: the bound does not matter, each text inside is read like the one
around it. The reason is that a string that was read is shorter than the text it stood in
(`Reader.consumes_value`). `read?_toText_eq` says what becomes of the compact text of any value with
exact numbers, legible or not.
-/

namespace PlanArchive.Json

namespace Reader

/-! ## How much is read -/

theorem length_skipBlanks (text : List Char) : (skipBlanks text).length ≤ text.length := by
  induction text with
  | nil => exact Nat.le_refl _
  | cons c rest inductionHypothesis =>
    rw [skipBlanks]
    split
    · exact Nat.le_succ_of_le inductionHypothesis
    · exact Nat.le_refl _

theorem length_string {lenient : Bool} {read text rest : List Char} {s : String}
    (isRead : string lenient read text = some (s, rest)) :
    s.length + rest.length < read.length + text.length := by
  fun_induction string lenient read text
  case case1 =>
    cases isRead
    simp
  case case3 ih | case5 ih | case9 ih | case10 ih | case13 ih =>
    have shorter := ih isRead
    simp only [List.length_cons] at shorter ⊢
    omega
  all_goals cases isRead

theorem length_digits (text : List Char) : (digits text).2.length ≤ text.length := by
  induction text with
  | nil => exact Nat.le_refl _
  | cons c rest inductionHypothesis =>
    rw [digits]
    split
    · exact Nat.le_succ_of_le inductionHypothesis
    · exact Nat.le_refl _

theorem length_wholePart {text run rest : List Char} (isRead : wholePart text = some (run, rest)) :
    rest.length ≤ text.length := by
  have shorter := length_digits text
  unfold wholePart at isRead
  split at isRead
  · cases isRead
    exact Nat.le_succ _
  · split at isRead
    · cases isRead
    · rename_i split
      cases isRead
      rwa [split] at shorter

theorem length_fraction {text rest : List Char} {places : Option (List Char)}
    (isRead : fraction text = some (places, rest)) : rest.length ≤ text.length := by
  unfold fraction at isRead
  split at isRead
  · rename_i after
    have shorter := length_digits after
    split at isRead
    · cases isRead
    · rename_i split
      cases isRead
      rw [split] at shorter
      exact Nat.le_succ_of_le shorter
  · cases isRead
    exact Nat.le_refl _

theorem length_exponentDigits {negative : Bool} {text rest : List Char} {power : Option Int}
    (isRead : exponentDigits negative text = some (power, rest)) : rest.length ≤ text.length := by
  have shorter := length_digits text
  unfold exponentDigits at isRead
  split at isRead
  · cases isRead
  · rename_i split
    cases isRead
    rwa [split] at shorter

theorem length_exponent {text rest : List Char} {power : Option Int}
    (isRead : exponent text = some (power, rest)) : rest.length ≤ text.length := by
  unfold exponent at isRead
  split at isRead
  · split at isRead
    · split at isRead
      all_goals
        have shorter := length_exponentDigits isRead
        simp only [List.length_cons] at shorter ⊢
        omega
    · cases isRead
      exact Nat.le_refl _
  · cases isRead
    exact Nat.le_refl _

end Reader

/-! ## Strings in a value -/

mutual

/-- Every string in a value that is no name of a member is shorter than some length. -/
def TextsBelow (n : Nat) : Json → Prop
  | .str s => s.length < n
  | .arr items => TextsBelowItems n items
  | .obj fields => TextsBelowFields n fields
  | .null => True
  | .bool _ => True
  | .int _ => True
  | .real _ => True

/-- The items of an array have such strings only. -/
def TextsBelowItems (n : Nat) : List Json → Prop
  | [] => True
  | v :: rest => TextsBelow n v ∧ TextsBelowItems n rest

/-- The values of an object have such strings only. -/
def TextsBelowFields (n : Nat) : List (String × Json) → Prop
  | [] => True
  | (_, v) :: rest => TextsBelow n v ∧ TextsBelowFields n rest

end

theorem textsBelowItems_iff {n : Nat} {items : List Json} :
    TextsBelowItems n items ↔ ∀ v ∈ items, v.TextsBelow n := by
  induction items with
  | nil => simp [TextsBelowItems]
  | cons v rest inductionHypothesis => simp [TextsBelowItems, inductionHypothesis]

theorem textsBelowFields_iff {n : Nat} {fields : List (String × Json)} :
    TextsBelowFields n fields ↔ ∀ f ∈ fields, f.2.TextsBelow n := by
  induction fields with
  | nil => simp [TextsBelowFields]
  | cons f rest inductionHypothesis => simp [TextsBelowFields, inductionHypothesis]

theorem TextsBelow.mono {n m : Nat} {v : Json} (below : v.TextsBelow n) (longer : n ≤ m) :
    v.TextsBelow m := by
  induction v using inductionOn with
  | null => trivial
  | bool b => trivial
  | int n => trivial
  | real r => trivial
  | str s => exact Nat.lt_of_lt_of_le below longer
  | arr items inductionHypothesis =>
    exact textsBelowItems_iff.mpr fun w member =>
      inductionHypothesis w member (textsBelowItems_iff.mp below w member)
  | obj fields inductionHypothesis =>
    exact textsBelowFields_iff.mpr fun f member =>
      inductionHypothesis f member (textsBelowFields_iff.mp below f member)

/-! ## Values that are read -/

namespace Reader

/-- A reader that hands back no more than it was given, in which the strings of its value stood. -/
def Consumes (read : Reader Json) : Prop :=
  ∀ text v rest, read text = some (v, rest) →
    rest.length ≤ text.length ∧ v.TextsBelow text.length

theorem numberOfParts?_textsBelow {negative : Bool} {whole : List Char}
    {places : Option (List Char)} {power : Option Int} {v : Json} (n : Nat)
    (isValue : numberOfParts? negative whole places power = some v) : v.TextsBelow n := by
  simp only [numberOfParts?] at isValue
  split at isValue
  · cases isValue
    trivial
  · obtain ⟨r, _, rfl⟩ := Option.map_eq_some_iff.mp isValue
    trivial

theorem consumes_unsigned? (negative : Bool) : Consumes (unsigned? negative) := by
  intro text v rest isRead
  simp only [unsigned?, Option.bind_eq_bind, Option.bind_eq_some_iff, Prod.exists, Option.pure_def,
    Option.some.injEq, Prod.mk.injEq] at isRead
  obtain ⟨whole, afterWhole, wholeRead, places, afterPlaces, placesRead, power, afterPower,
    powerRead, w, isValue, rfl, rfl⟩ := isRead
  have first := length_wholePart wholeRead
  have second := length_fraction placesRead
  have third := length_exponent powerRead
  exact ⟨by omega, numberOfParts?_textsBelow _ isValue⟩

theorem consumes_number : Consumes (number false) := by
  intro text v rest isRead
  cases text with
  | nil => cases isRead
  | cons c after =>
    by_cases isMinus : c = '-'
    · subst isMinus
      rw [number_minus] at isRead
      obtain ⟨shorter, below⟩ := consumes_unsigned? true _ _ _ isRead
      exact ⟨Nat.le_succ_of_le shorter, below.mono (Nat.le_succ _)⟩
    · rw [number_plain isMinus] at isRead
      exact consumes_unsigned? false _ _ _ isRead

theorem consumes_scalar : Consumes (scalar false) := by
  intro text v rest isRead
  unfold scalar at isRead
  split at isRead
  case h_4 after =>
    simp only [Option.bind_eq_bind, Option.bind_eq_some_iff, Prod.exists, Option.some.injEq,
      Prod.mk.injEq] at isRead
    obtain ⟨s, _, stringRead, rfl, rfl⟩ := isRead
    have shorter := length_string stringRead
    simp only [TextsBelow, List.length_nil, List.length_cons] at shorter ⊢
    omega
  case h_5 => exact consumes_number _ _ _ isRead
  all_goals
    cases isRead
    simp only [TextsBelow, List.length_cons, and_true]
    omega

theorem consumes_items {item : Reader Json} (consumes : Consumes item) {fuel : Nat}
    {text rest : List Char} {vs : List Json} (isRead : items item fuel text = some (vs, rest)) :
    rest.length ≤ text.length ∧ ∀ v ∈ vs, v.TextsBelow text.length := by
  induction fuel generalizing text vs with
  | zero => cases isRead
  | succ fuel inductionHypothesis =>
    simp only [items, Option.bind_eq_bind, Option.bind_eq_some_iff, Prod.exists] at isRead
    obtain ⟨v, after, itemRead, isRead⟩ := isRead
    obtain ⟨shorter, below⟩ := consumes _ _ _ itemRead
    have blanks := length_skipBlanks text
    have moreBlanks := length_skipBlanks after
    split at isRead
    · rename_i later next
      simp only [Option.bind_eq_some_iff, Prod.exists, Option.some.injEq, Prod.mk.injEq] at isRead
      obtain ⟨others, _, othersRead, rfl, rfl⟩ := isRead
      obtain ⟨othersShorter, othersBelow⟩ := inductionHypothesis othersRead
      rw [next, List.length_cons] at moreBlanks
      refine ⟨by omega, List.forall_mem_cons.mpr ⟨below.mono blanks, ?_⟩⟩
      exact fun w member => (othersBelow w member).mono (by omega)
    · rename_i later next
      cases isRead
      rw [next, List.length_cons] at moreBlanks
      refine ⟨by omega, List.forall_mem_cons.mpr ⟨below.mono blanks, by simp⟩⟩
    · cases isRead

theorem consumes_array {item : Reader Json} (consumes : Consumes item) {text rest : List Char}
    {vs : List Json} (isRead : array item text = some (vs, rest)) :
    rest.length ≤ text.length ∧ ∀ v ∈ vs, v.TextsBelow text.length := by
  have blanks := length_skipBlanks text
  unfold array at isRead
  split at isRead
  · rename_i after next
    cases isRead
    rw [next, List.length_cons] at blanks
    exact ⟨by omega, by simp⟩
  · obtain ⟨shorter, below⟩ := consumes_items consumes isRead
    exact ⟨by omega, fun v member => (below v member).mono blanks⟩

theorem length_name {text rest : List Char} {key : String}
    (isRead : name false text = some (key, rest)) : rest.length ≤ text.length := by
  unfold name at isRead
  split at isRead
  · simp only [Option.bind_eq_bind, Option.bind_eq_some_iff, Prod.exists] at isRead
    obtain ⟨s, after, stringRead, isRead⟩ := isRead
    have shorter := length_string stringRead
    have blanks := length_skipBlanks after
    split at isRead
    · rename_i next
      cases isRead
      simp only [next, List.length_nil, List.length_cons] at shorter blanks ⊢
      omega
    · cases isRead
  · cases isRead

theorem consumes_members {value : String → Reader Json} (consumes : ∀ name, Consumes (value name))
    {fuel : Nat} {text rest : List Char} {fields : List (String × Json)}
    (isRead : members false value fuel text = some (fields, rest)) :
    rest.length ≤ text.length ∧ ∀ f ∈ fields, f.2.TextsBelow text.length := by
  induction fuel generalizing text fields with
  | zero => cases isRead
  | succ fuel inductionHypothesis =>
    simp only [members, Option.bind_eq_bind, Option.bind_eq_some_iff, Prod.exists] at isRead
    obtain ⟨key, afterName, nameRead, v, after, valueRead, isRead⟩ := isRead
    have blanks := length_skipBlanks text
    have nameShorter := length_name nameRead
    have nameBlanks := length_skipBlanks afterName
    obtain ⟨shorter, below⟩ := consumes _ _ _ _ valueRead
    have moreBlanks := length_skipBlanks after
    split at isRead
    · rename_i later next
      simp only [Option.bind_eq_some_iff, Prod.exists, Option.some.injEq, Prod.mk.injEq] at isRead
      obtain ⟨others, _, othersRead, rfl, rfl⟩ := isRead
      obtain ⟨othersShorter, othersBelow⟩ := inductionHypothesis othersRead
      rw [next, List.length_cons] at moreBlanks
      refine ⟨by omega, List.forall_mem_cons.mpr ⟨below.mono (by omega), ?_⟩⟩
      exact fun w member => (othersBelow w member).mono (by omega)
    · rename_i later next
      cases isRead
      rw [next, List.length_cons] at moreBlanks
      refine ⟨by omega, List.forall_mem_cons.mpr ⟨below.mono (by omega), by simp⟩⟩
    · cases isRead

theorem consumes_object {value : String → Reader Json} (consumes : ∀ name, Consumes (value name))
    {text rest : List Char} {fields : List (String × Json)}
    (isRead : object false value text = some (fields, rest)) :
    rest.length ≤ text.length ∧ ∀ f ∈ fields, f.2.TextsBelow text.length := by
  have blanks := length_skipBlanks text
  unfold object at isRead
  split at isRead
  · rename_i after next
    cases isRead
    rw [next, List.length_cons] at blanks
    exact ⟨by omega, by simp⟩
  · obtain ⟨shorter, below⟩ := consumes_members consumes isRead
    exact ⟨by omega, fun f member => (below f member).mono blanks⟩

/-- Every string in a value that was read is shorter than the text. -/
theorem consumes_value (depth : Nat) : Consumes (value false depth) := by
  induction depth with
  | zero => exact consumes_scalar
  | succ depth inductionHypothesis =>
    intro text v rest isRead
    unfold value at isRead
    split at isRead
    · simp only [Option.bind_eq_bind, Option.bind_eq_some_iff, Prod.exists, Option.some.injEq,
        Prod.mk.injEq] at isRead
      obtain ⟨vs, _, arrayRead, rfl, rfl⟩ := isRead
      obtain ⟨shorter, below⟩ := consumes_array inductionHypothesis arrayRead
      exact ⟨Nat.le_succ_of_le shorter, textsBelowItems_iff.mpr fun w member =>
        (below w member).mono (Nat.le_succ _)⟩
    · simp only [Option.bind_eq_bind, Option.bind_eq_some_iff, Prod.exists, Option.some.injEq,
        Prod.mk.injEq] at isRead
      obtain ⟨fields, _, objectRead, rfl, rfl⟩ := isRead
      obtain ⟨shorter, below⟩ := consumes_object (fun _ => inductionHypothesis) objectRead
      exact ⟨Nat.le_succ_of_le shorter, textsBelowFields_iff.mpr fun f member =>
        (below f member).mono (Nat.le_succ _)⟩
    · exact consumes_scalar _ _ _ isRead

theorem whole?_textsBelow {depth : Nat} {text : String} {v : Json}
    (isRead : whole? (value false depth) text = some v) : v.TextsBelow text.length := by
  simp only [whole?, Option.bind_eq_bind, Option.bind_eq_some_iff, Prod.exists] at isRead
  obtain ⟨w, rest, valueRead, ended⟩ := isRead
  split at ended
  · cases ended
    obtain ⟨_, below⟩ := consumes_value depth _ _ _ valueRead
    exact below.mono (length_skipBlanks text.toList)
  · cases ended

end Reader

/-! ## Enough levels -/

theorem embedded_congr {read other : String → Option Json} {n : Nat}
    (agree : ∀ s : String, s.length < n → read s = other s) {fields : List (String × Json)}
    (below : TextsBelowFields n fields) :
    (embeddedText? fields).bind read = (embeddedText? fields).bind other := by
  unfold embeddedText?
  split
  · exact agree _ below.1
  · rfl

/-- Ways to read texts that agree on those in a value make the same of it. -/
theorem expand_congr {read other : String → Option Json} {n : Nat}
    (agree : ∀ s : String, s.length < n → read s = other s) (v : Json) :
    v.TextsBelow n → v.expand read = v.expand other := by
  induction v using inductionOn with
  | null => exact fun _ => rfl
  | bool b => exact fun _ => rfl
  | int n => exact fun _ => rfl
  | real r => exact fun _ => rfl
  | str s => exact fun _ => rfl
  | arr items inductionHypothesis =>
    intro below
    have same : expandItems read items = expandItems other items := by
      have each := textsBelowItems_iff.mp below
      clear below
      induction items with
      | nil => rfl
      | cons v rest restSame =>
        obtain ⟨firstBelow, restBelow⟩ := List.forall_mem_cons.mp each
        obtain ⟨first, others⟩ := List.forall_mem_cons.mp inductionHypothesis
        rw [expandItems, expandItems, first firstBelow, restSame others restBelow]
    rw [expand, expand, same]
  | obj fields inductionHypothesis =>
    intro below
    have same : expandFields read fields = expandFields other fields := by
      have each := textsBelowFields_iff.mp below
      clear below
      induction fields with
      | nil => rfl
      | cons f rest restSame =>
        obtain ⟨name, v⟩ := f
        obtain ⟨firstBelow, restBelow⟩ := List.forall_mem_cons.mp each
        obtain ⟨first, others⟩ := List.forall_mem_cons.mp inductionHypothesis
        rw [expandFields, expandFields, first firstBelow, restSame others restBelow]
    rw [expand, expand, same, embedded_congr agree below]

/-- A text that is inside no more texts than there are levels is read whatever their number. -/
theorem readWithin?_of_length {depth levels : Nat} {text : String} (enough : text.length < levels) :
    readWithin? depth levels text = read? depth text := by
  induction length : text.length using Nat.strongRecOn generalizing text levels with
  | _ n inductionHypothesis =>
    obtain ⟨levels, rfl⟩ : ∃ l, levels = l + 1 := ⟨levels - 1, by omega⟩
    rw [read?, readWithin?, readWithin?]
    cases isRead : Reader.whole? (Reader.value false depth) text with
    | none => rfl
    | some v =>
      have agree : ∀ s : String, s.length < text.length →
          readWithin? depth levels s = readWithin? depth text.length s := by
        intro s shorter
        rw [inductionHypothesis s.length (length ▸ shorter) (by omega) rfl,
          inductionHypothesis s.length (length ▸ shorter) (by omega) rfl]
      exact expand_congr agree v (Reader.whole?_textsBelow isRead)

/-- What a text denotes: its value, with the texts inside it read in the same way. -/
theorem read?_eq (depth : Nat) (text : String) : read? depth text =
    (Reader.whole? (Reader.value false depth) text).bind (expand (read? depth)) := by
  conv => lhs; rw [read?, readWithin?]
  cases isRead : Reader.whole? (Reader.value false depth) text with
  | none => rfl
  | some v =>
    have agree : ∀ s : String, s.length < text.length →
        readWithin? depth text.length s = read? depth s := fun _ => readWithin?_of_length
    exact expand_congr agree v (Reader.whole?_textsBelow isRead)

/-- What the compact text of a value denotes: nothing when the value is nested too deep, and else
the value with the texts inside it read. -/
theorem read?_toText_eq {v : Json} {depth : Nat} (isExact : v.Exact) :
    read? depth v.toText = (Reader.within? depth v).bind (expand (read? depth)) := by
  rw [read?_eq, Reader.whole?_toText isExact (Reader.value_write v isExact trivial)]

end PlanArchive.Json
