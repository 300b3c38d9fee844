import PlanArchive.Proofs.Text.Spelling

/-!
# Written identifiers in order

Identifiers stand in the order of their canonical texts: `Uuid.toText_lt_toText`. The digits of a
number are in a fixed width, so that the first one that differs decides, and the hyphens stand at
the same places in every text. Each character of these texts is one byte, so that it does not matter
whether characters are compared or bytes (`Uuid.bytes_lt_bytes`).
-/

namespace PlanArchive

/-- Of texts that begin with equally many characters these are compared first. -/
theorem List.append_lt_append_iff {first second xs ys : List Char}
    (sameLength : first.length = second.length) :
    first ++ xs < second ++ ys ↔ first < second ∨ first = second ∧ xs < ys := by
  induction first generalizing second with
  | nil =>
    rw [List.eq_nil_of_length_eq_zero sameLength.symm]
    simp
  | cons c rest inductionHypothesis =>
    obtain ⟨d, others, rfl⟩ := List.exists_cons_of_length_eq_add_one sameLength.symm
    have restLength : rest.length = others.length := Nat.succ.inj sameLength
    simp only [List.cons_append, List.cons_lt_cons_iff, inductionHypothesis restLength,
      List.cons.injEq]
    grind

theorem String.compare_eq_lt {first second : String} :
    compare first second = .lt ↔ first < second := by
  change compareOfLessAndEq first second = .lt ↔ _
  exact compareOfLessAndEq_eq_lt

/-- Texts of characters that are one byte each are in the order of their bytes. -/
theorem List.utf8_lt_utf8 {first second : List Char} (single : ∀ c ∈ first, c.toNat ≤ 0x7f)
    (alsoSingle : ∀ c ∈ second, c.toNat ≤ 0x7f) :
    first.flatMap String.utf8EncodeChar < second.flatMap String.utf8EncodeChar ↔
      first < second := by
  induction first generalizing second with
  | nil =>
    cases second with
    | nil => simp
    | cons d others =>
      obtain ⟨byte, encoded, _⟩ := Hex.exists_byte (alsoSingle d List.mem_cons_self)
      simp [encoded]
  | cons c rest inductionHypothesis =>
    cases second with
    | nil => simp
    | cons d others =>
      obtain ⟨cSingle, restSingle⟩ := List.forall_mem_cons.mp single
      obtain ⟨dSingle, othersSingle⟩ := List.forall_mem_cons.mp alsoSingle
      obtain ⟨first, cEncoded, cValue⟩ := Hex.exists_byte cSingle
      obtain ⟨second, dEncoded, dValue⟩ := Hex.exists_byte dSingle
      have sameOrder : first < second ↔ c < d := by
        rw [UInt8.lt_iff_toNat_lt, cValue, dValue]
        rfl
      have sameByte : first = second ↔ c = d := by
        rw [← UInt8.toNat_inj, cValue, dValue, Char.toNat_inj]
      simp only [List.flatMap_cons, cEncoded, dEncoded, List.cons_append, List.nil_append,
        List.cons_lt_cons_iff, sameOrder, sameByte, inductionHypothesis restSingle othersSingle]

namespace Hex

theorem digit_lt_digit : ∀ {m : Nat}, m < 16 → ∀ {n : Nat}, n < 16 →
    (digit m < digit n ↔ m < n) := by decide

theorem exists_digit_of_mem_fixed {width n : Nat} {c : Char} (member : c ∈ fixed width n) :
    ∃ m < 16, c = digit m := by
  induction width generalizing n with
  | zero => cases member
  | succ width inductionHypothesis =>
    rcases List.mem_append.mp member with inFront | isLast
    · exact inductionHypothesis inFront
    · exact ⟨n % 16, Nat.mod_lt _ (by decide), List.mem_singleton.mp isLast⟩

theorem fixed_injective {width m n : Nat} (first : m < Nat.pow 16 width)
    (second : n < Nat.pow 16 width) (same : fixed width m = fixed width n) : m = n := by
  have read := congrArg read? same
  rw [read?_fixed first, read?_fixed second] at read
  exact Option.some.inj read

/-- Digits of one width are in the order of the numbers they denote. -/
theorem fixed_lt_fixed {width m n : Nat} (first : m < Nat.pow 16 width)
    (second : n < Nat.pow 16 width) : fixed width m < fixed width n ↔ m < n := by
  induction width generalizing m n with
  | zero =>
    have isZero : Nat.pow 16 0 = 1 := rfl
    simp only [fixed, List.lt_irrefl, false_iff]
    omega
  | succ width inductionHypothesis =>
    have size : Nat.pow 16 (width + 1) = Nat.pow 16 width * 16 := rfl
    have firstHigh : m / 16 < Nat.pow 16 width := by omega
    have secondHigh : n / 16 < Nat.pow 16 width := by omega
    have sameHigh : fixed width (m / 16) = fixed width (n / 16) ↔ m / 16 = n / 16 :=
      ⟨fixed_injective firstHigh secondHigh, congrArg _⟩
    have lastDigit : [digit (m % 16)] < [digit (n % 16)] ↔ m % 16 < n % 16 := by
      rw [List.cons_lt_cons_iff, digit_lt_digit (Nat.mod_lt _ (by decide))
        (Nat.mod_lt _ (by decide))]
      simp
    rw [fixed, fixed, List.append_lt_append_iff (by simp),
      inductionHypothesis firstHigh secondHigh, sameHigh, lastDigit]
    omega

end Hex

namespace Uuid

/-- Hyphens at the same places do not matter to the order of digits. -/
theorem joinGroups_lt_joinGroups (widths : List Nat) {first second : List Char}
    (sameLength : first.length = second.length) :
    joinGroups widths first < joinGroups widths second ↔ first < second := by
  induction widths generalizing first second with
  | nil => rfl
  | cons width widths inductionHypothesis =>
    cases widths with
    | nil => rfl
    | cons next widths =>
      have heads : (first.take width).length = (second.take width).length := by
        simp [sameLength]
      have tails : (first.drop width).length = (second.drop width).length := by
        simp [sameLength]
      simp only [joinGroups] at inductionHypothesis ⊢
      rw [List.append_lt_append_iff heads, List.cons_lt_cons_iff, inductionHypothesis tails]
      conv => rhs; rw [← List.take_append_drop width first, ← List.take_append_drop width second]
      rw [List.append_lt_append_iff heads]
      simp

/-- Canonical texts are in the order of their identifiers. -/
theorem toText_lt_toText {first second : Uuid} :
    first.toText < second.toText ↔ first.value < second.value := by
  rw [String.lt_iff, toText, toText, String.toList_ofList, String.toList_ofList, toChars, toChars,
    joinGroups_lt_joinGroups _ (by simp)]
  exact Hex.fixed_lt_fixed first.value_lt second.value_lt

theorem compare_toText (first second : Uuid) :
    compare first.toText second.toText = compare first.value second.value := by
  rcases Nat.lt_trichotomy first.value second.value with less | same | greater
  · rw [Nat.compare_eq_lt.mpr less, String.compare_eq_lt, toText_lt_toText]
    exact less
  · have sameText : first.toText = second.toText := by simp only [toText, toChars, same]
    rw [sameText, same, Std.ReflOrd.compare_self, Std.ReflOrd.compare_self]
  · rw [Nat.compare_eq_gt.mpr greater, Std.OrientedCmp.gt_iff_lt, String.compare_eq_lt,
      toText_lt_toText]
    exact greater

/-- Grouping puts nothing but hyphens between characters. -/
theorem mem_joinGroups {widths : List Nat} {chars : List Char} {c : Char}
    (member : c ∈ joinGroups widths chars) : c = '-' ∨ c ∈ chars := by
  induction widths generalizing chars with
  | nil => exact .inr member
  | cons width widths inductionHypothesis =>
    cases widths with
    | nil => exact .inr member
    | cons next widths =>
      rcases List.mem_append.mp member with isTaken | later
      · exact .inr (List.mem_of_mem_take isTaken)
      · rcases List.mem_cons.mp later with isHyphen | isRest
        · exact .inl isHyphen
        · exact (inductionHypothesis isRest).imp_right List.mem_of_mem_drop

theorem toNat_le_of_mem_toChars {id : Uuid} {c : Char} (member : c ∈ id.toChars) :
    c.toNat ≤ 0x7f := by
  rcases mem_joinGroups member with rfl | isDigit
  · decide
  · obtain ⟨n, small, rfl⟩ := Hex.exists_digit_of_mem_fixed isDigit
    exact Hex.toNat_digit_le small

/-- Compared byte by byte, canonical texts are in the order of their identifiers. -/
theorem bytes_lt_bytes {first second : Uuid} :
    first.toText.toUTF8.toList < second.toText.toUTF8.toList ↔ first.value < second.value := by
  rw [← toText_lt_toText, String.lt_iff, toText, toText, Hex.toUTF8_ofList, Hex.toUTF8_ofList,
    String.toList_ofList, String.toList_ofList]
  exact List.utf8_lt_utf8 (fun _ => toNat_le_of_mem_toChars) (fun _ => toNat_le_of_mem_toChars)

end Uuid

end PlanArchive
