import PlanArchive.Proofs.Steps
import PlanArchive.Proofs.Text.Spelling

/-!
# Which texts denote byte strings

The text of a byte string is read byte by byte, so that what matters is the bytes of its characters.
A digit has one byte and any other character has one that is no digit. Hence a text denotes a byte
string exactly when it has an even number of characters and all of them are digits of either case
(`Hex.exists_decode`), and the bytes that it denotes are written as the text in lower case
(`Hex.encode_of_decode`).
-/

namespace PlanArchive.Hex

/-- A digit of either case. -/
def IsDigit (c : Char) : Prop :=
  ('0' ≤ c ∧ c ≤ '9') ∨ ('a' ≤ c ∧ c ≤ 'f') ∨ ('A' ≤ c ∧ c ≤ 'F')

instance : DecidablePred IsDigit := fun c => by
  unfold IsDigit
  infer_instance

/-- The character that a byte is shown as. -/
def shown (b : UInt8) : Char := Char.ofNat b.toNat

/-! ## Digits and their bytes -/

theorem exists_value? {c : Char} : (∃ v, value? c = some v) ↔ IsDigit c := by
  unfold value? IsDigit
  by_cases decimal : '0' ≤ c ∧ c ≤ '9'
  · simp [decimal]
  · by_cases small : 'a' ≤ c ∧ c ≤ 'f'
    · simp [decimal, small]
    · by_cases capital : 'A' ≤ c ∧ c ≤ 'F' <;> simp [decimal, small, capital]

/-- The value of a digit is below sixteen, and its digit is the lower-case one. -/
theorem digit_value? {b : UInt8} {v : Nat} (isValue : value? (shown b) = some v) :
    v < 16 ∧ digit v = (shown b).toLower := by
  have all : ∀ n < 256, ∀ v ∈ value? (Char.ofNat n),
      v < 16 ∧ digit v = (Char.ofNat n).toLower := by decide +kernel
  exact all b.toNat b.toNat_lt v isValue

/-- A digit is one byte, which shows it. -/
theorem utf8EncodeChar_of_isDigit {c : Char} (isDigit : IsDigit c) :
    ∃ b, String.utf8EncodeChar c = [b] ∧ shown b = c := by
  have bounded {d : Char} (below : c ≤ d) : c.toNat ≤ d.toNat := below
  have small : c.toNat ≤ 0x7f := by
    rcases isDigit with ⟨_, below⟩ | ⟨_, below⟩ | ⟨_, below⟩ <;>
      exact Nat.le_trans (bounded below) (by decide)
  obtain ⟨byte, encoded, value⟩ := exists_byte small
  exact ⟨byte, encoded, by rw [shown, value, Char.ofNat_toNat]⟩

/-- A byte of a longer character shows no digit. -/
theorem not_isDigit_of_large {n : Nat} (large : 0x80 ≤ n) (isByte : n < 256) :
    ¬ IsDigit (shown (UInt8.ofNat n)) := by
  have all : ∀ n < 256, 0x80 ≤ n → ¬ IsDigit (shown (UInt8.ofNat n)) := by decide +kernel
  exact all n isByte large

/-- A character whose bytes are digits is a digit. -/
theorem isDigit_of_bytes {c : Char} (digits : ∀ b ∈ String.utf8EncodeChar c, IsDigit (shown b)) :
    IsDigit c := by
  by_cases small : c.toNat ≤ 0x7f
  · obtain ⟨byte, encoded, value⟩ := exists_byte small
    have isDigit := digits byte (by simp [encoded])
    rwa [shown, value, Char.ofNat_toNat] at isDigit
  · obtain ⟨n, rest, encoded, large, isByte⟩ :
        ∃ n rest, String.utf8EncodeChar c = UInt8.ofNat n :: rest ∧ 0x80 ≤ n ∧ n < 256 := by
      unfold String.utf8EncodeChar
      dsimp only
      split
      · exact absurd ‹_› small
      split
      · exact ⟨_, _, rfl, by omega, by omega⟩
      · split
        · exact ⟨_, _, rfl, by omega, by omega⟩
        · exact ⟨_, _, rfl, by omega, by omega⟩
    exact absurd (digits _ (encoded ▸ List.mem_cons_self)) (not_isDigit_of_large large isByte)

/-- The bytes of a text are digits when its characters are, and then each character is one byte. -/
theorem bytes_iff {chars : List Char} :
    (∀ b ∈ chars.flatMap String.utf8EncodeChar, IsDigit (shown b)) ↔ ∀ c ∈ chars, IsDigit c := by
  constructor
  · intro digits c member
    exact isDigit_of_bytes fun b inChar => digits b (List.mem_flatMap.mpr ⟨c, member, inChar⟩)
  · intro digits b member
    obtain ⟨c, isChar, inChar⟩ := List.mem_flatMap.mp member
    obtain ⟨only, encoded, isShown⟩ := utf8EncodeChar_of_isDigit (digits c isChar)
    rw [encoded, List.mem_singleton] at inChar
    rw [inChar, isShown]
    exact digits c isChar

theorem shown_bytes {chars : List Char} (digits : ∀ c ∈ chars, IsDigit c) :
    (chars.flatMap String.utf8EncodeChar).map shown = chars := by
  induction chars with
  | nil => rfl
  | cons c rest inductionHypothesis =>
    obtain ⟨first, others⟩ := List.forall_mem_cons.mp digits
    obtain ⟨only, encoded, isShown⟩ := utf8EncodeChar_of_isDigit first
    rw [List.flatMap_cons, encoded, List.singleton_append, List.map_cons, isShown,
      inductionHypothesis others]

/-! ## Pairs of digits -/

/-- Two digits for each byte. -/
def pairs (bytes : List UInt8) : List Char :=
  bytes.flatMap fun b => [digit (b.toNat / 16), digit (b.toNat % 16)]

/-- Pairs of digits denote a byte each, and nothing else denotes bytes. -/
theorem exists_decodeFrom {position : Nat} {digits : List UInt8} :
    (∃ bytes, decodeFrom position digits = .ok bytes) ↔
      digits.length % 2 = 0 ∧ ∀ b ∈ digits, IsDigit (shown b) := by
  induction position, digits using decodeFrom.induct with
  | case1 position => exact iff_of_true ⟨[], rfl⟩ ⟨rfl, by simp⟩
  | case2 position b => exact iff_of_false (by rintro ⟨_, ⟨⟩⟩) (by simp)
  | case3 position high low rest noValue =>
    have noDigit : ¬ IsDigit (shown high) := by simp [← exists_value?, shown, noValue]
    refine iff_of_false (by simp [decodeFrom, noValue]) ?_
    exact fun accepted => noDigit (accepted.2 high List.mem_cons_self)
  | case4 position high low rest h noValue isValue =>
    have noDigit : ¬ IsDigit (shown low) := by simp [← exists_value?, shown, noValue]
    refine iff_of_false (by simp [decodeFrom, noValue, isValue]) ?_
    exact fun accepted => noDigit (accepted.2 low (by simp))
  | case5 position high low rest h l isLow isHigh inductionHypothesis =>
    have highDigit : IsDigit (shown high) := exists_value?.mp ⟨h, isHigh⟩
    have lowDigit : IsDigit (shown low) := exists_value?.mp ⟨l, isLow⟩
    have even : (high :: low :: rest).length % 2 = rest.length % 2 := by
      simp only [List.length_cons]
      omega
    simp only [decodeFrom, isHigh, isLow, Except.exists_ok_bind, Except.exists_ok_pure, and_true]
    rw [inductionHypothesis, even, List.forall_mem_cons, List.forall_mem_cons,
      and_iff_right highDigit, and_iff_right lowDigit]

/-- The bytes that digits denote have these digits, in lower case. -/
theorem pairs_of_decodeFrom {position : Nat} {digits bytes : List UInt8}
    (decoded : decodeFrom position digits = .ok bytes) :
    pairs bytes = (digits.map shown).map Char.toLower := by
  induction position, digits using decodeFrom.induct generalizing bytes with
  | case1 position =>
    cases decoded
    rfl
  | case2 position b => cases decoded
  | case3 position high low rest noValue => simp [decodeFrom, noValue] at decoded
  | case4 position high low rest h noValue isValue => simp [decodeFrom, noValue, isValue] at decoded
  | case5 position high low rest h l isLow isHigh inductionHypothesis =>
    simp only [decodeFrom, isHigh, isLow, Except.bind_eq_ok, pure, Except.pure,
      Except.ok.injEq] at decoded
    obtain ⟨tail, tailDecoded, rfl⟩ := decoded
    obtain ⟨highSmall, isUpper⟩ := digit_value? isHigh
    obtain ⟨lowSmall, isLower⟩ := digit_value? isLow
    have value : (UInt8.ofNat (h * 16 + l)).toNat = h * 16 + l := Nat.mod_eq_of_lt (by omega)
    have upper : (h * 16 + l) / 16 = h := by omega
    have lower : (h * 16 + l) % 16 = l := by omega
    rw [pairs, List.flatMap_cons, value, upper, lower, isUpper, isLower, ← pairs,
      inductionHypothesis tailDecoded]
    rfl

/-! ## Texts -/

theorem bytes_eq (text : String) :
    text.toUTF8.toList = text.toList.flatMap String.utf8EncodeChar := by
  rw [← toUTF8_ofList, String.ofList_toList]

/-- A text that denotes bytes is read in pairs of digits. -/
theorem decode_eq_ok {text : String} {bytes : List UInt8} :
    decode text = .ok bytes ↔
      decodeFrom 0 (text.toList.flatMap String.utf8EncodeChar) = .ok bytes := by
  rw [decode, bytes_eq]
  split
  · rename_i isOdd
    refine iff_of_false (by simp) fun decoded => ?_
    obtain ⟨even, _⟩ := exists_decodeFrom.mp ⟨bytes, decoded⟩
    omega
  · rfl

/-- A text denotes a byte string exactly when it has an even number of characters, all digits. -/
theorem exists_decode {text : String} :
    (∃ bytes, decode text = .ok bytes) ↔
      text.toList.length % 2 = 0 ∧ ∀ c ∈ text.toList, IsDigit c := by
  simp only [decode_eq_ok, exists_decodeFrom, bytes_iff]
  refine and_congr_left fun digits => ?_
  have lengths := congrArg List.length (shown_bytes digits)
  rw [List.length_map] at lengths
  rw [lengths]

/-- The bytes that a text denotes are written as the text in lower case. -/
theorem encode_of_decode {text : String} {bytes : List UInt8} (decoded : decode text = .ok bytes) :
    encode bytes = String.ofList (text.toList.map Char.toLower) := by
  obtain ⟨_, digits⟩ := exists_decode.mp ⟨bytes, decoded⟩
  have written := pairs_of_decodeFrom (decode_eq_ok.mp decoded)
  rw [shown_bytes digits] at written
  exact congrArg String.ofList written

end PlanArchive.Hex
