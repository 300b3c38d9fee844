import PlanArchive.Uuid

/-!
# Written digits, bytes and identifiers read back

Every reader of a text that the library writes itself recovers what was written: fixed-width digits
(`Hex.read?_fixed`), byte strings (`Hex.decode_encode`) and identifiers (`Uuid.parse?_toText`).
Spellings that the library never writes are not the subject here.
-/

namespace PlanArchive

namespace Hex

/-! ## Digits -/

/-- Reading a written digit gives its value back. -/
theorem value?_digit : ∀ {n : Nat}, n < 16 → value? (digit n) = some n := by decide

@[simp] theorem length_fixed (width n : Nat) : (fixed width n).length = width := by
  induction width generalizing n with
  | zero => rfl
  | succ width inductionHypothesis => simp [fixed, inductionHypothesis]

/-- Reading goes through a first run of digits before a second one. -/
theorem readOnto?_append (n : Nat) (first second : List Char) :
    readOnto? n (first ++ second) = (readOnto? n first).bind fun m => readOnto? m second := by
  induction first generalizing n with
  | nil => rfl
  | cons c rest inductionHypothesis =>
    simp only [List.cons_append, readOnto?, Option.bind_eq_bind]
    cases value? c with
    | none => rfl
    | some v => exact inductionHypothesis _

theorem readOnto?_fixed (width m n : Nat) :
    readOnto? m (fixed width n) = some (m * Nat.pow 16 width + n % Nat.pow 16 width) := by
  induction width generalizing n with
  | zero => simp [fixed, readOnto?, Nat.mod_one]
  | succ width inductionHypothesis =>
    have lastDigit : value? (digit (n % 16)) = some (n % 16) :=
      value?_digit (Nat.mod_lt _ (by decide))
    rw [fixed, readOnto?_append, inductionHypothesis]
    simp only [Option.bind_some, readOnto?, lastDigit, Option.bind_eq_bind, Option.some.injEq]
    have size : Nat.pow 16 (width + 1) = 16 * Nat.pow 16 width := Nat.mul_comm _ _
    rw [size, Nat.mod_mul, Nat.add_mul, Nat.mul_assoc, Nat.mul_comm (Nat.pow 16 width) 16,
      Nat.mul_comm (n / 16 % Nat.pow 16 width) 16]
    omega

/-- Digits of a number that fits into their width denote that number. -/
theorem read?_fixed {width n : Nat} (fits : n < Nat.pow 16 width) :
    read? (fixed width n) = some n := by
  rw [read?, readOnto?_fixed, Nat.mod_eq_of_lt fits, Nat.zero_mul, Nat.zero_add]

/-! ## Bytes -/

theorem toList_loop (bytes : ByteArray) (i : Nat) (read : List UInt8) :
    ByteArray.toList.loop bytes i read = read.reverse ++ bytes.data.toList.drop i := by
  by_cases inside : i < bytes.size
  · have inList : i < bytes.data.toList.length := by simpa using inside
    rw [ByteArray.toList.loop, if_pos inside, toList_loop bytes (i + 1),
      List.drop_eq_getElem_cons inList, List.reverse_cons, List.append_assoc]
    simp [ByteArray.get!, inside]
  · rw [ByteArray.toList.loop, if_neg inside, List.drop_eq_nil_of_le, List.append_nil]
    simpa using inside
termination_by bytes.size - i

/-- The bytes of a text are those of its characters, one after the other. -/
theorem toUTF8_ofList (chars : List Char) :
    (String.ofList chars).toUTF8.toList = chars.flatMap String.utf8EncodeChar := by
  rw [ByteArray.toList, toList_loop]
  simp [List.utf8Encode, List.data_toByteArray]

/-- A character of seven bits is a single byte, which has its number. -/
theorem exists_byte {c : Char} (small : c.toNat ≤ 0x7f) :
    ∃ byte : UInt8, String.utf8EncodeChar c = [byte] ∧ byte.toNat = c.toNat :=
  ⟨UInt8.ofNat c.toNat, if_pos small, Nat.mod_eq_of_lt (by omega)⟩

theorem toNat_digit_le : ∀ {n : Nat}, n < 16 → (digit n).toNat ≤ 0x7f := by decide

/-- A digit is a single byte, and that byte shows the digit. -/
theorem utf8EncodeChar_digit {n : Nat} (small : n < 16) :
    ∃ byte : UInt8, String.utf8EncodeChar (digit n) = [byte] ∧
      Char.ofNat byte.toNat = digit n := by
  obtain ⟨byte, encoded, value⟩ := exists_byte (toNat_digit_le small)
  exact ⟨byte, encoded, by rw [value, Char.ofNat_toNat]⟩

theorem decodeFrom_digits (position : Nat) (bytes : List UInt8) :
    decodeFrom position
      ((bytes.flatMap fun b => [digit (b.toNat / 16), digit (b.toNat % 16)]).flatMap
        String.utf8EncodeChar) = .ok bytes := by
  induction bytes generalizing position with
  | nil => rfl
  | cons b rest inductionHypothesis =>
    have below : b.toNat < 256 := b.toNat_lt
    have highSmall : b.toNat / 16 < 16 := by omega
    have lowSmall : b.toNat % 16 < 16 := Nat.mod_lt _ (by decide)
    obtain ⟨high, highBytes, highChar⟩ := utf8EncodeChar_digit highSmall
    obtain ⟨low, lowBytes, lowChar⟩ := utf8EncodeChar_digit lowSmall
    have restored : UInt8.ofNat (b.toNat / 16 * 16 + b.toNat % 16) = b := by
      rw [Nat.div_add_mod']
      exact UInt8.ofNat_toNat
    simp only [List.flatMap_cons, List.cons_append, List.nil_append, highBytes, lowBytes,
      decodeFrom, highChar, lowChar, value?_digit highSmall, value?_digit lowSmall,
      inductionHypothesis (position + 2)]
    exact congrArg (fun byte => Except.ok (byte :: rest)) restored

theorem even_length_digits (bytes : List UInt8) :
    ((bytes.flatMap fun b => [digit (b.toNat / 16), digit (b.toNat % 16)]).flatMap
      String.utf8EncodeChar).length % 2 = 0 := by
  induction bytes with
  | nil => rfl
  | cons b rest inductionHypothesis =>
    have below : b.toNat < 256 := b.toNat_lt
    obtain ⟨high, highBytes, -⟩ := utf8EncodeChar_digit (n := b.toNat / 16) (by omega)
    obtain ⟨low, lowBytes, -⟩ := utf8EncodeChar_digit (n := b.toNat % 16) (by omega)
    simp only [List.flatMap_cons, List.cons_append, List.nil_append, highBytes, lowBytes,
      List.length_cons]
    omega

/-- Decoding the hexadecimal form of a byte string gives the bytes back. -/
theorem decode_encode (bytes : List UInt8) : decode (encode bytes) = .ok bytes := by
  simp only [decode, encode, toUTF8_ofList, even_length_digits, Nat.zero_ne_one, if_false]
  exact decodeFrom_digits 0 bytes

end Hex

namespace Uuid

/-! ## Identifiers -/

/-- Taking the hyphens out of grouped digits gives the digits back when there are enough of them. -/
theorem splitGroups?_joinGroups {width : Nat} {widths : List Nat} {digits : List Char}
    (enough : digits.length = (width :: widths).foldr (· + ·) 0) :
    splitGroups? (width :: widths) (joinGroups (width :: widths) digits) = some digits := by
  induction widths generalizing width digits with
  | nil =>
    have whole : digits.length = width := by simpa using enough
    simp [joinGroups, splitGroups?, whole]
  | cons next widths inductionHypothesis =>
    have long : width ≤ digits.length := by
      rw [enough, List.foldr_cons]
      omega
    have restEnough : (digits.drop width).length = (next :: widths).foldr (· + ·) 0 := by
      rw [List.length_drop, enough, List.foldr_cons, Nat.add_sub_cancel_left]
    have head : (digits.take width).length = width := List.length_take_of_le long
    simp only [joinGroups, splitGroups?]
    rw [List.drop_left' head, List.take_left' head]
    simp only [inductionHypothesis restEnough, Option.map_some, List.take_append_drop]

theorem length_toChars (id : Uuid) : id.toChars.length = 36 := by
  simp [toChars, groupWidths, joinGroups]

/-- The canonical text of an identifier denotes it. -/
@[simp] theorem parse?_toText (id : Uuid) : parse? id.toText = some id := by
  have digits : splitGroups? groupWidths id.toChars = some (Hex.fixed 32 id.value) :=
    splitGroups?_joinGroups (by simp)
  have value : Hex.read? (Hex.fixed 32 id.value) = some id.value := Hex.read?_fixed id.value_lt
  have enough : guard ((Hex.fixed 32 id.value).length = 32) = some () :=
    if_pos (Hex.length_fixed 32 id.value)
  have ofDigits : ofDigits? (Hex.fixed 32 id.value) = some id := by
    rw [ofDigits?, enough]
    simp only [value, Option.bind_eq_bind, Option.bind_some]
    rw [dif_pos id.value_lt]
  have grouped : ofGrouped? id.toChars = some id := by
    simp only [ofGrouped?, digits, Option.bind_eq_bind, Option.bind_some, ofDigits]
  simp [parse?, toText, ofChars?, length_toChars, grouped]

theorem toText_injective {first second : Uuid} (same : first.toText = second.toText) :
    first = second := by
  have parsed := congrArg parse? same
  simpa using parsed

/-- No identifier is written as the empty text. -/
@[simp] theorem isEmpty_toText (id : Uuid) : id.toText.isEmpty = false := by
  have length := length_toChars id
  rw [toText, String.isEmpty_eq_false_iff]
  intro empty
  rw [String.ofList_eq_empty_iff] at empty
  simp [empty] at length

end Uuid

end PlanArchive
