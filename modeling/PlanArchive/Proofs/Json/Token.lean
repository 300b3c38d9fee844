import PlanArchive.Json.Printer
import PlanArchive.Json.Reader
import PlanArchive.Proofs.Text.Spelling

/-!
# Written strings and numbers read back

What the printer writes for a string or an integer is read as that string or integer, whatever
text follows, as long as the text that follows a number does not go on with it. Numbers with a
fraction or an exponent are read in several roundings and may come back as a neighbour; about them
`number_append` only says that what follows does not matter.
-/

namespace PlanArchive.Json

namespace Reader

/-- What can follow a written value: nothing, or a character that ends a value. -/
def Delimited : List Char → Prop
  | [] => True
  | c :: _ => c = ',' ∨ c = ']' ∨ c = '}'

/-! ## Strings -/

/-- A numbered escape of a character that is no half of a pair denotes that character. -/
theorem string_numbered (read : List Char) (c : Char) (tail : List Char)
    (control : c.toNat < 0x20) :
    string false read ('\\' :: 'u' :: (Hex.fixed 4 c.toNat ++ tail))
      = string false (c :: read) tail := by
  obtain ⟨h, i, j, k, digits⟩ : ∃ h i j k, Hex.fixed 4 c.toNat = [h, i, j, k] :=
    ⟨_, _, _, _, rfl⟩
  have value : Hex.read? [h, i, j, k] = some c.toNat := by
    rw [← digits]
    exact Hex.read?_fixed (Nat.lt_trans control (by decide))
  have notLeading : isLeading c.toNat = false := by
    simp only [isLeading, Bool.and_eq_false_iff, decide_eq_false_iff_not]
    omega
  have notTrailing : isTrailing c.toNat = false := by
    simp only [isTrailing, Bool.and_eq_false_iff, decide_eq_false_iff_not]
    omega
  rw [digits]
  simp [string, value, notLeading, notTrailing]

theorem string_plain (read : List Char) (c : Char) (tail : List Char) (notQuote : c ≠ '"')
    (notBackslash : c ≠ '\\') (notControl : ¬c.toNat < 0x20) :
    string false read (c :: tail) = string false (c :: read) tail := by
  rw [string.eq_def]
  split
  · rename_i same
    exact absurd (List.cons.inj same).1 notQuote
  · rename_i same
    exact absurd (List.cons.inj same).1 notBackslash
  · rename_i same
    exact absurd (List.cons.inj same).1 notBackslash
  · rename_i same
    obtain ⟨rfl, rfl⟩ := List.cons.inj same
    rw [if_neg notControl]
  · rename_i same
    cases same

theorem string_writeChar (read : List Char) (c : Char) (tail : List Char) :
    string false read (writeChar c tail) = string false (c :: read) tail := by
  unfold writeChar
  split
  · subst_vars; simp [string, unescape?]
  split
  · subst_vars; simp [string, unescape?]
  split
  · subst_vars; simp [string, unescape?]
  split
  · subst_vars; simp [string, unescape?]
  split
  · subst_vars; simp [string, unescape?]
  split
  · subst_vars; simp [string, unescape?]
  split
  · subst_vars; simp [string, unescape?]
  split
  · rename_i control
    exact string_numbered read c tail control
  · rename_i notQuote notBackslash _ _ _ _ _ notControl
    exact string_plain read c tail notQuote notBackslash notControl

theorem string_writeChars (read chars tail : List Char) :
    string false read (writeChars chars tail)
      = some (String.ofList (read.reverse ++ chars), tail) := by
  induction chars generalizing read with
  | nil => simp [writeChars, string]
  | cons c rest inductionHypothesis =>
    rw [writeChars, string_writeChar, inductionHypothesis]
    simp

/-! ## Runs of digits -/

/-- A text that does not start with a digit. -/
def NoDigitFirst : List Char → Prop
  | [] => True
  | c :: _ => c.isDigit = false

theorem Delimited.noDigitFirst : ∀ {text : List Char}, Delimited text → NoDigitFirst text
  | [], _ => trivial
  | _ :: _, delimited => by
    rcases delimited with rfl | rfl | rfl <;> rfl

theorem digits_of_noDigitFirst : ∀ {text : List Char}, NoDigitFirst text → digits text = ([], text)
  | [], _ => rfl
  | c :: rest, noDigit => by
    have notDigit : c.isDigit = false := noDigit
    simp [digits, notDigit]

/-- What follows a text does not matter to the digits at its start unless it goes on with one. -/
theorem digits_append {tail : List Char} (noDigit : NoDigitFirst tail) (text : List Char) :
    digits (text ++ tail) = ((digits text).1, (digits text).2 ++ tail) := by
  induction text with
  | nil => simp [digits_of_noDigitFirst noDigit, digits]
  | cons c rest inductionHypothesis =>
    by_cases isDigit : c.isDigit = true
    · simp [digits, isDigit, inductionHypothesis]
    · simp [digits, isDigit]

theorem digits_of_all {run : List Char} (all : ∀ c ∈ run, c.isDigit = true) :
    digits run = (run, []) := by
  induction run with
  | nil => rfl
  | cons c rest inductionHypothesis =>
    have first : c.isDigit = true := all c List.mem_cons_self
    have others := inductionHypothesis fun d member => all d (List.mem_cons_of_mem _ member)
    simp [digits, first, others]

/-! ## The parts of a number -/

theorem wholePart_of_ne_zero {c : Char} {text : List Char} (notZero : c ≠ '0') :
    wholePart (c :: text)
      = if (digits (c :: text)).1 = [] then none else some (digits (c :: text)) := by
  unfold wholePart
  split
  · simp_all
  · split <;> simp_all

theorem wholePart_append {text run rest tail : List Char} (noDigit : NoDigitFirst tail)
    (read : wholePart text = some (run, rest)) :
    wholePart (text ++ tail) = some (run, rest ++ tail) := by
  cases text with
  | nil => simp [wholePart, digits] at read
  | cons c text =>
    by_cases isZero : c = '0'
    · subst isZero
      simp only [wholePart, Option.some.injEq, Prod.mk.injEq, List.cons_append] at read ⊢
      simp [← read.1, ← read.2]
    · rw [wholePart_of_ne_zero isZero] at read
      rw [List.cons_append, wholePart_of_ne_zero isZero, ← List.cons_append,
        digits_append noDigit]
      split at read
      · cases read
      · rename_i someDigit
        rw [Option.some.injEq] at read
        rw [if_neg someDigit, read]

/-- A text that goes on with no part of a number. -/
structure EndsNumber (tail : List Char) : Prop where
  noDigit : NoDigitFirst tail
  noFraction : fraction tail = some (none, tail)
  noExponent : exponent tail = some (none, tail)

theorem Delimited.endsNumber : ∀ {tail : List Char}, Delimited tail → EndsNumber tail
  | [], _ => ⟨trivial, rfl, rfl⟩
  | _ :: _, delimited => by
    refine ⟨delimited.noDigitFirst, ?_, ?_⟩
    · rcases delimited with rfl | rfl | rfl <;> rfl
    · rcases delimited with rfl | rfl | rfl <;> simp [exponent]

theorem fraction_append {text rest tail : List Char} {places : Option (List Char)}
    (ends : EndsNumber tail) (read : fraction text = some (places, rest)) :
    fraction (text ++ tail) = some (places, rest ++ tail) := by
  cases text with
  | nil =>
    simp only [fraction, Option.some.injEq, Prod.mk.injEq] at read
    rw [← read.1, ← read.2]
    exact ends.noFraction
  | cons c text =>
    by_cases isPoint : c = '.'
    · subst isPoint
      simp only [fraction, List.cons_append, digits_append ends.noDigit] at read ⊢
      generalize digits text = found at read ⊢
      obtain ⟨run, others⟩ := found
      cases run <;> simp_all
    · unfold fraction at read ⊢
      split at read
      · simp_all
      · simp only [Option.some.injEq, Prod.mk.injEq] at read
        simp [isPoint, ← read.1, ← read.2]

theorem exponentDigits_append {negative : Bool} {text rest tail : List Char} {power : Option Int}
    (ends : EndsNumber tail) (read : exponentDigits negative text = some (power, rest)) :
    exponentDigits negative (text ++ tail) = some (power, rest ++ tail) := by
  simp only [exponentDigits, digits_append ends.noDigit] at read ⊢
  generalize digits text = found at read ⊢
  obtain ⟨run, others⟩ := found
  cases run <;> simp_all

theorem exponent_unsigned {c d : Char} {text : List Char} (marks : c = 'e' ∨ c = 'E')
    (notPlus : d ≠ '+') (notMinus : d ≠ '-') :
    exponent (c :: d :: text) = exponentDigits false (d :: text) := by
  simp only [exponent, marks, if_true]
  split <;> simp_all

theorem exponent_append {text rest tail : List Char} {power : Option Int}
    (ends : EndsNumber tail) (read : exponent text = some (power, rest)) :
    exponent (text ++ tail) = some (power, rest ++ tail) := by
  cases text with
  | nil =>
    simp only [exponent, Option.some.injEq, Prod.mk.injEq] at read
    rw [← read.1, ← read.2]
    exact ends.noExponent
  | cons c text =>
    by_cases marks : c = 'e' ∨ c = 'E'
    · cases text with
      | nil => simp [exponent, marks, exponentDigits, digits] at read
      | cons d text =>
        by_cases plus : d = '+'
        · subst plus
          simp only [exponent, List.cons_append, marks, if_true] at read ⊢
          exact exponentDigits_append ends read
        · by_cases minus : d = '-'
          · subst minus
            simp only [exponent, List.cons_append, marks, if_true] at read ⊢
            exact exponentDigits_append ends read
          · rw [exponent_unsigned marks plus minus] at read
            rw [List.cons_append, List.cons_append, exponent_unsigned marks plus minus]
            exact exponentDigits_append ends read
    · simp only [exponent, List.cons_append, marks, if_false, Option.some.injEq,
        Prod.mk.injEq] at read ⊢
      simp [← read.1, ← read.2]

/-! ## Numbers -/

/-- The reading of a number behind its sign. -/
def unsigned? (negative : Bool) (text : List Char) : Option (Json × List Char) := do
  let (whole, text) ← wholePart text
  let (places, text) ← fraction text
  let (power, text) ← exponent text
  let value ← numberOfParts? negative whole places power
  return (value, text)

theorem number_nil : number false [] = none := rfl

theorem number_minus (text : List Char) : number false ('-' :: text) = unsigned? true text := rfl

theorem number_plain {c : Char} {text : List Char} (notMinus : c ≠ '-') :
    number false (c :: text) = unsigned? false (c :: text) := by
  unfold number
  split
  rename_i negative rest sign
  split at sign
  · simp_all
  · cases sign
    rfl

theorem unsigned?_append {negative : Bool} {text tail : List Char} {v : Json}
    (ends : EndsNumber tail) (read : unsigned? negative text = some (v, [])) :
    unsigned? negative (text ++ tail) = some (v, tail) := by
  simp only [unsigned?, Option.bind_eq_bind, Option.bind_eq_some_iff, Prod.exists, Option.pure_def,
    Option.some.injEq, Prod.mk.injEq] at read
  obtain ⟨whole, text₁, wholeRead, places, text₂, placesRead, power, text₃, powerRead, value,
    isValue, rfl, rfl⟩ := read
  simp [unsigned?, wholePart_append ends.noDigit wholeRead, fraction_append ends placesRead,
    exponent_append ends powerRead, isValue]

/-- The first character of a number. -/
def StartsNumber : List Char → Prop
  | [] => False
  | c :: _ => c = '-' ∨ c.isDigit = true

theorem unsigned?_eq_none {negative : Bool} {c : Char} {text : List Char}
    (notDigit : c.isDigit = false) : unsigned? negative (c :: text) = none := by
  have notZero : c ≠ '0' := by
    rintro rfl
    cases notDigit
  simp [unsigned?, wholePart_of_ne_zero notZero, digits, notDigit]

theorem startsNumber_of_number {text rest : List Char} {v : Json}
    (read : number false text = some (v, rest)) : StartsNumber text := by
  cases text with
  | nil => cases number_nil.symm.trans read
  | cons c text =>
    by_cases minus : c = '-'
    · exact .inl minus
    · rw [number_plain minus] at read
      by_cases isDigit : c.isDigit = true
      · exact .inr isDigit
      · rw [unsigned?_eq_none (by simpa using isDigit)] at read
        cases read

/-- What follows a number that was read to its end does not matter. -/
theorem number_append {text tail : List Char} {v : Json} (ends : EndsNumber tail)
    (read : number false text = some (v, [])) : number false (text ++ tail) = some (v, tail) := by
  cases text with
  | nil => cases number_nil.symm.trans read
  | cons c text =>
    by_cases minus : c = '-'
    · subst minus
      rw [number_minus] at read
      rw [List.cons_append, number_minus]
      exact unsigned?_append ends read
    · rw [number_plain minus] at read
      rw [List.cons_append, number_plain minus, ← List.cons_append]
      exact unsigned?_append ends read

/-! ## Integers -/

/-- A number in decimal starts with a zero only if it is zero. -/
theorem toDigits_first (n : Nat) (positive : 0 < n) :
    ∃ c rest, Nat.toDigits 10 n = c :: rest ∧ c ≠ '0' ∧ c ≠ '-' := by
  by_cases small : n < 10
  · have isFirst : ∀ {n : Nat}, n < 10 → 0 < n → n.digitChar ≠ '0' ∧ n.digitChar ≠ '-' := by decide
    exact ⟨_, _, Nat.toDigits_of_lt_base small, isFirst small positive⟩
  · obtain ⟨c, rest, digits, first⟩ := toDigits_first (n / 10) (by omega)
    refine ⟨c, rest ++ [(n % 10).digitChar], ?_, first⟩
    rw [Nat.toDigits_of_base_le (by decide) (by omega), digits]
    rfl

theorem digits_toDigits (n : Nat) : digits (Nat.toDigits 10 n) = (Nat.toDigits 10 n, []) :=
  digits_of_all fun _ member => Nat.isDigit_of_mem_toDigits (by decide) (by decide) member

theorem wholePart_toDigits (n : Nat) :
    wholePart (Nat.toDigits 10 n) = some (Nat.toDigits 10 n, []) := by
  cases n with
  | zero => rfl
  | succ n =>
    obtain ⟨c, rest, isDigits, notZero, -⟩ := toDigits_first (n + 1) (by omega)
    rw [isDigits, wholePart_of_ne_zero notZero, ← isDigits, digits_toDigits,
      if_neg Nat.toDigits_ne_nil]

theorem takeUp_eq {digits : List Char} : ∀ {n : Nat},
    Nat.ofDigitChars 10 digits n < UInt64.size →
    takeUp n digits = (Nat.ofDigitChars 10 digits n, []) := by
  induction digits with
  | nil => intro n _; simp [takeUp]
  | cons c rest inductionHypothesis =>
    intro n fits
    rw [← List.singleton_append, Nat.ofDigitChars_append] at fits
    have stillFits : Nat.ofDigitChars 10 [c] n < UInt64.size := by
      have grows : ∀ m, m ≤ Nat.ofDigitChars 10 rest m := by
        intro m
        rw [Nat.ofDigitChars_eq_ofDigitChars_zero]
        have power : 0 < 10 ^ rest.length := Nat.pow_pos (by decide)
        exact Nat.le_trans (Nat.le_mul_of_pos_left m power) (Nat.le_add_right _ _)
      exact Nat.lt_of_le_of_lt (grows _) fits
    rw [takeUp, if_pos stillFits, inductionHypothesis fits, ← Nat.ofDigitChars_append]
    rfl

theorem unsigned?_toDigits {negative : Bool} {n : Nat} {v : Int} (fits : n < UInt64.size)
    (value : integer? negative n = some v) :
    unsigned? negative (Nat.toDigits 10 n) = some (.int v, []) := by
  have taken : takeUp 0 (Nat.toDigits 10 n) = (n, []) := by
    have value : Nat.ofDigitChars 10 (Nat.toDigits 10 n) 0 = n := Nat.ofDigitChars_ten_toDigits
    rw [takeUp_eq (by rw [value]; exact fits), value]
  simp [unsigned?, wholePart_toDigits, fraction, exponent, numberOfParts?, taken, value]

/-- The integers that fit into 64 bits, with a sign or without. -/
def IntegerFits (n : Int) : Prop := -0x8000000000000000 ≤ n ∧ n < 0x10000000000000000

theorem number_writeInt {n : Int} (fits : IntegerFits n) :
    number false (writeInt n []) = some (.int n, []) := by
  obtain ⟨above, below⟩ := fits
  unfold writeInt
  split
  · rename_i negative
    rw [number_minus, List.append_nil]
    refine unsigned?_toDigits (by rw [UInt64.size]; omega) ?_
    rw [integer?, if_pos rfl, if_pos ⟨by omega, by omega⟩]
    congr 1
    omega
  · rename_i notNegative
    have value : integer? false n.natAbs = some n := by
      rw [integer?, if_neg (by simp), if_pos (by rw [UInt64.size]; omega)]
      congr 1
      omega
    rw [List.append_nil]
    cases isZero : n.natAbs with
    | zero =>
      rw [isZero] at value
      exact unsigned?_toDigits (by decide) value
    | succ m =>
      obtain ⟨c, rest, digits, -, notMinus⟩ := toDigits_first (m + 1) (by omega)
      rw [digits, number_plain notMinus, ← digits]
      exact unsigned?_toDigits (by rw [UInt64.size]; omega) (by rw [← isZero]; exact value)

theorem writeInt_append (n : Int) (tail : List Char) : writeInt n tail = writeInt n [] ++ tail := by
  unfold writeInt
  split <;> simp

end Reader

end PlanArchive.Json
