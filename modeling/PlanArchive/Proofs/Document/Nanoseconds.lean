import PlanArchive.Proofs.Document.Canonical

/-!
# Times in nanoseconds

Documents keep points in time and lengths of time as numbers of nanoseconds, which have 64 bits.
Here the conversions are shown to be exact up to both ends of that range
(`Field.nanoseconds_exact`): a time is refused only when its number does not fit, numbers are in the
order of the points in time, and decoding undoes encoding. There is one thing that a number does not
tell: whether there was no point in time or one that is not after the epoch.

This is about points in time outside of leap seconds. The numbers of those within one are also the
numbers of others (`regular_eq_self_iff`). The calendar is not the subject here, except that it has
every point in time that is decoded.
-/

namespace PlanArchive

/-! ## Points in time in order -/

namespace Instant

variable {t u : Instant}

/-- Seconds decide which of two points in time is earlier, and the fraction when they are equal. -/
instance : LT Instant :=
  ⟨fun t u => t.seconds < u.seconds ∨ t.seconds = u.seconds ∧ t.nanos < u.nanos⟩

theorem lt_iff : t < u ↔ t.seconds < u.seconds ∨ t.seconds = u.seconds ∧ t.nanos < u.nanos :=
  Iff.rfl

instance (t u : Instant) : Decidable (t < u) := decidable_of_iff _ lt_iff.symm

/-- The point in time that others are counted from. -/
def epoch : Instant := ofNanos 0

/-- Outside of leap seconds points in time are in the order of their distances from the epoch. -/
theorem sinceEpoch_lt_sinceEpoch (first : t.nanos < 10 ^ 9) (second : u.nanos < 10 ^ 9) :
    t.sinceEpoch < u.sinceEpoch ↔ t < u := by
  rw [lt_iff, sinceEpoch, sinceEpoch]
  omega

theorem kept?_some_of_lt (isRegular : t.nanos < 10 ^ 9) :
    kept? (some t) = if epoch < t then some t else none := by
  have afterZero : epoch < t ↔ 0 < t.sinceEpoch :=
    (sinceEpoch_lt_sinceEpoch (by decide) isRegular).symm
  simp only [kept?_some, afterZero, regular_eq_self_iff.mpr isRegular]

/-- The calendar has every point in time that is a number of nanoseconds with 64 bits away. -/
theorem ofParts?_ofNanos (n : Int64) :
    ofParts? (ofNanos n.toInt).seconds (ofNanos n.toInt).nanos = some (ofNanos n.toInt) := by
  have above := n.le_toInt
  have below := n.toInt_lt
  have inCalendar : firstSecond ≤ n.toInt / 1000000000 ∧ n.toInt / 1000000000 ≤ lastSecond := by
    unfold firstSecond lastSecond
    omega
  have isRegular : (n.toInt % 1000000000).toNat < 1000000000 := by omega
  rw [ofParts?, dif_pos (ofNanos n.toInt).nanos_lt]
  exact if_pos ⟨inCalendar, .inl isRegular⟩

end Instant

/-! ## Single fields -/

theorem Instant.encodable_iff {t : Instant} :
    t.Encodable ↔ -2 ^ 63 ≤ t.seconds * 10 ^ 9 + t.nanos ∧
      t.seconds * 10 ^ 9 + t.nanos ≤ 2 ^ 63 - 1 := by
  unfold Encodable FitsInt64 sinceEpoch
  omega

theorem Span.encodable_iff {d : Span} :
    d.Encodable ↔ d.seconds * 10 ^ 9 + d.nanos ≤ 2 ^ 63 - 1 := by
  unfold Encodable FitsInt64 toNanos
  omega

namespace Field

variable {field : String} {t u : Instant} {d : Span} {m n : Int64}

theorem encodeInt64_of_fits {tooLarge : FieldError} {value : Int} (fits : FitsInt64 value) :
    ∃ n, encodeInt64 tooLarge value = .ok n ∧ n.toInt = value := by
  obtain ⟨n, encoded⟩ := exists_encodeInt64.mpr fits
  exact ⟨n, encoded, toInt_of_encodeInt64 encoded⟩

theorem encodeInt64_of_not_fits {tooLarge : FieldError} {value : Int}
    (tooFar : ¬ FitsInt64 value) : encodeInt64 tooLarge value = .error tooLarge := by
  unfold FitsInt64 at tooFar
  rw [encodeInt64, Json.toInt64?, if_neg tooFar]

/-- Of two points in time outside of leap seconds the later one has the larger number. -/
theorem lt_iff_of_encodeInstant (regular : t.nanos < 10 ^ 9) (alsoRegular : u.nanos < 10 ^ 9)
    (first : encodeInstant field (some t) = .ok m)
    (second : encodeInstant field (some u) = .ok n) : t < u ↔ m < n := by
  rw [Int64.lt_iff_toInt_lt, toInt_of_encodeInt64 first, toInt_of_encodeInt64 second,
    Instant.sinceEpoch_lt_sinceEpoch regular alsoRegular]

theorem canonicalInstant_eq_max (n : Int64) : canonicalInstant n = max n 0 := by
  have isMax : max n 0 = if n ≤ 0 then 0 else n := rfl
  have notPositive : n ≤ 0 ↔ ¬ 0 < n.toInt := Int64.le_iff_toInt_le.trans Int.not_lt.symm
  rw [isMax, canonicalInstant]
  by_cases positive : 0 < n.toInt <;> simp [notPositive, positive]

theorem ofParts?_of_decodeInstant (decoded : decodeInstant n = some t) :
    Instant.ofParts? t.seconds t.nanos = some t := by
  unfold decodeInstant at decoded
  split at decoded
  · cases decoded
    exact Instant.ofParts?_ofNanos n
  · cases decoded

/-- The seconds of a length of time that is decoded are a number of 64 bits. -/
theorem ofParts?_of_decodeSpan (decoded : decodeSpan field n = .ok d) :
    Span.ofParts? d.seconds d.nanos = some d := by
  have value := decodeSpan_eq_ok.mp decoded
  have below := n.toInt_lt
  have fits : d.seconds < UInt64.size := by
    unfold Span.toNanos at value
    unfold UInt64.size
    omega
  rw [Span.ofParts?, dif_pos d.nanos_lt, if_pos fits]

/-! ## Both conversions -/

/-- Numbers of nanoseconds are exact. A point in time outside of leap seconds is refused exactly when
its number does not fit into 64 bits, and the later of two has the larger number. Decoding this
number gives the point in time back when it is after the epoch and nothing otherwise; encoding what
a number stands for gives the number back, or zero for a negative one; the calendar has what is
decoded. A length of time is refused exactly when its number is too large, and a number exactly when
it is negative; on what is left, encoding and decoding are inverse to each other. -/
theorem nanoseconds_exact (field : String) :
    (∀ t : Instant, t.nanos < 10 ^ 9 →
      if -2 ^ 63 ≤ t.seconds * 10 ^ 9 + t.nanos ∧ t.seconds * 10 ^ 9 + t.nanos ≤ 2 ^ 63 - 1 then
        ∃ n, encodeInstant field (some t) = .ok n ∧ n.toInt = t.seconds * 10 ^ 9 + t.nanos
      else encodeInstant field (some t) = .error (.instantOutOfRange field t)) ∧
    (∀ t u m n, t.nanos < 10 ^ 9 → u.nanos < 10 ^ 9 → encodeInstant field (some t) = .ok m →
      encodeInstant field (some u) = .ok n → (t < u ↔ m < n)) ∧
    (∀ t n, t.nanos < 10 ^ 9 → encodeInstant field (some t) = .ok n →
      decodeInstant n = if Instant.epoch < t then some t else none) ∧
    (∀ n, encodeInstant field (decodeInstant n) = .ok (max n 0)) ∧
    (∀ n t, decodeInstant n = some t → Instant.ofParts? t.seconds t.nanos = some t) ∧
    (∀ d : Span,
      if d.seconds * 10 ^ 9 + d.nanos ≤ 2 ^ 63 - 1 then
        ∃ n, encodeSpan field d = .ok n ∧ n.toInt = d.seconds * 10 ^ 9 + d.nanos
      else encodeSpan field d = .error (.spanTooLong field d)) ∧
    (∀ n : Int64,
      if 0 ≤ n.toInt then
        ∃ d, decodeSpan field n = .ok d ∧ Span.ofParts? d.seconds d.nanos = some d
      else decodeSpan field n = .error (.spanNegative field n)) ∧
    ∀ d n, encodeSpan field d = .ok n ↔ decodeSpan field n = .ok d := by
  refine ⟨?_, fun t u m n => lt_iff_of_encodeInstant, ?_, ?_,
    fun n t => ofParts?_of_decodeInstant, ?_, ?_,
    fun d n => ⟨decodeSpan_of_encodeSpan, encodeSpan_of_decodeSpan⟩⟩
  · intro t _
    split
    · exact encodeInt64_of_fits (Instant.encodable_iff.mpr ‹_›)
    · exact encodeInt64_of_not_fits (mt Instant.encodable_iff.mp ‹_›)
  · intro t n isRegular encoded
    rw [decodeInstant_of_encodeInstant encoded, Instant.kept?_some_of_lt isRegular]
  · intro n
    rw [encodeInstant_decodeInstant, canonicalInstant_eq_max]
  · intro d
    split
    · exact encodeInt64_of_fits (Span.encodable_iff.mpr ‹_›)
    · exact encodeInt64_of_not_fits (mt Span.encodable_iff.mp ‹_›)
  · intro n
    split
    · obtain ⟨d, decoded⟩ := exists_decodeSpan.mpr ‹0 ≤ n.toInt›
      exact ⟨d, decoded, ofParts?_of_decodeSpan decoded⟩
    · exact if_pos (Int.not_le.mp ‹¬ 0 ≤ n.toInt›)

/-- The points in time that are the least and the greatest number of 64 bits, the one a nanosecond
before the first of them, and the longest length of time. -/
theorem nanoseconds_exact_atLimits :
    let first : Instant := ⟨-9223372037, 145224192, by decide⟩
    let last : Instant := ⟨9223372036, 854775807, by decide⟩
    let tooEarly : Instant := ⟨-9223372037, 145224191, by decide⟩
    let longest : Span := ⟨9223372036, 854775807, by decide⟩
    encodeInstant "start" (some first) = .ok .minValue ∧
      encodeInstant "start" (some last) = .ok .maxValue ∧
      (first < last ↔ Int64.minValue < Int64.maxValue) ∧
      decodeInstant .minValue = none ∧
      decodeInstant .maxValue = some last ∧
      encodeInstant "start" (some tooEarly) = .error (.instantOutOfRange "start" tooEarly) ∧
      encodeSpan "start" longest = .ok .maxValue ∧
      decodeSpan "start" .maxValue = .ok longest := by
  intro first last tooEarly longest
  obtain ⟨encodes, increasing, restores, -, -, -, -, inverse⟩ := nanoseconds_exact "start"
  have isFirst : encodeInstant "start" (some first) = .ok .minValue := by decide
  have isLast : encodeInstant "start" (some last) = .ok .maxValue := by decide
  have isLongest : encodeSpan "start" longest = .ok .maxValue := by decide
  exact ⟨isFirst, isLast, increasing first last _ _ (by decide) (by decide) isFirst isLast,
    restores first _ (by decide) isFirst, restores last _ (by decide) isLast,
    encodes tooEarly (by decide), isLongest, (inverse longest _).mp isLongest⟩

end Field

end PlanArchive
