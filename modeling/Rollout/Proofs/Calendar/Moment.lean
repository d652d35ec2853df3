import Mathlib.Algebra.Order.Field.Rat
import Mathlib.Tactic.FieldSimp
import Mathlib.Tactic.Linarith
import Mathlib.Tactic.Ring
import Rollout.Proofs.Calendar.Spelling

namespace Rollout

-- Seconds since 1970-01-01, with the fraction.
def Instant.inSeconds (instant : Instant) : ℚ :=
  instant.seconds + instant.nanos / Instant.nanosPerSecond

namespace Timestamp

-- What digits behind a point are worth.
def decimalFraction : List Char → ℚ
  | [] => 0
  | c :: rest => (digitValue c + decimalFraction rest) / 10

-- A spelling denotes a moment, in seconds since 1970-01-01, if it is that of local time on its
-- day, less what local time is ahead.
def Spelling.Denotes (spelling : Spelling) (moment : ℚ) : Prop :=
  ∃ day : Int, spelling.civil.date.OnDay day ∧
    moment = day * 86400 + spelling.civil.secondOfDay +
      decimalFraction spelling.fraction.digits - spelling.ahead

theorem decimalFraction_mul (digits : List Char) :
    decimalFraction digits * powerOfTen digits.length = readDecimal digits := by
  induction digits with
  | nil => simp [decimalFraction, readDecimal]
  | cons c digits ih =>
      rw [decimalFraction, List.length_cons, powerOfTen_succ, readDecimal_cons]
      push_cast
      rw [← ih]
      ring

namespace Fraction

variable (fraction : Fraction)

-- Nine places are a second in nanoseconds.
theorem places_eq : powerOfTen fraction.digits.length * powerOfTen (9 - fraction.digits.length) =
    Instant.nanosPerSecond := by
  rw [← powerOfTen_add, Nat.add_sub_cancel' fraction.length_le]
  rfl

theorem nanos_lt : fraction.nanos < Instant.nanosPerSecond := by
  rw [← fraction.places_eq]
  exact Nat.mul_lt_mul_of_pos_right (readDecimal_lt fraction.isDigit) (powerOfTen_pos _)

theorem nanos_eq :
    (fraction.nanos : ℚ) / Instant.nanosPerSecond = decimalFraction fraction.digits := by
  have hpos : (Instant.nanosPerSecond : ℚ) ≠ 0 := by
    rw [Instant.nanosPerSecond]
    norm_num
  rw [div_eq_iff hpos, ← fraction.places_eq, nanos]
  push_cast
  rw [← decimalFraction_mul]
  ring

end Fraction

-- Moments without leap seconds are told apart by their seconds and fractions.
theorem eq_of_inSeconds_eq {first second : Instant}
    (hfirst : first.nanos < Instant.nanosPerSecond) (hsecond : second.nanos < Instant.nanosPerSecond)
    (h : first.inSeconds = second.inSeconds) : first = second := by
  obtain ⟨seconds, nanos⟩ := first
  obtain ⟨otherSeconds, otherNanos⟩ := second
  simp only [Instant.inSeconds, Instant.nanosPerSecond] at *
  have hscaled : (seconds * 1000000000 + nanos : ℚ) = otherSeconds * 1000000000 + otherNanos := by
    push_cast at h
    linarith
  have hwhole : seconds * 1000000000 + nanos = otherSeconds * 1000000000 + otherNanos := by
    exact_mod_cast hscaled
  obtain rfl : seconds = otherSeconds := by omega
  obtain rfl : nanos = otherNanos := by omega
  rfl

namespace Spelling

theorem denotes_iff (spelling : Spelling) (moment : ℚ) :
    spelling.Denotes moment ↔ moment = spelling.instant.inSeconds := by
  have honDay := spelling.civil.inCalendar.onDay_iff
  have hseconds : spelling.instant.inSeconds =
      spelling.civil.date.dayNumber * 86400 + spelling.civil.secondOfDay +
        decimalFraction spelling.fraction.digits - spelling.ahead := by
    rw [← Fraction.nanos_eq, Instant.inSeconds, instant]
    push_cast
    ring
  constructor
  · rintro ⟨day, hday, rfl⟩
    obtain rfl := (honDay day).mp hday
    exact hseconds.symm
  · rintro rfl
    exact ⟨_, (honDay _).mpr rfl, hseconds⟩

theorem instant_eq_iff (first second : Spelling) :
    first.instant = second.instant ↔ ∃ moment, first.Denotes moment ∧ second.Denotes moment := by
  simp only [denotes_iff]
  constructor
  · intro h
    exact ⟨_, rfl, congrArg Instant.inSeconds h⟩
  · rintro ⟨_, rfl, h⟩
    exact eq_of_inSeconds_eq first.fraction.nanos_lt second.fraction.nanos_lt h

-- A timestamp is read as the moment that it denotes, in every accepted form: behind a `T` or a
-- space, with an offset or `Z`, with a fraction of up to nine digits or none. `Z` stands for an
-- offset of zero, and so does a missing zone. Two timestamps are read alike exactly if they denote
-- the same moment.
theorem ofText?_denotes :
    (∀ spelling : Spelling, ∃ instant, Instant.ofText? spelling.text = some instant ∧
      instant.nanos < Instant.nanosPerSecond ∧ spelling.Denotes instant.inSeconds) ∧
    (∀ civil fraction, Instant.ofText? (zoned civil fraction .zulu).text =
      Instant.ofText? (zoned civil fraction (.numeric .zero)).text) ∧
    (∀ civil, Instant.ofText? (plain civil).text =
      Instant.ofText? (zoned civil .empty (.numeric .zero)).text) ∧
    ∀ first second : Spelling, Instant.ofText? first.text = Instant.ofText? second.text ↔
      ∃ moment, first.Denotes moment ∧ second.Denotes moment := by
  refine ⟨fun spelling => ?_, fun civil fraction => ?_, fun civil => ?_, fun first second => ?_⟩
  · exact ⟨spelling.instant, spelling.ofText?_text, spelling.fraction.nanos_lt,
      (spelling.denotes_iff _).mpr rfl⟩
  · rw [ofText?_text, ofText?_text]
    rfl
  · rw [ofText?_text, ofText?_text]
    rfl
  · rw [ofText?_text, ofText?_text, Option.some_inj, instant_eq_iff]

example : Instant.ofText? leapDay.text = some ⟨1709294399, 250000000⟩ := by decide +kernel

end Spelling

end Timestamp

end Rollout
