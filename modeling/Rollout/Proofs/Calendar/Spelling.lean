import Mathlib.Data.List.TakeWhile
import Mathlib.Data.Option.Basic
import Rollout.Calendar.Timestamp
import Rollout.Proofs.Calendar.Day
import Rollout.Proofs.Text.Digits

namespace Rollout.Timestamp

-- A date and a time of day, to the second, as a clock on the spot shows them.
structure Civil where
  year : Nat
  month : Nat
  day : Nat
  hour : Nat
  minute : Nat
  second : Nat
  -- whether a space stands before the time, and not a `T`
  spaced : Bool
  year_pos : 1 ≤ year
  year_le : year ≤ 9999
  inCalendar : Date.InCalendar ⟨year, month, day⟩
  hour_le : hour ≤ 23
  minute_le : minute ≤ 59
  second_le : second ≤ 59

-- The digits of a fraction of a second. Without digits there is no point either.
structure Fraction where
  digits : List Char
  isDigit : ∀ c ∈ digits, c.isDigit = true
  length_le : digits.length ≤ 9

-- How far local time is ahead of UTC or behind it.
structure Offset where
  behind : Bool
  hours : Nat
  minutes : Nat
  hours_le : hours ≤ 23
  minutes_le : minutes ≤ 59

inductive Zone where
  | zulu
  | numeric (offset : Offset)

-- A moment as it can be written down, with its zone or without. Only with a zone there may be a
-- fraction.
inductive Spelling where
  | zoned (civil : Civil) (fraction : Fraction) (zone : Zone)
  | plain (civil : Civil)

def Civil.date (civil : Civil) : Date := ⟨civil.year, civil.month, civil.day⟩

-- What stands between date and time.
def Civil.separator (civil : Civil) : Char := if civil.spaced then ' ' else 'T'

def Civil.text (civil : Civil) : List Char :=
  padDecimal 4 civil.year ++ '-' :: (padDecimal 2 civil.month ++ '-' :: (padDecimal 2 civil.day ++
    civil.separator :: (padDecimal 2 civil.hour ++ ':' :: (padDecimal 2 civil.minute ++
      ':' :: padDecimal 2 civil.second))))

def Fraction.empty : Fraction := ⟨[], nofun, by decide⟩

def Fraction.text (fraction : Fraction) : List Char :=
  if fraction.digits = [] then [] else '.' :: fraction.digits

def Offset.zero : Offset := ⟨false, 0, 0, by decide, by decide⟩

def Offset.text (offset : Offset) : List Char :=
  (if offset.behind then '-' else '+') ::
    (padDecimal 2 offset.hours ++ ':' :: padDecimal 2 offset.minutes)

def Zone.text : Zone → List Char
  | .zulu => ['Z']
  | .numeric offset => offset.text

def Spelling.text : Spelling → String
  | .zoned civil fraction zone => String.ofList (civil.text ++ (fraction.text ++ zone.text))
  | .plain civil => String.ofList civil.text

def Fraction.quarter : Fraction :=
  ⟨['2', '5'], List.forall_mem_cons.mpr ⟨rfl, List.forall_mem_singleton.mpr rfl⟩, by decide⟩

-- A quarter into the last second of a leap day, half a day behind UTC.
def Spelling.leapDay : Spelling :=
  .zoned ⟨2024, 2, 29, 23, 59, 59, false, by decide, by decide,
      ⟨by decide, by decide, by decide, by decide⟩, by decide, by decide, by decide⟩
    .quarter (.numeric ⟨true, 12, 0, by decide, by decide⟩)

example : Spelling.leapDay.text = "2024-02-29T23:59:59.25-12:00" := by decide +kernel

section Parts

theorem bind_of_eq_some {α β : Type} {found : Option α} {a : α} (h : found = some a)
    (next : α → Option β) : (found >>= next) = next a := by
  rw [h]
  rfl

theorem mark?_cons (mark : Char) (rest : List Char) : mark? mark (mark :: rest) = some rest :=
  if_pos rfl

variable {least width n : Nat} {rest : List Char}

theorem number?_padDecimal (hleast : least ≤ width) (hwidth : 0 < width) (h : n < powerOfTen width) :
    number? least width (padDecimal width n ++ rest) = some (n, rest) := by
  have hlength := length_padDecimal hwidth h
  have htake : (padDecimal width n ++ rest).take width = padDecimal width n :=
    List.take_left' hlength
  have hdigits : (padDecimal width n).takeWhile Char.isDigit = padDecimal width n :=
    List.takeWhile_eq_self_iff.mpr fun c hc => isDigit_of_mem_padDecimal hc
  simp only [number?, htake, hdigits, hlength, Nat.not_lt.mpr hleast, if_false,
    readDecimal_padDecimal, List.drop_left' hlength]

theorem exists_padDecimal_eq_cons (hwidth : 0 < width) (h : n < powerOfTen width) :
    ∃ c digits, padDecimal width n = c :: digits ∧ c.isDigit = true := by
  have hlength := length_padDecimal hwidth h
  cases hpad : padDecimal width n with
  | nil =>
      rw [hpad, List.length_nil] at hlength
      omega
  | cons c digits => exact ⟨c, digits, rfl, isDigit_of_mem_padDecimal (hpad ▸ List.mem_cons_self)⟩

theorem trimStart_padDecimal (hwidth : 0 < width) (h : n < powerOfTen width) :
    trimStart (padDecimal width n ++ rest) = padDecimal width n ++ rest := by
  obtain ⟨c, digits, hpad, hc⟩ := exists_padDecimal_eq_cons hwidth h
  rw [hpad, trimStart, List.cons_append, List.dropWhile_cons_of_neg]
  rw [isBlank_eq_false_of_isDigit c hc]
  decide

theorem loose?_padDecimal (h : n < 100) : loose? (padDecimal 2 n ++ rest) = some (n, rest) := by
  rw [loose?, trimStart_padDecimal (by decide) h, number?_padDecimal (by decide) (by decide) h]

-- A year that starts with a digit has no sign.
theorem year?_padDecimal (h : n < 10000) :
    year? (padDecimal 4 n ++ rest) = some ((n : Int), rest) := by
  obtain ⟨c, digits, hpad, hc⟩ := exists_padDecimal_eq_cons (by decide : 0 < 4) h
  have hread : number? 1 4 (padDecimal 4 n ++ rest) = some (n, rest) :=
    number?_padDecimal (by decide) (by decide) h
  rw [year?, trimStart_padDecimal (by decide) h]
  split
  · rename_i hminus
    rw [hpad, List.cons_append] at hminus
    obtain ⟨rfl, -⟩ := List.cons.inj hminus
    cases hc
  · rename_i hplus
    rw [hpad, List.cons_append] at hplus
    obtain ⟨rfl, -⟩ := List.cons.inj hplus
    cases hc
  · rw [hread]
    rfl

end Parts

def fractional? : List Char → Option (Nat × List Char)
  | '.' :: more => fraction? more
  | rest => some (0, rest)

-- What the internet form expects behind the seconds.
def ending? (text : List Char) : Option (Nat × Int) := do
  let fraction ← fractional? text
  let zone ← (zulu? fraction.2).or (offset? (mark? ':') fraction.2)
  guard zone.2.isEmpty
  return (fraction.1, zone.1)

namespace Civil

variable (civil : Civil)

def stamp (nanos : Nat) (offset : Int) : Timestamp :=
  ⟨civil.date, civil.hour, civil.minute, civil.second, nanos, offset⟩

theorem month_lt : civil.month < 100 := Nat.lt_of_le_of_lt civil.inCalendar.month_le (by decide)

theorem day_lt : civil.day < 100 := by
  have hlength : Date.monthLength civil.year civil.month ≤ 31 := by
    unfold Date.monthLength
    split
    · split <;> decide
    all_goals decide
  exact Nat.lt_of_le_of_lt (Nat.le_trans civil.inCalendar.day_le hlength) (by decide)

theorem hour_lt : civil.hour < 100 := Nat.lt_of_le_of_lt civil.hour_le (by decide)

theorem minute_lt : civil.minute < 100 := Nat.lt_of_le_of_lt civil.minute_le (by decide)

theorem second_lt : civil.second < 100 := Nat.lt_of_le_of_lt civil.second_le (by decide)

theorem internet?_text (tail : List Char) :
    internet? (civil.text ++ tail) =
      (ending? tail).map fun found => civil.stamp found.1 found.2 := by
  have hyear : ∀ rest, number? 4 4 (padDecimal 4 civil.year ++ rest) = some (civil.year, rest) :=
    fun rest => number?_padDecimal (by decide) (by decide) (Nat.lt_succ_of_le civil.year_le)
  have htwo : ∀ {n : Nat} (rest : List Char), n < 100 →
      number? 2 2 (padDecimal 2 n ++ rest) = some (n, rest) :=
    fun rest h => number?_padDecimal (by decide) (by decide) h
  have hseparator : ∀ rest, ((mark? 'T' (civil.separator :: rest)).or
      ((mark? 't' (civil.separator :: rest)).or (mark? ' ' (civil.separator :: rest)))) =
        some rest := by
    intro rest
    unfold separator
    cases civil.spaced <;> rfl
  rw [text]
  simp only [List.append_assoc, List.cons_append]
  unfold internet?
  simp only [↓bind_of_eq_some (hyear _), ↓bind_of_eq_some (htwo _ civil.month_lt),
    ↓bind_of_eq_some (htwo _ civil.day_lt), ↓bind_of_eq_some (htwo _ civil.hour_lt),
    ↓bind_of_eq_some (htwo _ civil.minute_lt), ↓bind_of_eq_some (htwo _ civil.second_lt),
    ↓bind_of_eq_some (mark?_cons _ _), ↓bind_of_eq_some (hseparator _)]
  simp only [ending?, Option.bind_eq_bind, Option.map_bind, Function.comp_def]
  split
  · rfl
  · rename_i hpoint
    rw [fractional?]
    · rfl
    · exact hpoint

-- The lenient form finds the time of day behind whatever it takes for the separator.
theorem lenient?_text {separator? : List Char → Option (List Char)}
    (hseparator : ∀ rest, separator? (civil.separator :: (padDecimal 2 civil.hour ++ rest)) =
      some (padDecimal 2 civil.hour ++ rest)) :
    lenient? separator? civil.text = some (civil.stamp 0 0, []) := by
  have hsecond : loose? (padDecimal 2 civil.second) = some (civil.second, []) := by
    have hread : loose? (padDecimal 2 civil.second ++ []) = some (civil.second, []) :=
      loose?_padDecimal civil.second_lt
    rwa [List.append_nil] at hread
  simp only [lenient?, text, year?_padDecimal (Nat.lt_succ_of_le civil.year_le),
    loose?_padDecimal civil.month_lt, loose?_padDecimal civil.day_lt,
    loose?_padDecimal civil.hour_lt, loose?_padDecimal civil.minute_lt, hsecond, mark?_cons,
    hseparator, Option.bind_eq_bind, Option.bind_some]
  rfl

theorem lenient?_text_eq_none {separator? : List Char → Option (List Char)}
    (hseparator : ∀ rest, (separator? (civil.separator :: rest)).bind loose? = none) :
    lenient? separator? civil.text = none := by
  simp only [lenient?, text, year?_padDecimal (Nat.lt_succ_of_le civil.year_le),
    loose?_padDecimal civil.month_lt, loose?_padDecimal civil.day_lt, mark?_cons,
    Option.bind_eq_bind, Option.bind_some]
  rw [← Option.bind_assoc, hseparator, Option.bind_none]

end Civil

def Fraction.nanos (fraction : Fraction) : Nat :=
  readDecimal fraction.digits * powerOfTen (9 - fraction.digits.length)

theorem Fraction.nanos_empty : Fraction.empty.nanos = 0 := Nat.zero_mul _

-- Seconds that local time is ahead of UTC.
def Offset.ahead (offset : Offset) : Int :=
  (if offset.behind then -1 else 1) * (offset.hours * 3600 + offset.minutes * 60 : Nat)

def Zone.ahead : Zone → Int
  | .zulu => 0
  | .numeric offset => offset.ahead

theorem offset?_text (offset : Offset) :
    offset? (mark? ':') offset.text = some (offset.ahead, []) := by
  have hhours := Nat.lt_of_le_of_lt offset.hours_le (by decide : 23 < 100)
  have hminutes := Nat.lt_of_le_of_lt offset.minutes_le (by decide : 59 < 100)
  have hsign : ∀ rest, sign? ((if offset.behind then '-' else '+') :: rest) =
      some (if offset.behind then -1 else 1, rest) := by
    intro rest
    cases offset.behind <;> rfl
  have hlast : number? 2 2 (padDecimal 2 offset.minutes) = some (offset.minutes, []) := by
    have hread : number? 2 2 (padDecimal 2 offset.minutes ++ []) = some (offset.minutes, []) :=
      number?_padDecimal (le_refl 2) (by decide) hminutes
    rwa [List.append_nil] at hread
  have hrange : (guard (offset.minutes ≤ 59) : Option Unit) = some () := if_pos offset.minutes_le
  rw [offset?, Offset.text]
  simp only [↓bind_of_eq_some (hsign _),
    ↓bind_of_eq_some (number?_padDecimal (le_refl 2) (by decide) hhours),
    ↓bind_of_eq_some (mark?_cons _ _), ↓bind_of_eq_some hlast, ↓bind_of_eq_some hrange]
  rfl

theorem zone_text (zone : Zone) :
    (zulu? zone.text).or (offset? (mark? ':') zone.text) = some (zone.ahead, []) := by
  cases zone with
  | zulu => rfl
  | numeric offset =>
      have hzulu : zulu? offset.text = none := by
        unfold Offset.text
        cases offset.behind <;> rfl
      rw [Zone.text, hzulu, Option.none_or, offset?_text]
      rfl

-- No zone starts with a digit or a point, so it ends a fraction and is not taken for one.
theorem exists_zone_text_eq_cons (zone : Zone) :
    ∃ c rest, zone.text = c :: rest ∧ c.isDigit = false ∧ c ≠ '.' := by
  cases zone with
  | zulu => exact ⟨'Z', [], rfl, rfl, by decide⟩
  | numeric offset =>
      refine ⟨_, _, rfl, ?_⟩
      cases offset.behind <;> decide

theorem fraction?_digits (fraction : Fraction) (zone : Zone) (h : fraction.digits ≠ []) :
    fraction? (fraction.digits ++ zone.text) = some (fraction.nanos, zone.text) := by
  obtain ⟨c, rest, hzone, hc, -⟩ := exists_zone_text_eq_cons zone
  have htake : (fraction.digits ++ zone.text).takeWhile Char.isDigit = fraction.digits := by
    rw [List.takeWhile_append_of_pos fraction.isDigit, hzone, List.takeWhile_cons_of_neg (by simp [hc]),
      List.append_nil]
  have hdrop : (fraction.digits ++ zone.text).dropWhile Char.isDigit = zone.text := by
    rw [List.dropWhile_append_of_pos fraction.isDigit, hzone, List.dropWhile_cons_of_neg (by simp [hc])]
  simp only [fraction?, htake, hdrop, List.take_of_length_le fraction.length_le, List.isEmpty_iff, h,
    if_false]
  rfl

theorem fractional?_text (fraction : Fraction) (zone : Zone) :
    fractional? (fraction.text ++ zone.text) = some (fraction.nanos, zone.text) := by
  unfold Fraction.text
  split
  · rename_i hempty
    have hnanos : fraction.nanos = 0 := by
      rw [Fraction.nanos, hempty]
      exact Fraction.nanos_empty
    obtain ⟨c, rest, hzone, -, hpoint⟩ := exists_zone_text_eq_cons zone
    rw [List.nil_append, hnanos, fractional?]
    intro more hmore
    exact hpoint (List.cons.inj (hzone.symm.trans hmore)).1
  · rename_i hdigits
    rw [List.cons_append, fractional?, fraction?_digits fraction zone hdigits]

theorem ending?_text (fraction : Fraction) (zone : Zone) :
    ending? (fraction.text ++ zone.text) = some (fraction.nanos, zone.ahead) := by
  rw [ending?, bind_of_eq_some (fractional?_text fraction zone), bind_of_eq_some (zone_text zone)]
  rfl

namespace Civil

section Unzoned

variable {civil : Civil}

theorem lenient?_spaced (h : civil.spaced = true) :
    lenient? (fun rest => some (trimStart rest)) civil.text = some (civil.stamp 0 0, []) := by
  refine civil.lenient?_text fun rest => ?_
  rw [separator, h, if_pos rfl, trimStart, List.dropWhile_cons_of_pos isBlank_space]
  exact congrArg some (trimStart_padDecimal (by decide) civil.hour_lt)

theorem lenient?_spaced_eq_none (h : civil.spaced = false) :
    lenient? (fun rest => some (trimStart rest)) civil.text = none := by
  refine civil.lenient?_text_eq_none fun rest => ?_
  rw [separator, h]
  rfl

theorem lenient?_marked (h : civil.spaced = false) :
    lenient? (mark? 'T') civil.text = some (civil.stamp 0 0, []) := by
  refine civil.lenient?_text fun rest => ?_
  rw [separator, h]
  rfl

theorem lenient?_marked_eq_none (h : civil.spaced = true) :
    lenient? (mark? 'T') civil.text = none := by
  refine civil.lenient?_text_eq_none fun rest => ?_
  rw [separator, h]
  rfl

-- A text without a zone is of neither of the forms that ask for one.
theorem internet?_text_eq_none (civil : Civil) : internet? civil.text = none := by
  have hread := civil.internet?_text []
  rwa [List.append_nil] at hread

theorem spaced?_text_eq_none (civil : Civil) : spaced? civil.text = none := by
  unfold spaced?
  cases h : civil.spaced with
  | true =>
      rw [lenient?_spaced h]
      rfl
  | false =>
      rw [lenient?_spaced_eq_none h]
      rfl

end Unzoned

section Moment

variable (civil : Civil)

def secondOfDay : Nat := civil.hour * 3600 + civil.minute * 60 + civil.second

theorem secondOfDay_lt : civil.secondOfDay < 86400 := by
  have hhour := civil.hour_le
  have hminute := civil.minute_le
  have hsecond := civil.second_le
  unfold secondOfDay
  omega

-- Four digits of a year keep a day far inside the range of dates.
theorem dayNumber_bounds : -1000000 ≤ civil.date.dayNumber ∧ civil.date.dayNumber ≤ 3000000 := by
  have hepoch : Date.epoch = 719528 := by decide
  have hwithin := civil.inCalendar.dayOfYear_lt
  have hday := civil.inCalendar.day_pos
  have hyear : Date.yearLength civil.year ≤ 366 := by
    unfold Date.yearLength
    split <;> decide
  have hpos := civil.year_pos
  have hle := civil.year_le
  simp only [date, Date.dayNumber, Date.daysBeforeYear, hepoch] at *
  omega

theorem instant_stamp (nanos : Nat) (offset : Int) :
    (civil.stamp nanos offset).instant =
      ⟨civil.date.dayNumber * 86400 + civil.secondOfDay - offset, nanos⟩ := by
  have hleap : (civil.second == 60) = false := by
    have hsecond := civil.second_le
    exact beq_false_of_ne (by omega)
  simp only [instant, stamp, hleap]
  rfl

variable {offset : Int} (hleast : -86400 < offset) (hgreatest : offset < 86400)
include hleast hgreatest

theorem isValid_stamp (nanos : Nat) : (civil.stamp nanos offset).IsValid := by
  have hyear : Date.leastYear ≤ civil.year ∧ (civil.year : Int) ≤ Date.greatestYear := by
    have hle := civil.year_le
    simp only [Date.leastYear, Date.greatestYear]
    omega
  have hcalendar := civil.inCalendar
  exact ⟨⟨hyear.1, hyear.2, hcalendar.month_pos, hcalendar.month_le, hcalendar.day_pos,
    hcalendar.day_le⟩, civil.hour_le, civil.minute_le, Nat.le_succ_of_le civil.second_le, hleast,
    hgreatest⟩

theorem isDated_stamp (nanos : Nat) : (civil.stamp nanos offset).instant.IsDated := by
  have hleastDay : Date.dayNumber ⟨Date.leastYear, 1, 1⟩ = -96465292 := by decide
  have hgreatestDay : Date.dayNumber ⟨Date.greatestYear, 12, 31⟩ = 95026236 := by decide
  have hdays := civil.dayNumber_bounds
  have htime := civil.secondOfDay_lt
  rw [instant_stamp]
  simp only [Instant.IsDated, hleastDay, hgreatestDay, Instant.secondsPerDay]
  omega

theorem instant?_stamp (nanos : Nat) :
    (civil.stamp nanos offset).instant? =
      some ⟨civil.date.dayNumber * 86400 + civil.secondOfDay - offset, nanos⟩ := by
  rw [instant?, if_pos ⟨civil.isValid_stamp hleast hgreatest nanos,
    civil.isDated_stamp hleast hgreatest nanos⟩, instant_stamp]

end Moment

end Civil

section Naive

variable {separator? : List Char → Option (List Char)} {chars : List Char} {stamp : Timestamp}

theorem naive?_eq_some (h : lenient? separator? chars = some (stamp, [])) :
    naive? separator? chars = some stamp := by
  rw [naive?, h]
  rfl

theorem naive?_eq_none (h : lenient? separator? chars = none) : naive? separator? chars = none := by
  rw [naive?, h]
  rfl

end Naive

theorem Zone.ahead_bounds (zone : Zone) : -86400 < zone.ahead ∧ zone.ahead < 86400 := by
  cases zone with
  | zulu => decide
  | numeric offset =>
      have hhours := offset.hours_le
      have hminutes := offset.minutes_le
      simp only [Zone.ahead, Offset.ahead]
      split <;> omega

namespace Spelling

-- The date and the time of day that a spelling shows, in local time.
def civil : Spelling → Civil
  | .zoned civil _ _ => civil
  | .plain civil => civil

def fraction : Spelling → Fraction
  | .zoned _ fraction _ => fraction
  | .plain _ => .empty

-- Without a zone the time is that of UTC.
def ahead : Spelling → Int
  | .zoned _ _ zone => zone.ahead
  | .plain _ => 0

def instant (spelling : Spelling) : Instant :=
  ⟨spelling.civil.date.dayNumber * 86400 + spelling.civil.secondOfDay - spelling.ahead,
    spelling.fraction.nanos⟩

-- Every spelling is read in the form that it has, and no earlier form takes it for something else.
theorem ofText?_text (spelling : Spelling) :
    Instant.ofText? spelling.text = some spelling.instant := by
  cases spelling with
  | zoned civil fraction zone =>
      obtain ⟨hleast, hgreatest⟩ := zone.ahead_bounds
      rw [Instant.ofText?, text, String.toList_ofList]
      simp only [civil.internet?_text, ending?_text, Option.map_some, Option.bind_some,
        civil.instant?_stamp hleast hgreatest fraction.nanos, Option.some_or]
      rfl
  | plain civil =>
      have hinstant := civil.instant?_stamp (by decide : (-86400 : Int) < 0) (by decide) 0
      rw [Instant.ofText?, text, String.toList_ofList]
      simp only [civil.internet?_text_eq_none, civil.spaced?_text_eq_none, Option.bind_none,
        Option.none_or, instant, Spelling.civil, fraction, ahead, Fraction.nanos_empty]
      cases h : civil.spaced with
      | true =>
          rw [naive?_eq_none (Civil.lenient?_marked_eq_none h),
            naive?_eq_some (Civil.lenient?_spaced h), Option.bind_none, Option.none_or,
            Option.bind_some, hinstant]
      | false =>
          rw [naive?_eq_some (Civil.lenient?_marked h), Option.bind_some, hinstant, Option.some_or]

end Spelling

end Rollout.Timestamp
