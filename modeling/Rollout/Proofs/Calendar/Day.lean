import Mathlib.Logic.Function.Iterate
import Rollout.Calendar.Date

namespace Rollout.Date

-- A day that the calendar has, in any year.
structure InCalendar (date : Date) : Prop where
  month_pos : 1 ≤ date.month
  month_le : date.month ≤ 12
  day_pos : 1 ≤ date.day
  day_le : date.day ≤ monthLength date.year date.month

def tomorrow (date : Date) : Date :=
  if date.day < monthLength date.year date.month then ⟨date.year, date.month, date.day + 1⟩
  else if date.month < 12 then ⟨date.year, date.month + 1, 1⟩
  else ⟨date.year + 1, 1, 1⟩

-- The day that days are counted from.
def origin : Date := ⟨1970, 1, 1⟩

-- So many days after the origin comes the date, or so many days after the date the origin if the
-- number is negative.
def OnDay (date : Date) (day : Int) : Prop :=
  tomorrow^[day.toNat] origin = tomorrow^[(-day).toNat] date

def yearLength (year : Int) : Nat := if isLeapYear year then 366 else 365

theorem monthLength_pos (year : Int) (month : Nat) : 1 ≤ monthLength year month := by
  unfold monthLength
  split
  · split <;> decide
  · decide
  · decide
  · decide
  · decide
  · decide

theorem daysBeforeYear_succ (year : Int) :
    daysBeforeYear (year + 1) = daysBeforeYear year + yearLength year := by
  unfold daysBeforeYear yearLength isLeapYear
  split
  · rename_i hleap
    simp only [Bool.and_eq_true, Bool.or_eq_true, beq_iff_eq, bne_iff_ne] at hleap
    omega
  · rename_i hcommon
    simp only [Bool.and_eq_true, Bool.or_eq_true, beq_iff_eq, bne_iff_ne] at hcommon
    omega

theorem daysBeforeYear_le {first later : Int} (h : first ≤ later) :
    daysBeforeYear first ≤ daysBeforeYear later := by
  unfold daysBeforeYear
  omega

theorem daysBeforeMonth_succ (year : Int) {month : Nat} (h : 1 ≤ month) :
    daysBeforeMonth year (month + 1) = daysBeforeMonth year month + monthLength year month := by
  cases month with
  | zero => omega
  | succ month => rfl

theorem daysBeforeMonth_le (year : Int) {first later : Nat} (hpos : 1 ≤ first) (h : first ≤ later) :
    daysBeforeMonth year first ≤ daysBeforeMonth year later := by
  induction h with
  | refl => exact Nat.le_refl _
  | @step later hle ih =>
      rw [daysBeforeMonth_succ year (Nat.le_trans hpos hle)]
      omega

theorem daysBeforeMonth_december (year : Int) :
    daysBeforeMonth year 12 + monthLength year 12 = yearLength year := by
  simp only [daysBeforeMonth, monthLength, yearLength]
  split <;> rfl

namespace InCalendar

variable {date : Date} (h : date.InCalendar)
include h

theorem tomorrow : date.tomorrow.InCalendar := by
  obtain ⟨hmonth, hlast, hday, hend⟩ := h
  unfold Date.tomorrow
  split
  · rename_i hwithin
    exact ⟨hmonth, hlast, Nat.le_add_left 1 _, hwithin⟩
  · split
    · rename_i hbefore
      exact ⟨Nat.le_add_left 1 _, hbefore, Nat.le_refl 1, monthLength_pos _ _⟩
    · exact ⟨Nat.le_refl 1, Nat.le_add_left 1 11, Nat.le_refl 1, monthLength_pos _ _⟩

theorem dayNumber_tomorrow : date.tomorrow.dayNumber = date.dayNumber + 1 := by
  obtain ⟨hmonth, hlast, hday, hend⟩ := h
  unfold Date.tomorrow
  split
  · simp only [dayNumber]
    omega
  · split
    · simp only [dayNumber, daysBeforeMonth_succ date.year hmonth]
      omega
    · have hdecember : date.month = 12 := by omega
      have hyear := daysBeforeMonth_december date.year
      simp only [dayNumber, daysBeforeYear_succ, daysBeforeMonth, hdecember] at *
      omega

-- The day within the year, counted from zero, is less than the year has days.
theorem dayOfYear_lt : daysBeforeMonth date.year date.month + date.day ≤ yearLength date.year := by
  obtain ⟨hmonth, hlast, hday, hend⟩ := h
  have hnext := daysBeforeMonth_le date.year (by omega : 1 ≤ date.month + 1)
    (by omega : date.month + 1 ≤ 13)
  have hdecember := daysBeforeMonth_december date.year
  rw [daysBeforeMonth_succ date.year hmonth, daysBeforeMonth_succ date.year (by decide)] at hnext
  omega

theorem iterate_tomorrow (days : Nat) : (Date.tomorrow^[days] date).InCalendar ∧
    (Date.tomorrow^[days] date).dayNumber = date.dayNumber + days := by
  induction days with
  | zero => exact ⟨h, (Int.add_zero _).symm⟩
  | succ days ih =>
      rw [Function.iterate_succ_apply']
      refine ⟨ih.1.tomorrow, ?_⟩
      rw [ih.1.dayNumber_tomorrow, ih.2]
      omega

end InCalendar

section Order

variable {first second : Date} (hfirst : first.InCalendar) (hsecond : second.InCalendar)
include hfirst hsecond

theorem InCalendar.dayNumber_lt_of_year (h : first.year < second.year) :
    first.dayNumber < second.dayNumber := by
  have hwithin := hfirst.dayOfYear_lt
  have hday := hsecond.day_pos
  have hyears := daysBeforeYear_le (Int.add_one_le_of_lt h)
  rw [daysBeforeYear_succ] at hyears
  unfold dayNumber
  omega

theorem InCalendar.dayNumber_lt_of_month (hyear : first.year = second.year)
    (h : first.month < second.month) : first.dayNumber < second.dayNumber := by
  have hwithin := hfirst.day_le
  have hday := hsecond.day_pos
  have hmonths := daysBeforeMonth_le first.year (Nat.le_add_left 1 first.month)
    (Nat.succ_le_of_lt h)
  rw [daysBeforeMonth_succ first.year hfirst.month_pos] at hmonths
  unfold dayNumber
  rw [← hyear]
  omega

theorem InCalendar.eq_of_dayNumber_eq (h : first.dayNumber = second.dayNumber) : first = second := by
  have hyear : first.year = second.year := by
    rcases Int.lt_trichotomy first.year second.year with hlt | heq | hgt
    · have hless := hfirst.dayNumber_lt_of_year hsecond hlt
      omega
    · exact heq
    · have hless := hsecond.dayNumber_lt_of_year hfirst hgt
      omega
  have hmonth : first.month = second.month := by
    rcases Nat.lt_trichotomy first.month second.month with hlt | heq | hgt
    · have hless := hfirst.dayNumber_lt_of_month hsecond hyear hlt
      omega
    · exact heq
    · have hless := hsecond.dayNumber_lt_of_month hfirst hyear.symm hgt
      omega
  have hday : first.day = second.day := by
    unfold dayNumber at h
    rw [hyear, hmonth] at h
    omega
  obtain ⟨year, month, day⟩ := first
  obtain ⟨_, _, _⟩ := second
  cases hyear
  cases hmonth
  cases hday
  rfl

end Order

theorem inCalendar_origin : origin.InCalendar := ⟨by decide, by decide, by decide, by decide⟩

-- Counting days one by one agrees with the number that is computed for a date.
theorem InCalendar.onDay_iff {date : Date} (h : date.InCalendar) (day : Int) :
    date.OnDay day ↔ day = date.dayNumber := by
  have horigin := inCalendar_origin.iterate_tomorrow day.toNat
  have hdate := h.iterate_tomorrow (-day).toNat
  have hzero : origin.dayNumber = 0 := by decide
  constructor
  · intro hday
    have hnumber := congrArg dayNumber hday
    rw [horigin.2, hdate.2, hzero] at hnumber
    omega
  · intro hday
    apply horigin.1.eq_of_dayNumber_eq hdate.1
    rw [horigin.2, hdate.2, hzero]
    omega

end Rollout.Date
