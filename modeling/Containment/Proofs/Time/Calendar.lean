/-
Module: Containment.Proofs.Time.Calendar
Purpose: Naming a day and counting up to it again. The calendar repeats after 400 years, so what matters is where a
  day lies within such a cycle: in which century, in which span of four years, in which year, and how far into it.
Main exports: CycleDay, Date.toDays_ofDays, Date.isValid_ofDays
-/
import Containment.Time.Calendar
import Mathlib.Tactic.IntervalCases

namespace Containment.Time

/-- A day of a cycle of 400 years that begin in March. Only the last year of a span of four has a day 365, and the
last span of a century has none unless it ends the cycle. -/
structure CycleDay where
  century : Nat
  span : Nat
  year : Nat
  day : Nat
  century_le : century ≤ 3
  span_le : span ≤ 24
  year_le : year ≤ 3
  day_le : day ≤ 365
  leap : day = 365 → year = 3 ∧ (span = 24 → century = 3)

namespace CycleDay

/-- The number of years before the day's own. -/
def years (p : CycleDay) : Nat :=
  100 * p.century + 4 * p.span + p.year

/-- The number of days before the day. -/
def days (p : CycleDay) : Nat :=
  36524 * p.century + 1461 * p.span + 365 * p.year + p.day

theorem exists_of_lt {d : Nat} (h : d < 146097) : ∃ p : CycleDay, p.days = d := by
  -- The last century and the last year of a span are one day longer than the others, so they are not left by dividing.
  let century := min (d / 36524) 3
  let inCentury := d - 36524 * century
  let span := inCentury / 1461
  let inSpan := inCentury - 1461 * span
  let year := min (inSpan / 365) 3
  let day := inSpan - 365 * year
  have inCentury_le : inCentury ≤ 36524 ∧ (inCentury = 36524 → century = 3) := by omega
  have span_le : span ≤ 24 := by omega
  have inSpan_le : inSpan ≤ 1460 ∧ (inSpan = 1460 → span = 24 → inCentury = 36524) := by omega
  have day_le : day ≤ 365 ∧ (day = 365 → year = 3 ∧ inSpan = 1460) := by omega
  refine ⟨⟨century, span, year, day, ?_, span_le, ?_, day_le.1, ?_⟩, ?_⟩
  · exact Nat.min_le_right _ _
  · exact Nat.min_le_right _ _
  · intro last
    obtain ⟨ends, full⟩ := day_le.2 last
    exact ⟨ends, fun final => inCentury_le.2 (inSpan_le.2 full final)⟩
  · simp only [days]
    omega

theorem days_lt (p : CycleDay) : p.days < 146097 := by
  obtain ⟨century, span, year, day, _, _, _, _, leap⟩ := p
  simp only [days]
  omega

theorem years_lt (p : CycleDay) : p.years < 400 := by
  obtain ⟨century, span, year, day, _, _, _, _, leap⟩ := p
  simp only [years]
  omega

/-- The year of a day, after the days that leap years have brought are taken away. -/
theorem years_eq (p : CycleDay) :
    (p.days - p.days / 1460 + p.days / 36524 - p.days / 146096) / 365 = p.years := by
  obtain ⟨century, span, year, day, _, _, _, _, leap⟩ := p
  simp only [days, years]
  generalize named : 36524 * century + 1461 * span + 365 * year + day = d
  have centuries : d / 36524 - d / 146096 = century ∧ d / 146096 ≤ d / 36524 := by omega
  have spans : d / 1460 = 25 * century + span ∧ 24 * century + span + 365 * year + day < 1460 ∨
      d / 1460 = 25 * century + span + 1 ∧ 1460 ≤ 24 * century + span + 365 * year + day := by omega
  have even : d - d / 1460 + d / 36524 - d / 146096 = d - d / 1460 + century := by omega
  rw [even]
  rcases spans with ⟨spans, within⟩ | ⟨spans, beyond⟩
  · have shortened : d - d / 1460 + century = 365 * (100 * century + 4 * span + year) + day := by omega
    omega
  · have shortened : d - d / 1460 + century + 1 = 365 * (100 * century + 4 * span + year) + day := by omega
    omega

/-- The days before a year: 365 for each year before it, and the leap days. -/
theorem day_eq (p : CycleDay) : p.days - (365 * p.years + p.years / 4 - p.years / 100) = p.day := by
  obtain ⟨century, span, year, day, _, _, _, _, leap⟩ := p
  simp only [days, years]
  omega

theorem days_eq (p : CycleDay) : p.days = 365 * p.years + p.years / 4 - p.years / 100 + p.day := by
  obtain ⟨century, span, year, day, _, _, _, _, _⟩ := p
  simp only [days, years]
  omega

end CycleDay

/-! ### Days and months -/

/-- The month of a day, counted from March; each has 30 or 31 days before the next, but the last is cut short. -/
def monthFromMarch (day : Nat) : Nat :=
  (5 * day + 2) / 153

/-- The number of the month in a year that begins in January. -/
def monthNumber (fromMarch : Nat) : Nat :=
  if fromMarch < 10 then fromMarch + 3 else fromMarch - 9

theorem monthFromMarch_lt {day : Nat} (h : day ≤ 365) : monthFromMarch day < 12 := by
  simp only [monthFromMarch]
  omega

theorem monthNumber_inverse {fromMarch : Nat} (h : fromMarch < 12) : (monthNumber fromMarch + 9) % 12 = fromMarch := by
  simp only [monthNumber]
  split <;> omega

/-- The place of a day number in the calendar. -/
theorem exists_place (days : Int) :
    ∃ (era : Int) (p : CycleDay), days + 719468 = era * 146097 + p.days := by
  obtain ⟨p, same⟩ := CycleDay.exists_of_lt (d := ((days + 719468) % 146097).toNat) (by omega)
  exact ⟨(days + 719468) / 146097, p, by omega⟩

namespace Date

/-- The date of a day whose place is known. -/
theorem ofDays_eq {days era : Int} {p : CycleDay} (place : days + 719468 = era * 146097 + p.days) :
    ofDays days =
      { year := if monthNumber (monthFromMarch p.day) ≤ 2 then era * 400 + p.years + 1 else era * 400 + p.years
        month := monthNumber (monthFromMarch p.day)
        day := p.day - (153 * monthFromMarch p.day + 2) / 5 + 1 } := by
  have below := p.days_lt
  have cycles : (days + 719468) / 146097 = era := by omega
  have within : ((days + 719468) % 146097).toNat = p.days := by omega
  simp only [ofDays, cycles, within]
  simp only [p.years_eq, p.day_eq]
  rfl

/-- A day that has been named is found again by counting. -/
theorem toDays_ofDays (days : Int) : (ofDays days).toDays = days := by
  obtain ⟨era, p, place⟩ := exists_place days
  have early := p.years_lt
  have begun : (153 * monthFromMarch p.day + 2) / 5 ≤ p.day := by
    simp only [monthFromMarch]
    omega
  have counted := p.days_eq
  rw [ofDays_eq place]
  simp only [toDays, monthNumber_inverse (monthFromMarch_lt p.day_le)]
  have year : ∀ y : Int, (if monthNumber (monthFromMarch p.day) ≤ 2 then
      (if monthNumber (monthFromMarch p.day) ≤ 2 then y + 1 else y) - 1
      else if monthNumber (monthFromMarch p.day) ≤ 2 then y + 1 else y) = y := by
    intro y
    split <;> omega
  have cycles : (era * 400 + p.years) / 400 = era := by omega
  have within : (era * 400 + p.years) % 400 = p.years := by omega
  rw [year, cycles, within]
  omega

theorem isValid_iff {date : Date} : date.isValid = true ↔ (minYear ≤ date.year ∧ date.year ≤ maxYear) ∧
    (1 ≤ date.month ∧ date.month ≤ 12) ∧ 1 ≤ date.day ∧ date.day ≤ monthLength date.year date.month := by
  simp only [isValid, Bool.and_eq_true, decide_eq_true_eq, and_assoc]

theorem monthLength_le (year : Int) (month : Nat) : monthLength year month ≤ 31 := by
  simp only [monthLength]
  repeat' split
  all_goals decide

/-- The month formula knows how long a month is. -/
theorem monthLength_monthNumber (year : Int) {fromMarch : Nat} (h : fromMarch < 11) :
    monthLength year (monthNumber fromMarch) = (153 * (fromMarch + 1) + 2) / 5 - (153 * fromMarch + 2) / 5 := by
  interval_cases fromMarch <;> rfl

/-- The year after a year with a day 365 begins with the end of a leap February. -/
theorem isLeapYear_of_last {era : Int} {p : CycleDay} (last : p.day = 365) :
    isLeapYear (era * 400 + p.years + 1) = true := by
  have early := p.years_lt
  obtain ⟨century, span, year, day, _, _, _, _, leap⟩ := p
  obtain ⟨ends, final⟩ := leap last
  simp only [CycleDay.years] at early ⊢
  simp only [isLeapYear, Bool.and_eq_true, Bool.or_eq_true, beq_iff_eq, bne_iff_ne]
  omega

theorem day_le_monthLength (era : Int) (p : CycleDay) :
    p.day - (153 * monthFromMarch p.day + 2) / 5 + 1 ≤ monthLength
      (if monthNumber (monthFromMarch p.day) ≤ 2 then era * 400 + p.years + 1 else era * 400 + p.years)
      (monthNumber (monthFromMarch p.day)) := by
  have day_le := p.day_le
  have monthly := monthFromMarch_lt day_le
  by_cases february : monthFromMarch p.day = 11
  · have number : monthNumber 11 = 2 := rfl
    have length : ∀ year, monthLength year 2 = if isLeapYear year then 29 else 28 := fun _ => rfl
    rw [february, number, if_pos (Nat.le_refl 2), length]
    by_cases last : p.day = 365
    · rw [if_pos (isLeapYear_of_last last)]
      omega
    · split <;> omega
  · rw [monthLength_monthNumber _ (by omega)]
    simp only [monthFromMarch]
    omega

/-- The days of the supported range have valid dates. -/
theorem isValid_ofDays {days : Int} (first : minDay ≤ days) (last : days ≤ maxDay) : (ofDays days).isValid = true := by
  obtain ⟨era, p, place⟩ := exists_place days
  have minimum : minDay = -96465292 := by decide
  have maximum : maxDay = 95026236 := by decide
  have counted := p.days_eq
  have early := p.years_lt
  have day_le := p.day_le
  have fits := day_le_monthLength era p
  have month_eq : monthFromMarch p.day = (5 * p.day + 2) / 153 := rfl
  -- The range begins in January and ends in December, and the years counted here begin in March.
  have lowest : -262144 ≤ era * 400 + p.years ∧ (era * 400 + p.years = -262144 → 10 ≤ monthFromMarch p.day) := by
    omega
  have highest : era * 400 + p.years ≤ 262142 ∧ (era * 400 + p.years = 262142 → monthFromMarch p.day < 10) := by
    omega
  have number : 1 ≤ monthNumber (monthFromMarch p.day) ∧ monthNumber (monthFromMarch p.day) ≤ 12 ∧
      (monthNumber (monthFromMarch p.day) ≤ 2 ↔ 10 ≤ monthFromMarch p.day) := by
    simp only [monthNumber]
    split <;> omega
  obtain ⟨lower, upper, turned⟩ := number
  rw [ofDays_eq place]
  refine isValid_iff.2 ⟨⟨?_, ?_⟩, ⟨lower, upper⟩, Nat.le_add_left 1 _, fits⟩
  · simp only [minYear]
    split <;> omega
  · simp only [maxYear]
    split <;> omega

end Date

end Containment.Time
