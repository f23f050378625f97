import Mathlib.Algebra.Order.Ring.Int
import Mathlib.Data.Int.ConditionallyCompleteOrder
import Mathlib.Order.SuccPred.Archimedean
import Mathlib.Data.Int.SuccPred

/-!
# Civil months

Days are counted from 1970-01-01, months from March of the year 0, so that a leap day is the last
day of its year.  The month of a day is found by division, from cycles of 400 years down, and is
the one month whose days enclose it.
-/

namespace Calendar

/-! ## Years -/

/-- The year in a cycle of 400 years. -/
def yearOfEra (dayOfEra : Int) : Int :=
  (dayOfEra - dayOfEra / 1460 + dayOfEra / 36524 - dayOfEra / 146096) / 365

/-- The centuries, the four-year cycles and the years before a day, and its day of the year. -/
structure Parts (dayOfEra century quad year dayOfYear : Int) : Prop where
  centuryBounds : 0 ≤ century ∧ century ≤ 3
  quadBounds : 0 ≤ quad ∧ quad ≤ 24
  yearBounds : 0 ≤ year ∧ year ≤ 3
  dayBounds : 0 ≤ dayOfYear ∧ dayOfYear ≤ 365
  leap : dayOfYear = 365 → year = 3 ∧ (quad ≠ 24 ∨ century = 3)
  total : dayOfEra = 36524 * century + 1461 * quad + 365 * year + dayOfYear

variable {dayOfEra : Int}

theorem exists_parts (nn : 0 ≤ dayOfEra) (less : dayOfEra < 146097) :
    ∃ cent quad year doy, Parts dayOfEra cent quad year doy := by
  obtain ⟨cent, rest, cenBds, restBounds, split⟩ : ∃ cent rest : Int,
      (0 ≤ cent ∧ cent ≤ 3) ∧ (0 ≤ rest ∧ (rest < 36524 ∨ (rest = 36524 ∧ cent = 3))) ∧
        dayOfEra = 36524 * cent + rest := by
    by_cases last : dayOfEra = 146096
    · exact ⟨3, 36524, by omega, by omega, by omega⟩
    · exact ⟨dayOfEra / 36524, dayOfEra % 36524, by omega, by omega, by omega⟩
  have quadBounds : 0 ≤ rest / 1461 ∧ rest / 1461 ≤ 24 := by omega
  by_cases last : rest % 1461 = 1460
  · exact ⟨cent, rest / 1461, 3, 365, cenBds, quadBounds, by omega, by omega,
      fun _ => ⟨rfl, by omega⟩, by omega⟩
  · exact ⟨cent, rest / 1461, rest % 1461 / 365, rest % 1461 % 365, cenBds, quadBounds,
      by omega, by omega, by omega, by omega⟩

theorem Parts.yearOfEra_eq {cent quad year doy : Int} (ps : Parts dayOfEra cent quad year doy) :
    yearOfEra dayOfEra = 100 * cent + 4 * quad + year := by
  obtain ⟨cenBds, quadBounds, yearBounds, dayBounds, leap, total⟩ := ps
  unfold yearOfEra
  have quads : dayOfEra / 1460 = 25 * cent + quad +
      (24 * cent + quad + 365 * year + doy) / 1460 := by omega
  have inCentury : 1461 * quad + 365 * year + doy < 36524 ∨
      (1461 * quad + 365 * year + doy = 36524 ∧ cent = 3) := by
    omega
  have correction : dayOfEra / 36524 - dayOfEra / 146096 = cent := by
    rcases inCentury with mem | ⟨last, fin⟩
    · have hd : dayOfEra / 36524 = cent := by omega
      have snd : dayOfEra / 146096 = 0 := by omega
      omega
    · omega
  have car : (24 * cent + quad + 365 * year + doy) / 1460 = 0 ∨
      ((24 * cent + quad + 365 * year + doy) / 1460 = 1 ∧ 1 ≤ doy) := by
    omega
  have late : doy = 365 →
      (24 * cent + quad + 365 * year + doy) / 1460 = 1 := by
    omega
  rw [show dayOfEra - dayOfEra / 1460 + dayOfEra / 36524 - dayOfEra / 146096 =
    365 * (100 * cent + 4 * quad + year) +
      (doy - (24 * cent + quad + 365 * year + doy) / 1460) by omega]
  omega

/-! ## Months -/

def dayOfYear (dayOfEra : Int) : Int :=
  let year := yearOfEra dayOfEra
  dayOfEra - (365 * year + year / 4 - year / 100)

theorem Parts.dayOfYear_eq {cent quad year day : Int}
    (ps : Parts dayOfEra cent quad year day) : dayOfYear dayOfEra = day := by
  have isYear := ps.yearOfEra_eq
  obtain ⟨cenBds, quadBounds, yearBounds, dayBounds, -, total⟩ := ps
  unfold dayOfYear
  rw [isYear]
  dsimp only
  omega

/-- The months from March of the year 0 to the month of a day. -/
def monthIndex (day : Int) : Int :=
  let shifted := day + 719468
  12 * (yearOfEra (shifted % 146097) + 400 * (shifted / 146097)) +
    (5 * dayOfYear (shifted % 146097) + 2) / 153

/-- The first day of a month. -/
def monthStart (index : Int) : Int :=
  let year := index / 12
  365 * year + year / 4 - year / 100 + year / 400 + (153 * (index % 12) + 2) / 5 - 719468

theorem monthStart_succ (idx : Int) :
    monthStart idx + 28 ≤ monthStart (idx + 1) ∧ monthStart (idx + 1) ≤ monthStart idx + 31 := by
  unfold monthStart
  dsimp only
  by_cases december : idx % 12 = 11
  · have nextYear : (idx + 1) / 12 = idx / 12 + 1 := by omega
    have march : (idx + 1) % 12 = 0 := by omega
    rw [nextYear, march, december]
    omega
  · have sameYear : (idx + 1) / 12 = idx / 12 := by omega
    have nextMonth : (idx + 1) % 12 = idx % 12 + 1 := by omega
    rw [sameYear, nextMonth]
    omega

theorem strictMono_monthStart : StrictMono monthStart :=
  strictMono_int_of_lt_succ fun idx => by
    have len := monthStart_succ idx
    omega

theorem monthIndex_bounds (day : Int) :
    monthStart (monthIndex day) ≤ day ∧ day < monthStart (monthIndex day + 1) := by
  obtain ⟨cent, quad, year, dayOf, ps⟩ :=
    @exists_parts ((day + 719468) % 146097) (by omega) (by omega)
  have isYear := ps.yearOfEra_eq
  have isDay := ps.dayOfYear_eq
  obtain ⟨cenBds, quadBounds, yearBounds, dayBounds, leap, total⟩ := ps
  unfold monthIndex
  dsimp only
  rw [isYear, isDay]
  generalize isEra : (day + 719468) / 146097 = era
  have all : day + 719468 = 146097 * era + (day + 719468) % 146097 := by omega
  rw [total] at all
  obtain ⟨mo, isMonth⟩ : ∃ mo, (5 * dayOf + 2) / 153 = mo := ⟨_, rfl⟩
  have monthBounds : 0 ≤ mo ∧ mo ≤ 11 := by omega
  rw [isMonth]
  have inMonth : (153 * mo + 2) / 5 ≤ dayOf ∧
      (mo ≤ 10 → dayOf < (153 * (mo + 1) + 2) / 5) := by omega
  unfold monthStart
  dsimp only
  have yearIndex : (12 * (100 * cent + 4 * quad + year + 400 * era) + mo) / 12 =
      100 * cent + 4 * quad + year + 400 * era := by omega
  have monthIn : (12 * (100 * cent + 4 * quad + year + 400 * era) + mo) % 12 = mo := by omega
  rw [yearIndex, monthIn]
  have leaps : (100 * cent + 4 * quad + year + 400 * era) / 4 =
        25 * cent + quad + 100 * era ∧
      (100 * cent + 4 * quad + year + 400 * era) / 100 = cent + 4 * era ∧
      (100 * cent + 4 * quad + year + 400 * era) / 400 = era := by omega
  rw [leaps.1, leaps.2.1, leaps.2.2]
  refine ⟨by omega, ?_⟩
  by_cases lastMonth : mo = 11
  · subst lastMonth
    have nextYear : (12 * (100 * cent + 4 * quad + year + 400 * era) + 11 + 1) / 12 =
        100 * cent + 4 * quad + year + 400 * era + 1 := by omega
    have march : (12 * (100 * cent + 4 * quad + year + 400 * era) + 11 + 1) % 12 = 0 := by omega
    rw [nextYear, march]
    -- the year after has one more leap day behind it when it is itself divisible by four
    rcases Int.lt_or_eq_of_le yearBounds.2 with inQuad | rfl
    · have carries : (100 * cent + 4 * quad + year + 400 * era + 1) / 4 =
            25 * cent + quad + 100 * era ∧
          (100 * cent + 4 * quad + year + 400 * era + 1) / 100 = cent + 4 * era ∧
          (100 * cent + 4 * quad + year + 400 * era + 1) / 400 = era := by omega
      omega
    rcases Int.lt_or_eq_of_le quadBounds.2 with inCentury | rfl
    · have carries : (100 * cent + 4 * quad + 3 + 400 * era + 1) / 4 =
            25 * cent + quad + 1 + 100 * era ∧
          (100 * cent + 4 * quad + 3 + 400 * era + 1) / 100 = cent + 4 * era ∧
          (100 * cent + 4 * quad + 3 + 400 * era + 1) / 400 = era := by omega
      omega
    rcases Int.lt_or_eq_of_le cenBds.2 with inEra | rfl
    · have carries : (100 * cent + 4 * 24 + 3 + 400 * era + 1) / 4 =
            25 * cent + 25 + 100 * era ∧
          (100 * cent + 4 * 24 + 3 + 400 * era + 1) / 100 = cent + 1 + 4 * era ∧
          (100 * cent + 4 * 24 + 3 + 400 * era + 1) / 400 = era := by omega
      omega
    · omega
  · have sameYear : (12 * (100 * cent + 4 * quad + year + 400 * era) + mo + 1) / 12 =
        100 * cent + 4 * quad + year + 400 * era := by omega
    have nextMonth : (12 * (100 * cent + 4 * quad + year + 400 * era) + mo + 1) % 12 =
        mo + 1 := by omega
    rw [sameYear, nextMonth, leaps.1, leaps.2.1, leaps.2.2]
    omega

/-- A day is in the month whose first day is not after it and whose last day is not before. -/
theorem monthIndex_eq_iff {day idx : Int} :
    monthIndex day = idx ↔ monthStart idx ≤ day ∧ day < monthStart (idx + 1) := by
  obtain ⟨low, high⟩ := monthIndex_bounds day
  constructor
  · rintro rfl
    exact ⟨low, high⟩
  · rintro ⟨lo, stop⟩
    have notBefore := strictMono_monthStart.lt_iff_lt.mp (low.trans_lt stop)
    have notAfter := strictMono_monthStart.lt_iff_lt.mp (lo.trans_lt high)
    omega

-- The first of January 1970 and the day after the leap day of 2024.
example : monthStart (12 * 1970 - 2) = 0 ∧ monthStart (12 * 2024) = 19783 := by decide

end Calendar
