import Tqsdk.Lib.Int64
import Tqsdk.Lib.Result

/-!
# Trading days

The trading days of `history_series_cache/tqbn/mod.rs`: a trading day ends at 18:00 CST, and
the time from Friday 18:00 to Monday 18:00 belongs to Monday.  A day is counted from
1970-01-01, a Thursday; a timestamp is in nanoseconds of UTC.
-/

namespace Tqsdk

/-- `DataError`, as far as the modelled parts of `tqsdk-data` raise it. -/
inductive DataError
  | validation (message : String)
  | invalidState (message : String)
  | invalidResponse (message : String)
  | io (message : String)
  deriving DecidableEq

def nanosPerSecond : Int := 1000000000

def nanosPerMinute : Int := 60 * nanosPerSecond

def nanosPerHour : Int := 3600 * nanosPerSecond

def nanosPerDay : Int := 86400 * nanosPerSecond

def cstOffsetNs : Int := 8 * nanosPerHour

/-- Monday is 0. -/
def weekday (day : Int) : Int := (day + 3) % 7

def isWeekend (day : Int) : Bool := decide (5 ≤ weekday day)

/-- The loop steps over Saturday and Sunday. -/
def normalizeWeekendTradingDay (day : Int) : Int :=
  if isWeekend day then if isWeekend (day + 1) then day + 2 else day + 1 else day

def tradingDayForTimestampNs (timestampNs : Int) : Int :=
  let localNs := timestampNs + cstOffsetNs
  let day := localNs / nanosPerDay
  normalizeWeekendTradingDay (if 18 * nanosPerHour ≤ localNs % nanosPerDay then day + 1 else day)

def tradingDayBoundaryNs (day hoursFromMidnight : Int) : Except DataError Int :=
  match I64.checked (day * nanosPerDay + hoursFromMidnight * nanosPerHour - cstOffsetNs) with
  | some timestampNs => .ok timestampNs
  | none => .error (.invalidResponse "TQBN timestamp seconds overflow")

def tradingDayEndNs (day : Int) : Except DataError Int := tradingDayBoundaryNs day 18

/-- The last day before `day` that is no weekend. -/
def previousTradingDay (day : Int) : Int :=
  if isWeekend (day - 1) then if isWeekend (day - 2) then day - 3 else day - 2 else day - 1

structure TradingDayRange where
  tradingDay : Int
  startNs : Int
  endNs : Int
  deriving DecidableEq

def tradingDayRange (day : Int) : Except DataError TradingDayRange := do
  let day := normalizeWeekendTradingDay day
  let startNs ← tradingDayBoundaryNs (previousTradingDay day) 18
  let endNs ← tradingDayEndNs day
  return ⟨day, startNs, endNs⟩

/-- The year and month of a day, `%Y%m`, by the civil calendar with years that begin in March. -/
def tradingMonth (day : Int) : Int :=
  let shifted := day + 719468
  let era := shifted / 146097
  let dayOfEra := shifted % 146097
  let yearOfEra := (dayOfEra - dayOfEra / 1460 + dayOfEra / 36524 - dayOfEra / 146096) / 365
  let dayOfYear := dayOfEra - (365 * yearOfEra + yearOfEra / 4 - yearOfEra / 100)
  let shiftedMonth := (5 * dayOfYear + 2) / 153
  let month := if shiftedMonth < 10 then shiftedMonth + 3 else shiftedMonth - 9
  let year := yearOfEra + era * 400 + (if month ≤ 2 then 1 else 0)
  year * 100 + month

-- 2026-07-24 is a Friday; from its 18:00 CST on the trading day is Monday the 27th.
example : tradingDayForTimestampNs (20658 * nanosPerDay + 10 * nanosPerHour) = 20661 ∧
    tradingMonth 20661 = 202607 := by decide

/-! ## Days that are traded -/

theorem not_isWeekend_tradingDayForTimestampNs (ts : Int) :
    isWeekend (tradingDayForTimestampNs ts) = false := by
  unfold tradingDayForTimestampNs normalizeWeekendTradingDay
  dsimp only
  generalize (if 18 * nanosPerHour ≤ (ts + cstOffsetNs) % nanosPerDay
    then (ts + cstOffsetNs) / nanosPerDay + 1
    else (ts + cstOffsetNs) / nanosPerDay) = day
  unfold isWeekend weekday
  simp only [decide_eq_true_eq]
  split_ifs <;> simp only [decide_eq_false_iff_not] <;> omega

/-- The end of a trading day. -/
def dayEndNs (day : Int) : Int := day * nanosPerDay + 10 * nanosPerHour

variable {day : Int}

theorem tradingDayBoundaryNs_eq_ok {ts : Int} :
    tradingDayBoundaryNs day 18 = .ok ts ↔ I64.InRange (dayEndNs day) ∧ ts = dayEndNs day := by
  have bdry : day * nanosPerDay + 18 * nanosPerHour - cstOffsetNs = dayEndNs day := by
    unfold dayEndNs cstOffsetNs nanosPerHour
    omega
  unfold tradingDayBoundaryNs I64.checked
  rw [bdry]
  split
  · rename_i inR
    split at inR
    · rename_i mem
      obtain rfl := Option.some.inj inR
      exact ⟨fun ok => ⟨mem, (Except.ok.inj ok).symm⟩, fun ok => by rw [ok.2]⟩
    · cases inR
  · rename_i outOfRange
    split at outOfRange
    · cases outOfRange
    · rename_i out
      exact ⟨fun ok => (by cases ok), fun ok => absurd ok.1 out⟩

theorem tradingDayRange_normalized {rng : TradingDayRange} :
    tradingDayRange day = .ok rng ↔
      I64.InRange (dayEndNs (previousTradingDay (normalizeWeekendTradingDay day))) ∧
        I64.InRange (dayEndNs (normalizeWeekendTradingDay day)) ∧
        rng = ⟨normalizeWeekendTradingDay day,
          dayEndNs (previousTradingDay (normalizeWeekendTradingDay day)),
          dayEndNs (normalizeWeekendTradingDay day)⟩ := by
  unfold tradingDayRange tradingDayEndNs
  simp only [Result.bind_eq_ok, tradingDayBoundaryNs_eq_ok]
  constructor
  · rintro ⟨_, ⟨lo, rfl⟩, _, ⟨stop, rfl⟩, ok⟩
    exact ⟨lo, stop, (Except.ok.inj ok).symm⟩
  · rintro ⟨lo, stop, rfl⟩
    exact ⟨_, ⟨lo, rfl⟩, _, ⟨stop, rfl⟩, rfl⟩

theorem normalizeWeekendTradingDay_eq (wday : isWeekend day = false) :
    normalizeWeekendTradingDay day = day := by
  unfold normalizeWeekendTradingDay
  rw [wday]
  rfl

theorem tradingDayRange_iff {rng : TradingDayRange} (wday : isWeekend day = false) :
    tradingDayRange day = .ok rng ↔
      I64.InRange (dayEndNs (previousTradingDay day)) ∧ I64.InRange (dayEndNs day) ∧
        rng = ⟨day, dayEndNs (previousTradingDay day), dayEndNs day⟩ := by
  rw [tradingDayRange_normalized, normalizeWeekendTradingDay_eq wday]

/-- A trading day starts 24 hours before its end, or 72 after a weekend. -/
theorem dayStart_cases (notWeekend : isWeekend day = false) :
    (isWeekend (day - 1) = false ∧
        dayEndNs (previousTradingDay day) = dayEndNs day - nanosPerDay) ∨
      (isWeekend (day - 1) = true ∧
        dayEndNs (previousTradingDay day) = dayEndNs day - 3 * nanosPerDay) := by
  unfold previousTradingDay
  cases weekend : isWeekend (day - 1) with
  | false =>
    refine .inl ⟨rfl, ?_⟩
    rw [if_neg (by simp)]
    unfold dayEndNs nanosPerDay nanosPerSecond
    omega
  | true =>
    have both : isWeekend (day - 2) = true := by
      unfold isWeekend weekday at *
      simp only [decide_eq_true_eq, decide_eq_false_iff_not] at *
      omega
    refine .inr ⟨rfl, ?_⟩
    rw [if_pos rfl, both, if_pos rfl]
    unfold dayEndNs nanosPerDay nanosPerSecond
    omega

end Tqsdk
