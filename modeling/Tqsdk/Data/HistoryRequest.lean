import Tqsdk.Data.Rows
import Tqsdk.Data.TradingDay
import Tqsdk.Runtime.OrderLifecycle

/-!
# Backtest history requests

`backtest_history/request.rs`, the rows of `report.rs` and `classify_duration` of `planner.rs`.
A `Duration` is its number of nanoseconds.
-/

namespace Tqsdk

inductive BacktestHistoryKind
  | tick
  | kline (duration : Nat)
  deriving DecidableEq

structure BacktestHistoryRequest where
  requestId : Nat
  symbol : String
  kind : BacktestHistoryKind
  startNs : Int
  endNs : Int
  provisionalAsOfNs : Option Int
  deriving DecidableEq

inductive BacktestHistoryRows
  | ticks (rows : List Tick)
  | klines (durationNs : Int) (rows : List Kline)

def BacktestHistoryRows.length : BacktestHistoryRows → Nat
  | .ticks rows => rows.length
  | .klines _ rows => rows.length

/-! ## Durations -/

def minuteKlineDurationNs : Int := 60 * nanosPerSecond

def dailyKlineDurationNs : Int := 86400 * nanosPerSecond

inductive PlannedBaseSource
  | tick
  | canonicalMinute
  | canonicalDaily
  deriving DecidableEq

def classifyDuration (durationNs : Int) : Except DataError PlannedBaseSource :=
  if 0 < durationNs ∧ durationNs < minuteKlineDurationNs then .ok .tick
  else if durationNs = minuteKlineDurationNs then .ok .canonicalMinute
  else if minuteKlineDurationNs < durationNs ∧ durationNs < dailyKlineDurationNs ∧
      durationNs % minuteKlineDurationNs = 0 then .ok .canonicalMinute
  else if dailyKlineDurationNs ≤ durationNs ∧ durationNs ≤ 28 * dailyKlineDurationNs ∧
      durationNs % dailyKlineDurationNs = 0 then .ok .canonicalDaily
  else .error (.validation ("Kline duration must be below 60s, an integer multiple of 60s below " ++
    "1d, or an integer number of days from 1d through 28d"))

theorem classifyDuration_bounds {dur : Int} {src : PlannedBaseSource}
    (ok : classifyDuration dur = .ok src) :
    0 < dur ∧ dur ≤ 28 * dailyKlineDurationNs := by
  unfold classifyDuration minuteKlineDurationNs dailyKlineDurationNs nanosPerSecond at ok
  unfold dailyKlineDurationNs nanosPerSecond
  split_ifs at ok with hd snd third fourth <;> omega

/-- A length of time as an `i64`, which stops at the largest one. -/
def durationAsNs (duration : Nat) : Int := min I64.maximum duration

end Tqsdk
