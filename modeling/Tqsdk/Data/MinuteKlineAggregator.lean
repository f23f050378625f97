import Tqsdk.Data.HistoryRequest
import Tqsdk.Data.Session

/-!
# Bars of several minutes

`aggregation/minute.rs`: closed canonical minutes become bars on the grid of their trading day.  The
windows of the session say which minutes exist, and a break does not restart a bar.
-/

namespace Tqsdk

structure MinuteKlineAggregationUpdate where
  opened : Option Kline
  updated : Kline
  closed : Option Kline
  eventTimeNs : Int
  deriving DecidableEq

structure MinuteAggregateBar where
  tradingDayStartNs : Int
  effectiveBarEndNs : Int
  row : Kline
  deriving DecidableEq

structure MinuteKlineAggregator where
  durationNs : Int
  session : KlineSessionTemplate
  current : Option MinuteAggregateBar

namespace MinuteKlineAggregator

def new (durationNs : Int) (session : KlineSessionTemplate) :
    Except DataError MinuteKlineAggregator :=
  if durationNs ≤ minuteKlineDurationNs ∨ durationNs % minuteKlineDurationNs ≠ 0 then
    .error (.validation
      "aggregated kline duration must be an integer multiple greater than 60 seconds")
  else .ok ⟨durationNs, session, none⟩

variable (aggregator : MinuteKlineAggregator)

def barBounds (timestampNs : Int) (position : KlineSessionPosition) :
    Except DataError (Int × Int) := do
  let tradingDayOffsetNs ← checkedOr (timestampNs - position.tradingDayStartNs)
    "minute predates its trading-day grid"
  let bucketOffsetNs ←
    checkedOr (tradingDayOffsetNs / aggregator.durationNs * aggregator.durationNs)
      "minute kline bucket offset overflow"
  let barStartNs ← checkedOr (position.tradingDayStartNs + bucketOffsetNs)
    "aggregated kline bar timestamp overflow"
  let nominalEndNs ← checkedOr (barStartNs + aggregator.durationNs)
    "aggregated kline bar end overflow"
  return (barStartNs, min nominalEndNs position.tradingDayEndNs)

def startsNewBar (current : Option MinuteAggregateBar) (tradingDayStartNs barStartNs : Int) :
    Bool :=
  match current with
  | none => true
  | some bar => bar.tradingDayStartNs ≠ tradingDayStartNs || bar.row.datetime ≠ barStartNs

/-- The row a bar opens with, before its first minute. -/
def openRow (barStartNs : Int) (minute : Kline) : Kline :=
  ⟨barStartNs, barStartNs, minute.open_, minute.open_, minute.open_, minute.open_, 0,
    minute.openOi, minute.openOi, minute.epoch⟩

/-- The row with one more minute. -/
def joinMinute (row minute : Kline) : Kline :=
  { row with
    high := row.high.max minute.high
    low := row.low.min minute.low
    close := minute.close
    volume := I64.saturated (row.volume + max minute.volume 0)
    closeOi := minute.closeOi
    epoch := minute.epoch.or row.epoch }

/-- The end of `update`, for a minute whose bar is known. -/
def incorporate (aggregator : MinuteKlineAggregator) (minute : Kline)
    (tradingDayStartNs barStartNs effectiveBarEndNs eventTimeNs : Int) :
    MinuteKlineAggregator × MinuteKlineAggregationUpdate :=
  let fresh : MinuteAggregateBar :=
    ⟨tradingDayStartNs, effectiveBarEndNs, openRow barStartNs minute⟩
  let starts := startsNewBar aggregator.current tradingDayStartNs barStartNs
  let closed := if starts then aggregator.current.map MinuteAggregateBar.row else none
  let bar := if starts then fresh else aggregator.current.getD fresh
  let updated := joinMinute bar.row minute
  let opened := if starts then some fresh.row else none
  if bar.effectiveBarEndNs ≤ eventTimeNs ∧ closed = none then
    ({ aggregator with current := none }, ⟨opened, updated, some updated, eventTimeNs⟩)
  else
    ({ aggregator with current := some { bar with row := updated } },
      ⟨opened, updated, closed, eventTimeNs⟩)

def update (aggregator : MinuteKlineAggregator) (closedMinute : Kline) :
    Except DataError (MinuteKlineAggregator × Option MinuteKlineAggregationUpdate) :=
  if closedMinute.datetime < 0 ∨ closedMinute.datetime % minuteKlineDurationNs ≠ 0 then
    .error (.validation "canonical minute kline datetime is not aligned to 60 seconds")
  else do
    match ← aggregator.session.locate closedMinute.datetime with
    | none => return (aggregator, none)
    | some position =>
      let eventTimeNs ← checkedOr (closedMinute.datetime + minuteKlineDurationNs)
        "canonical minute close timestamp overflow"
      if position.windowEndNs < eventTimeNs then
        .error (.validation "canonical minute kline crosses a configured session boundary")
      else do
        let (barStartNs, effectiveBarEndNs) ← aggregator.barBounds closedMinute.datetime position
        let (aggregator, update) := aggregator.incorporate closedMinute
          position.tradingDayStartNs barStartNs effectiveBarEndNs eventTimeNs
        return (aggregator, some update)

end MinuteKlineAggregator

end Tqsdk
