import Tqsdk.Data.Rows
import Tqsdk.Data.Session
import Tqsdk.Runtime.OrderLifecycle

/-!
# Sub-minute bars

`aggregation/tick.rs`: ticks become bars that are shorter than a minute and lie on the grid of
their session window.
-/

namespace Tqsdk

open Option

/-- What the aggregator reads of a `Tick`. -/
structure PricedTick where
  datetime : Int
  lastPrice : F64
  volume : Int
  openInterest : Int
  deriving DecidableEq

structure TickAggregateBar where
  tradingDayStartNs : Int
  windowStartNs : Int
  effectiveBarEndNs : Int
  row : Kline

structure TickKlineAggregationUpdate where
  opened : Option Kline
  updated : Kline
  closed : Option Kline
  eventTimeNs : Int

structure TickKlineAggregator where
  symbol : String
  durationNs : Int
  session : KlineSessionTemplate
  current : Option TickAggregateBar
  tradingDayStartNs : Option Int
  previousCumulativeVolume : Int
  previousTickOpenInterest : Option Int

namespace TickKlineAggregator

def new (symbol : String) (durationNs : Int) (session : KlineSessionTemplate) :
    Except DataError TickKlineAggregator :=
  if (OrderLifecycle.trim symbol.toList).isEmpty then
    .error (.validation "tick kline symbol must not be empty")
  else if durationNs ≤ 0 ∨ nanosPerMinute ≤ durationNs then
    .error (.validation "tick kline duration must satisfy 0 < duration < 60 seconds")
  else .ok ⟨symbol, durationNs, session, none, none, 0, none⟩

variable (aggregator : TickKlineAggregator)

def barBounds (timestampNs : Int) (position : KlineSessionPosition) :
    Except DataError (Int × Int) := do
  let windowOffsetNs ← checkedOr (timestampNs - position.windowStartNs)
    "tick predates its session window"
  let bucketOffsetNs ← checkedOr (windowOffsetNs / aggregator.durationNs * aggregator.durationNs)
    "tick kline bucket offset overflow"
  let barStartNs ← checkedOr (position.windowStartNs + bucketOffsetNs)
    "tick kline bar timestamp overflow"
  let nominalEndNs ← checkedOr (barStartNs + aggregator.durationNs) "tick kline bar end overflow"
  return (barStartNs, min nominalEndNs position.windowEndNs)

def volumeDelta (volume : Int) : Int :=
  if aggregator.previousCumulativeVolume ≤ volume then
    I64.saturated (volume - aggregator.previousCumulativeVolume)
  else max volume 0

def newTickBar (barStartNs : Int) (tick : PricedTick) (openOi : Int) : Kline :=
  ⟨barStartNs, barStartNs, tick.lastPrice, tick.lastPrice, tick.lastPrice, tick.lastPrice, 0,
    openOi, tick.openInterest, none⟩

def newCarryBar (barStartNs : Int) (preceding : Kline) : Kline :=
  ⟨barStartNs, barStartNs, preceding.close, preceding.close, preceding.close, preceding.close, 0,
    preceding.closeOi, preceding.closeOi, none⟩

def applyTick (row : Kline) (tick : PricedTick) (volumeDelta : Int) : Kline :=
  { row with
    high := row.high.max tick.lastPrice
    low := row.low.min tick.lastPrice
    close := tick.lastPrice
    volume := I64.saturated (row.volume + volumeDelta)
    closeOi := tick.openInterest }

/-- The end of `update`: the tick goes into a bar, which is now the current one. -/
def applyToBar (bar : TickAggregateBar) (tick : PricedTick) (opened closed : Option Kline) :
    TickKlineAggregator × TickKlineAggregationUpdate :=
  let row := applyTick bar.row tick (aggregator.volumeDelta tick.volume)
  ({ aggregator with
      current := some { bar with row := row }
      previousCumulativeVolume := tick.volume },
    ⟨opened, row, closed, tick.datetime⟩)

/-- `update` for a tick that has a place in a session. -/
def updateLocated (aggregator : TickKlineAggregator) (tick : PricedTick)
    (position : KlineSessionPosition) (openingOpenInterest : Int) :
    TickKlineAggregator × Except DataError TickKlineAggregationUpdate :=
  let newDay := aggregator.tradingDayStartNs ≠ some position.tradingDayStartNs
  let closed := if newDay then aggregator.current.map TickAggregateBar.row else none
  let aggregator :=
    if newDay then
      { aggregator with current := none, tradingDayStartNs := some position.tradingDayStartNs }
    else aggregator
  match aggregator.barBounds tick.datetime position with
  | .error error => (aggregator, .error error)
  | .ok (barStartNs, effectiveBarEndNs) =>
    let bar (row : Kline) : TickAggregateBar :=
      ⟨position.tradingDayStartNs, position.windowStartNs, effectiveBarEndNs, row⟩
    let answer (result : TickKlineAggregator × TickKlineAggregationUpdate) :=
      (result.1, Except.ok (ε := DataError) result.2)
    match aggregator.current with
    | none =>
      let row := newTickBar barStartNs tick openingOpenInterest
      answer (aggregator.applyToBar (bar row) tick (some row) closed)
    | some preceding =>
      let continuesSession := preceding.tradingDayStartNs = position.tradingDayStartNs ∧
        preceding.windowStartNs = position.windowStartNs
      if ¬continuesSession then
        let row := newTickBar barStartNs tick openingOpenInterest
        answer (aggregator.applyToBar (bar row) tick (some row)
          (closed.or (some preceding.row)))
      else if preceding.row.datetime = barStartNs then
        answer (aggregator.applyToBar preceding tick none closed)
      else if tick.datetime = barStartNs then
        -- a tick on the boundary still trades in the bar that ends there
        let closing := applyTick preceding.row tick (aggregator.volumeDelta tick.volume)
        let row := newTickBar barStartNs tick tick.openInterest
        answer ({ aggregator with
            previousCumulativeVolume := tick.volume
            current := some (bar row) }, ⟨some row, row, some closing, tick.datetime⟩)
      else
        let row := newCarryBar barStartNs preceding.row
        answer (aggregator.applyToBar (bar row) tick (some row)
          (closed.or (some preceding.row)))

def update (tick : PricedTick) :
    TickKlineAggregator × Except DataError (Option TickKlineAggregationUpdate) :=
  if tick.datetime < 0 ∨ tick.lastPrice.isFinite = false then (aggregator, .ok none)
  else
    let openingOpenInterest := aggregator.previousTickOpenInterest.getD tick.openInterest
    let aggregator := { aggregator with previousTickOpenInterest := some tick.openInterest }
    match aggregator.session.locate tick.datetime with
    | .error error => (aggregator, .error error)
    | .ok none => (aggregator, .ok none)
    | .ok (some position) =>
      let (aggregator, result) := aggregator.updateLocated tick position openingOpenInterest
      (aggregator, some <$> result)

def finishClosedThrough (sourceEndNs : Int) : TickKlineAggregator × Option Kline :=
  match aggregator.current with
  | some bar =>
    if bar.effectiveBarEndNs ≤ sourceEndNs then
      ({ aggregator with current := none }, some bar.row)
    else (aggregator, none)
  | none => (aggregator, none)

end TickKlineAggregator

/-! ## The grid -/

/-- The last point at or before a timestamp on the grid of its window. -/
def gridStart (durationNs : Int) (position : KlineSessionPosition) (timestampNs : Int) : Int :=
  position.windowStartNs +
    (timestampNs - position.windowStartNs) / durationNs * durationNs

section Grid

variable {session : KlineSessionTemplate} {durationNs timestampNs preNs : Int}
  {position pre : KlineSessionPosition}

theorem gridStart_le (position : KlineSessionPosition) (timestampNs : Int)
    (pos : 0 < durationNs) : gridStart durationNs position timestampNs ≤ timestampNs := by
  have lt := Int.ediv_mul_le (timestampNs - position.windowStartNs) pos.ne'
  unfold gridStart
  omega

theorem lt_gridStart_add (position : KlineSessionPosition) (timestampNs : Int)
    (pos : 0 < durationNs) :
    timestampNs < gridStart durationNs position timestampNs + durationNs := by
  have ovr := Int.lt_ediv_add_one_mul_self (timestampNs - position.windowStartNs) pos
  rw [Int.add_mul, Int.one_mul] at ovr
  unfold gridStart
  omega

theorem windowStart_le_gridStart (pos : 0 < durationNs)
    (mem : position.windowStartNs ≤ timestampNs) :
    position.windowStartNs ≤ gridStart durationNs position timestampNs := by
  have nn := Int.mul_nonneg (Int.ediv_nonneg (Int.sub_nonneg_of_le mem) pos.le) pos.le
  unfold gridStart
  omega

section

variable (pos : 0 < durationNs) (isEarlier : session.locate preNs = .ok (some pre))
  (loc : session.locate timestampNs = .ok (some position))

include pos isEarlier loc

theorem gridStart_ordered (ord : preNs ≤ timestampNs) :
    gridStart durationNs pre preNs ≤ gridStart durationNs position timestampNs := by
  rcases session.locate_ordered isEarlier loc ord with rfl | before
  · have buckets := Int.mul_le_mul_of_nonneg_right
      (Int.ediv_le_ediv pos (Int.sub_le_sub_right ord pre.windowStartNs)) pos.le
    unfold gridStart
    omega
  · have mem := session.locate_inside isEarlier
    have lt := gridStart_le pre preNs pos
    have ovr := windowStart_le_gridStart pos (session.locate_inside loc).2.1
    omega

theorem gridStart_lt
    (ended : min (gridStart durationNs pre preNs + durationNs) pre.windowEndNs ≤ timestampNs)
    (ord : preNs ≤ timestampNs) :
    gridStart durationNs pre preNs < gridStart durationNs position timestampNs := by
  have lt := gridStart_le pre preNs pos
  have earlierInside := session.locate_inside isEarlier
  have mem := session.locate_inside loc
  rcases session.locate_ordered isEarlier loc ord with rfl | before
  · have next := lt_gridStart_add pre timestampNs pos
    have lower := gridStart_ordered pos isEarlier loc ord
    rcases lt_or_eq_of_le lower with lower | same
    · exact lower
    · omega
  · have ovr := windowStart_le_gridStart pos mem.2.1
    omega

end

/-- The bounds of a bar of a located tick are in range: a trading day ends more than a minute
before the last `i64`. -/
theorem TickKlineAggregator.barBounds_eq {aggregator : TickKlineAggregator}
    (pos : 0 < aggregator.durationNs) (few : aggregator.durationNs < nanosPerMinute)
    (loc : session.locate timestampNs = .ok (some position)) :
    aggregator.barBounds timestampNs position =
      .ok (gridStart aggregator.durationNs position timestampNs,
        min (gridStart aggregator.durationNs position timestampNs + aggregator.durationNs)
          position.windowEndNs) := by
  obtain ⟨dayStart, dayEnd⟩ := session.locate_inRange loc
  obtain ⟨afterDay, mem, beforeEnd, withinDay⟩ := session.locate_inside loc
  have lt := gridStart_le position timestampNs pos
  have ovr := windowStart_le_gridStart pos mem
  have isGrid : gridStart aggregator.durationNs position timestampNs = position.windowStartNs +
    (timestampNs - position.windowStartNs) / aggregator.durationNs * aggregator.durationNs := rfl
  have room : cycleStart timestampNs + nanosPerDay ≤ I64.maximum - nanosPerMinute := by
    unfold I64.InRange I64.minimum I64.maximum at dayEnd
    unfold cycleStart cstSessionAnchorUtcNs nanosPerHour nanosPerDay nanosPerMinute
      nanosPerSecond at *
    unfold I64.maximum
    omega
  have inR : ∀ val : Int, 0 ≤ val ∧ val ≤ nanosPerDay ∨
      cycleStart timestampNs ≤ val ∧ val ≤ I64.maximum → I64.InRange val := by
    unfold I64.InRange at dayStart ⊢
    unfold nanosPerDay nanosPerSecond I64.minimum I64.maximum at *
    omega
  have checks : ∀ (val : Int) (msg : String), I64.InRange val →
      checkedOr val msg = .ok val := by
    intro val msg fits
    unfold checkedOr
    rw [I64.checked_eq_some.mpr ⟨fits, rfl⟩]
  unfold barBounds
  rw [checks _ _ (inR _ (.inl (by omega))), Result.ok_bind,
    checks _ _ (inR _ (.inl (by omega))), Result.ok_bind, ← isGrid,
    checks _ _ (inR _ (.inr (by omega))), Result.ok_bind,
    checks _ _ (inR _ (.inr (by omega))), Result.ok_bind]
  rfl

end Grid

/-! ## One tick -/

/-- What an accepted tick does: it joins the current bar, or it trades on the boundary of the
current bar and the next one, or a bar starts with it. -/
inductive TickKlineAggregator.Placed (current : Option TickAggregateBar) (increment : Int)
    (tick : PricedTick) (position : KlineSessionPosition) (barStartNs effectiveBarEndNs : Int) :
    Option TickAggregateBar → Option Kline → Option Kline → Prop
  | joins (bar : TickAggregateBar) (isCurrent : current = some bar)
      (day : bar.tradingDayStartNs = position.tradingDayStartNs)
      (window : bar.windowStartNs = position.windowStartNs)
      (same : bar.row.datetime = barStartNs) :
      Placed current increment tick position barStartNs effectiveBarEndNs
        (some { bar with row := applyTick bar.row tick increment }) none none
  | boundary (bar : TickAggregateBar) (isCurrent : current = some bar)
      (window : bar.windowStartNs = position.windowStartNs)
      (next : bar.row.datetime ≠ barStartNs) :
      Placed current increment tick position barStartNs effectiveBarEndNs
        (some ⟨position.tradingDayStartNs, position.windowStartNs, effectiveBarEndNs,
          newTickBar barStartNs tick tick.openInterest⟩)
        (some (newTickBar barStartNs tick tick.openInterest))
        (some (applyTick bar.row tick increment))
  | starts (row : Kline)
      (fresh : (∃ openOi, row = newTickBar barStartNs tick openOi) ∨
        ∃ preceding, current = some preceding ∧ row = newCarryBar barStartNs preceding.row)
      (other : ∀ bar, current = some bar →
        bar.tradingDayStartNs = position.tradingDayStartNs →
          bar.windowStartNs = position.windowStartNs → bar.row.datetime ≠ barStartNs) :
      Placed current increment tick position barStartNs effectiveBarEndNs
        (some ⟨position.tradingDayStartNs, position.windowStartNs, effectiveBarEndNs,
          applyTick row tick increment⟩)
        (some row) (current.map TickAggregateBar.row)

/-- The day of the current bar is the day that the aggregator is in. -/
def TickKlineAggregator.Entered (aggregator : TickKlineAggregator) : Prop :=
  ∀ bar, aggregator.current = some bar →
    aggregator.tradingDayStartNs = some bar.tradingDayStartNs

/-- An aggregator after an accepted tick. -/
structure TickKlineAggregator.Took (aggregator after : TickKlineAggregator) (tick : PricedTick)
    (position : KlineSessionPosition) (update : TickKlineAggregationUpdate) : Prop where
  session : after.session = aggregator.session
  durationNs : after.durationNs = aggregator.durationNs
  day : after.tradingDayStartNs = some position.tradingDayStartNs
  volume : after.previousCumulativeVolume = tick.volume
  placed : Placed aggregator.current (aggregator.volumeDelta tick.volume) tick position
    (gridStart aggregator.durationNs position tick.datetime)
    (min (gridStart aggregator.durationNs position tick.datetime + aggregator.durationNs)
      position.windowEndNs) after.current update.opened update.closed

theorem TickKlineAggregator.updateLocated_took {aggregator : TickKlineAggregator}
    {tick : PricedTick} {position : KlineSessionPosition} {openingOpenInterest : Int}
    (pos : 0 < aggregator.durationNs) (few : aggregator.durationNs < nanosPerMinute)
    (entered : aggregator.Entered)
    (loc : aggregator.session.locate tick.datetime = .ok (some position)) :
    ∃ post upd,
      aggregator.updateLocated tick position openingOpenInterest = (post, .ok upd) ∧
        aggregator.Took post tick position upd := by
  have bnds : ∀ entering : TickKlineAggregator,
      entering.durationNs = aggregator.durationNs →
        entering.barBounds tick.datetime position = .ok
          (gridStart aggregator.durationNs position tick.datetime,
            min (gridStart aggregator.durationNs position tick.datetime + aggregator.durationNs)
              position.windowEndNs) := by
    intro entering same
    rw [← same]
    exact barBounds_eq (same ▸ pos) (same ▸ few) loc
  by_cases newDay : aggregator.tradingDayStartNs ≠ some position.tradingDayStartNs
  · -- the bar of the day before is closed by the new day
    have alt : ∀ bar, aggregator.current = some bar →
        bar.tradingDayStartNs ≠ position.tradingDayStartNs := by
      intro bar cur same
      exact newDay (same ▸ entered bar cur)
    unfold updateLocated
    simp only [if_pos newDay]
    rw [bnds { aggregator with
      current := none, tradingDayStartNs := some position.tradingDayStartNs } rfl]
    refine ⟨_, _, rfl, rfl, rfl, rfl, rfl, ?_⟩
    exact .starts _ (.inl ⟨_, rfl⟩) fun bar cur day => absurd day (alt bar cur)
  · unfold updateLocated
    simp only [if_neg newDay]
    rw [bnds aggregator rfl]
    dsimp only
    cases cur : aggregator.current with
    | none =>
      refine ⟨_, _, rfl, rfl, rfl, not_not.mp newDay, rfl, ?_⟩
      rw [← map_none (f := TickAggregateBar.row), ← cur]
      exact .starts _ (.inl ⟨_, rfl⟩) fun bar isBar =>
        absurd (cur.symm.trans isBar) (some_ne_none bar).symm
    | some preceding =>
      have only : ∀ bar, aggregator.current = some bar → preceding = bar := by
        intro bar isBar
        exact some.inj (cur.symm.trans isBar)
      have shuts : some preceding.row = aggregator.current.map TickAggregateBar.row := by
        rw [cur]
        rfl
      dsimp only
      split_ifs with alt same next
      · exact ⟨_, _, rfl, rfl, rfl, not_not.mp newDay, rfl, .joins preceding cur alt.1 alt.2 same⟩
      · exact ⟨_, _, rfl, rfl, rfl, not_not.mp newDay, rfl, .boundary preceding cur alt.2 same⟩
      · refine ⟨_, _, rfl, rfl, rfl, not_not.mp newDay, rfl, ?_⟩
        rw [none_or, shuts]
        refine .starts _ (.inr ⟨preceding, cur, rfl⟩) fun bar isBar _ _ => ?_
        rw [← only bar isBar]
        exact same
      · refine ⟨_, _, rfl, rfl, rfl, not_not.mp newDay, rfl, ?_⟩
        rw [none_or, shuts]
        refine .starts _ (.inl ⟨_, rfl⟩) fun bar isBar day wnd => ?_
        rw [← only bar isBar] at day wnd
        exact absurd ⟨day, wnd⟩ alt

/-- A tick is accepted with a place in a session, or it leaves the bars as they are. -/
theorem TickKlineAggregator.update_cases (aggregator : TickKlineAggregator) (tick : PricedTick)
    (pos : 0 < aggregator.durationNs) (short : aggregator.durationNs < nanosPerMinute)
    (entered : aggregator.Entered) :
    (∃ openInterest res,
      aggregator.update tick =
          ({ aggregator with previousTickOpenInterest := openInterest }, res) ∧
        ∀ update, res ≠ .ok (some update)) ∨
    (tick.lastPrice.isFinite = true ∧ ∃ position after update,
      aggregator.session.locate tick.datetime = .ok (some position) ∧
        aggregator.update tick = (after, .ok (some update)) ∧
        aggregator.Took after tick position update) := by
  unfold update
  split_ifs with ignored
  · exact .inl ⟨aggregator.previousTickOpenInterest, _, rfl,
      fun update acc => some_ne_none _ (Except.ok.inj acc).symm⟩
  · have finite : tick.lastPrice.isFinite = true := by
      cases finite : tick.lastPrice.isFinite with
      | true => rfl
      | false => exact absurd (.inr finite) ignored
    dsimp only
    split
    · exact .inl ⟨_, _, rfl, fun update acc => by cases acc⟩
    · exact .inl ⟨_, _, rfl, fun update acc => some_ne_none _ (Except.ok.inj acc).symm⟩
    · rename_i position located
      obtain ⟨after, update, eq, took⟩ := @updateLocated_took
        { aggregator with previousTickOpenInterest := some tick.openInterest } tick position
        (aggregator.previousTickOpenInterest.getD tick.openInterest) pos short entered located
      rw [eq]
      exact .inr ⟨finite, position, after, update, located, rfl,
        took.session, took.durationNs, took.day, took.volume, took.placed⟩

end Tqsdk
