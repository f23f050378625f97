import Mathlib
import Tqsdk.Data.TickKlineAggregator

/-!
# What the bars of a run of ticks account for

Every accepted tick is counted in one bar.  `Accounts` is what a run keeps: the bars so far, in
order, against the increments of the accepted ticks.
-/

namespace Tqsdk

open List Option

/-! ## Runs -/

inductive AggregatorInput
  | update (tick : PricedTick)
  | finish (sourceEndNs : Int)

def AggregatorInput.timeNs : AggregatorInput → Int
  | .update tick => tick.datetime
  | .finish sourceEndNs => sourceEndNs

/-- The counter of a tick, as an `i64` that is not negative. -/
def PricedTick.CountsVolume (tick : PricedTick) : Prop :=
  0 ≤ tick.volume ∧ tick.volume ≤ I64.maximum

def AggregatorInput.CountsVolume : AggregatorInput → Prop
  | .update tick => tick.CountsVolume
  | .finish _ => True

/-- A tick does not come before an earlier tick, nor before a source end that was finished. -/
def AggregatorInput.Precedes (earlier : AggregatorInput) : AggregatorInput → Prop
  | .update tick => earlier.timeNs ≤ tick.datetime
  | .finish _ => True

instance (input : AggregatorInput) : Decidable input.CountsVolume :=
  match input with
  | .update tick => inferInstanceAs (Decidable (0 ≤ tick.volume ∧ tick.volume ≤ I64.maximum))
  | .finish _ => inferInstanceAs (Decidable True)

instance (earlier later : AggregatorInput) : Decidable (earlier.Precedes later) :=
  match later with
  | .update tick => inferInstanceAs (Decidable (earlier.timeNs ≤ tick.datetime))
  | .finish _ => inferInstanceAs (Decidable True)

/-- An aggregator with everything it reported, and the ticks it accepted. -/
structure TickKlineRun where
  aggregator : TickKlineAggregator
  opened : List Kline
  closed : List Kline
  accepted : List PricedTick

namespace TickKlineRun

def start (aggregator : TickKlineAggregator) : TickKlineRun := ⟨aggregator, [], [], []⟩

variable (state : TickKlineRun)

def step : AggregatorInput → TickKlineRun
  | .update tick =>
    match state.aggregator.update tick with
    | (aggregator, .ok (some update)) =>
      ⟨aggregator, state.opened ++ update.opened.toList, state.closed ++ update.closed.toList,
        state.accepted ++ [tick]⟩
    | (aggregator, _) => { state with aggregator }
  | .finish sourceEndNs =>
    let (aggregator, closed) := state.aggregator.finishClosedThrough sourceEndNs
    { state with aggregator, closed := state.closed ++ closed.toList }

def run (inputs : List AggregatorInput) : TickKlineRun :=
  inputs.foldl step state

/-- The closed bars and the current one. -/
def bars : List Kline :=
  state.closed ++ (state.aggregator.current.map TickAggregateBar.row).toList

end TickKlineRun

/-! ## Increments -/

/-- By how much a tick raises the volume counter.  A lower counter was reset. -/
def volumeIncrement (previous volume : Int) : Int :=
  if previous ≤ volume then volume - previous else volume

/-- The increments of a list of ticks, from a counter that stands at `previous`. -/
def volumeIncrements (previous : Int) : List PricedTick → List Int
  | [] => []
  | tick :: rest => volumeIncrement previous tick.volume :: volumeIncrements tick.volume rest

/-- The counter after a list of ticks. -/
def lastVolume (previous : Int) (ticks : List PricedTick) : Int :=
  ticks.foldl (fun _ tick => tick.volume) previous

theorem volumeIncrements_snoc (prev : Int) (tks : List PricedTick) (tick : PricedTick) :
    volumeIncrements prev (tks ++ [tick]) =
      volumeIncrements prev tks ++
        [volumeIncrement (lastVolume prev tks) tick.volume] := by
  induction tks generalizing prev with
  | nil => rfl
  | cons hd rest ih => exact congrArg _ (ih hd.volume)

theorem lastVolume_snoc (prev : Int) (tks : List PricedTick) (tick : PricedTick) :
    lastVolume prev (tks ++ [tick]) = tick.volume :=
  foldl_append ..

theorem volumeIncrement_inside {prev vol : Int} (nn : 0 ≤ prev)
    (inn : 0 ≤ vol ∧ vol ≤ I64.maximum) :
    0 ≤ volumeIncrement prev vol ∧ volumeIncrement prev vol ≤ I64.maximum := by
  unfold volumeIncrement
  split <;> omega

/-! ## Rows -/

/-- The opening and the closing price of a bar are between its lowest and its highest. -/
structure Kline.Shaped (row : Kline) : Prop where
  low_le_open : row.low ≤ row.open_
  open_le_high : row.open_ ≤ row.high
  low_le_close : row.low ≤ row.close
  close_le_high : row.close ≤ row.high

/-- The volume of a bar is the sum of some increments, up to the greatest `i64`. -/
structure Kline.Counts (row : Kline) (increments : List Int) : Prop where
  nonneg : 0 ≤ increments.sum
  volume : row.volume = min I64.maximum increments.sum

namespace TickKlineAggregator

variable {barLo openOi inc : Int} {tick : PricedTick} {row preceding : Kline}
  {increments : List Int}

theorem ne_nan_of_isFinite {px : F64} (fin : px.isFinite = true) : px ≠ .nan := by
  rintro rfl
  cases fin

theorem shaped_newTickBar (fin : tick.lastPrice.isFinite = true) :
    (newTickBar barLo tick openOi).Shaped :=
  have self := F64.le_self (ne_nan_of_isFinite fin)
  ⟨self, self, self, self⟩

theorem shaped_newCarryBar (form : preceding.Shaped) : (newCarryBar barLo preceding).Shaped :=
  have self := F64.le_self (F64.ne_nan_of_le form.low_le_close).2
  ⟨self, self, self, self⟩

theorem shaped_applyTick (form : row.Shaped) (fin : tick.lastPrice.isFinite = true) :
    (applyTick row tick inc).Shaped where
  low_le_open := F64.le_trans (F64.min_le_left (F64.ne_nan_of_le form.low_le_open).1)
    form.low_le_open
  open_le_high := F64.le_trans form.open_le_high
    (F64.le_max_left (F64.ne_nan_of_le form.open_le_high).2)
  low_le_close := F64.min_le_right (ne_nan_of_isFinite fin)
  close_le_high := F64.le_max_right (ne_nan_of_isFinite fin)

theorem counts_nil (empty : row.volume = 0) : row.Counts [] where
  nonneg := le_refl 0
  volume := empty

theorem counts_applyTick (cts : row.Counts increments) (inn : 0 ≤ inc ∧ inc ≤ I64.maximum) :
    (applyTick row tick inc).Counts (increments ++ [inc]) := by
  obtain ⟨nn, vol⟩ := cts
  have total : (increments ++ [inc]).sum = increments.sum + inc := by rw [sum_append, sum_singleton]
  have app : (applyTick row tick inc).volume = I64.saturated (row.volume + inc) := rfl
  constructor
  · omega
  · rw [app, vol, total]
    unfold I64.saturated I64.minimum I64.maximum
    omega

theorem volumeDelta_eq {aggregator : TickKlineAggregator}
    (nn : 0 ≤ aggregator.previousCumulativeVolume) (cts : tick.CountsVolume) :
    aggregator.volumeDelta tick.volume =
      volumeIncrement aggregator.previousCumulativeVolume tick.volume := by
  obtain ⟨pos, inn⟩ := cts
  unfold volumeDelta volumeIncrement
  split
  · refine I64.saturated_eq ?_
    unfold I64.InRange I64.minimum
    omega
  · omega

end TickKlineAggregator

/-! ## The books of a run -/

/-- Every one of the inputs is at or before a timestamp. -/
def Passed (inputs : List AggregatorInput) (timestampNs : Int) : Prop :=
  ∀ input ∈ inputs, input.timeNs ≤ timestampNs

/-- The current bar is the one on the grid at a tick that was accepted. -/
structure TickAggregateBar.Covers (bar : TickAggregateBar) (session : KlineSessionTemplate)
    (durationNs : Int) (inputs : List AggregatorInput) (timestampNs : Int)
    (position : KlineSessionPosition) : Prop where
  located : session.locate timestampNs = .ok (some position)
  seen : ∀ laterNs, Passed inputs laterNs → timestampNs ≤ laterNs
  window : bar.windowStartNs = position.windowStartNs
  day : bar.tradingDayStartNs = position.tradingDayStartNs
  start : bar.row.datetime = gridStart durationNs position timestampNs
  stop : bar.effectiveBarEndNs =
    min (gridStart durationNs position timestampNs + durationNs) position.windowEndNs

/-- The increments of the accepted ticks, cut into one part for each bar. -/
structure TickKlineRun.Partitions (state : TickKlineRun) (parts : List (List Int))
    (last : List Int) : Prop where
  closed : List.Forall₂ Kline.Counts state.closed parts
  current : ∀ bar, state.aggregator.current = some bar → bar.row.Counts last
  idle : state.aggregator.current = none → last = []
  increments : parts.flatten ++ last = volumeIncrements 0 state.accepted

structure TickKlineRun.Accounts (state : TickKlineRun) (session : KlineSessionTemplate)
    (durationNs : Int) (inputs : List AggregatorInput) : Prop where
  ofSession : state.aggregator.session = session
  ofDuration : state.aggregator.durationNs = durationNs
  entered : state.aggregator.Entered
  previous : state.aggregator.previousCumulativeVolume = lastVolume 0 state.accepted
  nonneg : 0 ≤ state.aggregator.previousCumulativeVolume
  opened : state.opened.map Kline.datetime = state.bars.map Kline.datetime
  ascending : (state.bars.map Kline.datetime).Pairwise (· < ·)
  shaped : ∀ row ∈ state.opened ++ state.bars, row.Shaped
  grid : ∀ row ∈ state.bars, ∃ timestampNs position,
    session.locate timestampNs = .ok (some position) ∧
      row.datetime = gridStart durationNs position timestampNs
  current : ∀ bar, state.aggregator.current = some bar →
    ∃ timestampNs position, bar.Covers session durationNs inputs timestampNs position
  passed : ∀ row ∈ state.closed, ∀ timestampNs position, Passed inputs timestampNs →
    session.locate timestampNs = .ok (some position) →
      row.datetime < gridStart durationNs position timestampNs
  partitions : ∃ parts last, state.Partitions parts last

namespace TickKlineRun

variable {session : KlineSessionTemplate} {durationNs : Int} {inputs : List AggregatorInput}
  {state : TickKlineRun}

theorem passed_of_snoc {inp : AggregatorInput} {ts : Int} (past : Passed (inputs ++ [inp]) ts) :
    Passed inputs ts ∧ inp.timeNs ≤ ts :=
  ⟨fun pre mem => past pre (mem_append_left _ mem), past inp (mem_append_right _ mem_cons_self)⟩

theorem bars_of_current {bar : TickAggregateBar} (isCur : state.aggregator.current = some bar) :
    state.bars = state.closed ++ [bar.row] := by
  unfold bars
  rw [isCur]
  rfl

theorem bars_of_idle (idle : state.aggregator.current = none) : state.bars = state.closed := by
  unfold bars
  rw [idle]
  exact append_nil _

namespace Partitions

variable {parts : List (List Int)} {last : List Int} {tick : PricedTick} {inc : Int}
  {aggregator : TickKlineAggregator} {live closed : List Kline} {bar post : TickAggregateBar}
  {row : Kline}

theorem increments_snoc (partitions : state.Partitions parts last)
    (isIncrement : inc = volumeIncrement (lastVolume 0 state.accepted) tick.volume) :
    parts.flatten ++ (last ++ [inc]) = volumeIncrements 0 (state.accepted ++ [tick]) := by
  rw [volumeIncrements_snoc, ← partitions.increments, isIncrement, append_assoc]

section

variable (partitions : state.Partitions parts last)
  (inn : 0 ≤ inc ∧ inc ≤ I64.maximum)
  (isIncrement : inc = volumeIncrement (lastVolume 0 state.accepted) tick.volume)

include partitions inn isIncrement

/-- The increment goes into the current bar. -/
theorem joins (wasCur : state.aggregator.current = some bar)
    (isCur : aggregator.current = some post)
    (app : post.row = TickKlineAggregator.applyTick bar.row tick inc) :
    (⟨aggregator, live, state.closed, state.accepted ++ [tick]⟩ : TickKlineRun).Partitions parts
      (last ++ [inc]) where
  closed := partitions.closed
  current other isOther := by
    rw [some.inj (isOther.symm.trans isCur), app]
    exact TickKlineAggregator.counts_applyTick (partitions.current bar wasCur) inn
  idle none := absurd (isCur.symm.trans none) (some_ne_none post)
  increments := partitions.increments_snoc isIncrement

/-- The increment goes into the current bar, which is closed. -/
theorem boundary (wasCur : state.aggregator.current = some bar)
    (isCur : aggregator.current = some post) (empty : post.row.volume = 0) :
    (⟨aggregator, live,
      state.closed ++ [TickKlineAggregator.applyTick bar.row tick inc],
      state.accepted ++ [tick]⟩ : TickKlineRun).Partitions (parts ++ [last ++ [inc]]) [] where
  closed := rel_append partitions.closed (.cons
    (TickKlineAggregator.counts_applyTick (partitions.current bar wasCur) inn) .nil)
  current other isOther := by
    rw [some.inj (isOther.symm.trans isCur)]
    exact TickKlineAggregator.counts_nil empty
  idle _ := rfl
  increments := by
    rw [append_nil, flatten_append, flatten_singleton]
    exact partitions.increments_snoc isIncrement

/-- The increment goes into a new bar. -/
theorem starts (isCur : aggregator.current = some post) (empty : row.volume = 0)
    (app : post.row = TickKlineAggregator.applyTick row tick inc) :
    ∃ parts last, (⟨aggregator, live, state.bars, state.accepted ++ [tick]⟩ :
      TickKlineRun).Partitions parts last := by
  have cts : ∀ other, aggregator.current = some other → other.row.Counts [inc] := by
    intro other alt
    rw [some.inj (alt.symm.trans isCur), app]
    exact TickKlineAggregator.counts_applyTick (TickKlineAggregator.counts_nil empty) inn
  have busy : aggregator.current = none → [inc] = [] := fun none =>
    absurd (isCur.symm.trans none) (some_ne_none post)
  have increments := partitions.increments_snoc isIncrement
  cases wasCur : state.aggregator.current with
  | none =>
    rw [bars_of_idle wasCur]
    rw [partitions.idle wasCur] at increments
    exact ⟨parts, [inc], partitions.closed, cts, busy, increments⟩
  | some bar =>
    rw [bars_of_current wasCur]
    refine ⟨parts ++ [last], [inc], rel_append partitions.closed (.cons (partitions.current bar
      wasCur) .nil), cts, busy, ?_⟩
    rw [flatten_append, flatten_singleton, append_assoc]
    exact increments

end

end Partitions

namespace Accounts

section

variable (accounts : state.Accounts session durationNs inputs)

include accounts

/-- A bar that a tick does not join lies before the bar of the tick. -/
theorem before (pos : 0 < durationNs) {ts : Int} {at_ : KlineSessionPosition}
    (loc : session.locate ts = .ok (some at_)) (passed : Passed inputs ts)
    (alt : ∀ bar, state.aggregator.current = some bar →
      bar.tradingDayStartNs = at_.tradingDayStartNs →
        bar.windowStartNs = at_.windowStartNs → bar.row.datetime ≠ gridStart durationNs at_ ts) :
    ∀ row ∈ state.bars, row.datetime < gridStart durationNs at_ ts := by
  intro row mem
  rcases mem_append.mp mem with closed | current
  · exact accounts.passed row closed ts at_ passed loc
  · obtain ⟨bar, cur, rfl⟩ := map_eq_some_iff.mp (mem_toList.mp current)
    obtain ⟨seenNs, seenAt, cov⟩ := accounts.current bar cur
    have ord := cov.seen ts passed
    rw [cov.start]
    rcases session.locate_ordered cov.located loc ord with rfl | apart
    · refine lt_of_le_of_ne (gridStart_ordered pos cov.located loc ord) ?_
      rw [← cov.start]
      exact alt bar cur cov.day cov.window
    · have lt := gridStart_le seenAt seenNs pos
      have win := session.locate_inside cov.located
      have above := windowStart_le_gridStart pos (session.locate_inside loc).2.1
      omega

/-- The run after a tick that starts a bar: the bars before it are closed. -/
theorem opens (pos : 0 < durationNs) {tick : PricedTick} {at_ : KlineSessionPosition}
    {aggregator : TickKlineAggregator} {bar : TickAggregateBar} {row : Kline} {closed : List Kline}
    (cts : tick.CountsVolume) (loc : session.locate tick.datetime = .ok (some at_))
    (ofSession : aggregator.session = session) (ofDur : aggregator.durationNs = durationNs)
    (inDay : aggregator.tradingDayStartNs = some at_.tradingDayStartNs)
    (vol : aggregator.previousCumulativeVolume = tick.volume)
    (isCur : aggregator.current = some bar) (day : bar.tradingDayStartNs = at_.tradingDayStartNs)
    (wnd : bar.windowStartNs = at_.windowStartNs)
    (lo : bar.row.datetime = gridStart durationNs at_ tick.datetime) (stop : bar.effectiveBarEndNs =
      min (gridStart durationNs at_ tick.datetime + durationNs) at_.windowEndNs)
    (rowStart : row.datetime = gridStart durationNs at_ tick.datetime)
    (before : ∀ row ∈ state.bars, row.datetime < gridStart durationNs at_ tick.datetime)
    (dts : closed.map Kline.datetime = state.bars.map Kline.datetime)
    (closedShaped : ∀ row ∈ closed, row.Shaped) (rowShaped : row.Shaped)
    (barShaped : bar.row.Shaped) (partitions : ∃ parts last,
      (⟨aggregator, state.opened ++ [row], closed, state.accepted ++ [tick]⟩ :
        TickKlineRun).Partitions parts last) :
    (⟨aggregator, state.opened ++ [row], closed, state.accepted ++ [tick]⟩ :
      TickKlineRun).Accounts session durationNs (inputs ++ [.update tick]) := by
  have bars : (⟨aggregator, state.opened ++ [row], closed, state.accepted ++ [tick]⟩ :
      TickKlineRun).bars = closed ++ [bar.row] := bars_of_current isCur
  have pre : ∀ row ∈ closed, ∃ same ∈ state.bars, same.datetime = row.datetime := by
    intro row mem
    have hit := mem_map_of_mem (f := Kline.datetime) mem
    rw [dts] at hit
    exact mem_map.mp hit
  have only : ∀ other, aggregator.current = some other → other = bar := by
    intro other alt
    exact some.inj (alt.symm.trans isCur)
  constructor
  · exact ofSession
  · exact ofDur
  · intro other alt
    rw [only other alt, day]
    exact inDay
  · exact vol.trans (lastVolume_snoc 0 state.accepted tick).symm
  · exact vol ▸ cts.1
  · rw [bars, map_append, map_append, accounts.opened, dts, map_singleton,
      map_singleton, rowStart, lo]
  · rw [bars, map_append, dts, map_singleton]
    refine pairwise_append.mpr ⟨accounts.ascending, pairwise_singleton _ _, ?_⟩
    intro dt mem other alt
    obtain ⟨row, rowMember, rfl⟩ := mem_map.mp mem
    rw [mem_singleton.mp alt, lo]
    exact before row rowMember
  · intro other mem
    rw [bars] at mem
    rcases mem_append.mp mem with live | bar
    · rcases mem_append.mp live with live | new
      · exact accounts.shaped other (mem_append_left _ live)
      · exact mem_singleton.mp new ▸ rowShaped
    · rcases mem_append.mp bar with closed | new
      · exact closedShaped other closed
      · exact mem_singleton.mp new ▸ barShaped
  · intro other mem
    rw [bars] at mem
    rcases mem_append.mp mem with closed | new
    · obtain ⟨same, sameMember, eq⟩ := pre other closed
      rw [← eq]
      exact accounts.grid same sameMember
    · rw [mem_singleton.mp new]
      exact ⟨tick.datetime, at_, loc, lo⟩
  · intro other alt
    rw [only other alt]
    exact ⟨tick.datetime, at_, loc, fun _ past => (passed_of_snoc past).2, wnd, day, lo, stop⟩
  · intro other mem laterNs laterPosition past laterLocated
    obtain ⟨same, sameMember, eq⟩ := pre other mem
    rw [← eq]
    exact (before same sameMember).trans_le
      (gridStart_ordered pos loc laterLocated (passed_of_snoc past).2)
  · exact partitions

/-- The run after a tick that joins the current bar. -/
theorem joins {tick : PricedTick} {aggregator : TickKlineAggregator} {bar : TickAggregateBar}
    {inc : Int} (cts : tick.CountsVolume) (fin : tick.lastPrice.isFinite = true)
    (inn : 0 ≤ inc ∧ inc ≤ I64.maximum)
    (isIncrement : inc = volumeIncrement (lastVolume 0 state.accepted) tick.volume)
    (ofSession : aggregator.session = session) (ofDur : aggregator.durationNs = durationNs)
    (inDay : aggregator.tradingDayStartNs = some bar.tradingDayStartNs)
    (vol : aggregator.previousCumulativeVolume = tick.volume)
    (wasCur : state.aggregator.current = some bar) (isCur : aggregator.current =
      some { bar with row := TickKlineAggregator.applyTick bar.row tick inc }) :
    (⟨aggregator, state.opened, state.closed, state.accepted ++ [tick]⟩ : TickKlineRun).Accounts
      session durationNs (inputs ++ [.update tick]) := by
  have was : state.bars = state.closed ++ [bar.row] := bars_of_current wasCur
  have bars : (⟨aggregator, state.opened, state.closed, state.accepted ++ [tick]⟩ :
      TickKlineRun).bars = state.closed ++ [TickKlineAggregator.applyTick bar.row tick inc] := by
    unfold TickKlineRun.bars
    rw [isCur]
    rfl
  have dts : (⟨aggregator, state.opened, state.closed, state.accepted ++ [tick]⟩ :
      TickKlineRun).bars.map Kline.datetime = state.bars.map Kline.datetime := by
    rw [bars, was, map_append, map_append]
    rfl
  have only : ∀ other, aggregator.current = some other →
      other = { bar with row := TickKlineAggregator.applyTick bar.row tick inc } := by
    intro other alt
    exact some.inj (alt.symm.trans isCur)
  constructor
  · exact ofSession
  · exact ofDur
  · intro other alt
    rw [only other alt]
    exact inDay
  · exact vol.trans (lastVolume_snoc 0 state.accepted tick).symm
  · exact vol ▸ cts.1
  · rw [dts]
    exact accounts.opened
  · rw [dts]
    exact accounts.ascending
  · intro row mem
    rw [bars] at mem
    have kept := accounts.shaped
    rw [was] at kept
    rcases mem_append.mp mem with live | bars
    · exact kept row (mem_append_left _ live)
    · rcases mem_append.mp bars with closed | new
      · exact kept row (mem_append_right _ (mem_append_left _ closed))
      · rw [mem_singleton.mp new]
        exact TickKlineAggregator.shaped_applyTick (kept bar.row (mem_append_right _
          (mem_append_right _ mem_cons_self))) fin
  · intro row mem
    have hit := mem_map_of_mem (f := Kline.datetime) mem
    rw [dts] at hit
    obtain ⟨same, sameMember, eq⟩ := mem_map.mp hit
    rw [← eq]
    exact accounts.grid same sameMember
  · intro other alt
    obtain ⟨seenNs, seenAt, cov⟩ := accounts.current bar wasCur
    rw [only other alt]
    exact ⟨seenNs, seenAt, cov.located, fun laterNs past => cov.seen laterNs (passed_of_snoc
      past).1, cov.window, cov.day, cov.start, cov.stop⟩
  · intro row mem ts at_ past
    exact accounts.passed row mem ts at_ (passed_of_snoc past).1
  · obtain ⟨parts, last, partitions⟩ := accounts.partitions
    exact ⟨parts, _, partitions.joins inn isIncrement wasCur isCur rfl⟩

/-- What does not touch the bars of a run keeps its books. -/
theorem unchanged (inp : AggregatorInput) {aggregator : TickKlineAggregator}
    (ofSession : aggregator.session = session) (ofDur : aggregator.durationNs = durationNs)
    (day : aggregator.tradingDayStartNs = state.aggregator.tradingDayStartNs)
    (vol : aggregator.previousCumulativeVolume = state.aggregator.previousCumulativeVolume)
    (current : aggregator.current = state.aggregator.current) :
    ({ state with aggregator } : TickKlineRun).Accounts session durationNs (inputs ++ [inp]) := by
  have bars : ({ state with aggregator } : TickKlineRun).bars = state.bars := by
    unfold bars
    rw [current]
  constructor
  · exact ofSession
  · exact ofDur
  · intro bar cur
    exact day.trans (accounts.entered bar (current.symm.trans cur))
  · exact vol.trans accounts.previous
  · exact vol ▸ accounts.nonneg
  · rw [bars]
    exact accounts.opened
  · rw [bars]
    exact accounts.ascending
  · rw [bars]
    exact accounts.shaped
  · rw [bars]
    exact accounts.grid
  · intro bar cur
    obtain ⟨ts, at_, cov⟩ := accounts.current bar (current.symm.trans cur)
    exact ⟨ts, at_, { cov with
      seen := fun laterNs past => cov.seen laterNs (passed_of_snoc past).1 }⟩
  · intro row mem ts at_ past
    exact accounts.passed row mem ts at_ (passed_of_snoc past).1
  · obtain ⟨parts, last, partitions⟩ := accounts.partitions
    exact ⟨parts, last, partitions.closed, fun bar cur => partitions.current bar (current.symm.trans
      cur), fun idle => partitions.idle (current.symm.trans idle), partitions.increments⟩

/-- The books of a run after a tick. -/
theorem update (pos : 0 < durationNs) (few : durationNs < nanosPerMinute) {tick : PricedTick}
    (cts : tick.CountsVolume) (past : Passed inputs tick.datetime) :
    (state.step (.update tick)).Accounts session durationNs (inputs ++ [.update tick]) := by
  unfold step
  dsimp only
  rcases state.aggregator.update_cases tick (accounts.ofDuration ▸ pos)
    (accounts.ofDuration ▸ few) accounts.entered with
      ⟨openInterest, result, eq, refused⟩ | ⟨finite, at_, post, update, located, eq, took⟩
  · rw [eq]
    split
    · rename_i acc
      exact absurd (Prod.mk.inj acc).2 (refused _)
    · rename_i same
      rw [← (Prod.mk.inj same).1]
      exact accounts.unchanged _ accounts.ofSession accounts.ofDuration rfl rfl rfl
  · rw [eq]
    dsimp only
    rw [accounts.ofSession] at located
    obtain ⟨ofSession, ofDur, day, vol, put⟩ := took
    rw [accounts.ofSession] at ofSession
    rw [accounts.ofDuration] at ofDur put
    have isIncrement : state.aggregator.volumeDelta tick.volume =
        volumeIncrement (lastVolume 0 state.accepted) tick.volume := by
      rw [← accounts.previous]
      exact TickKlineAggregator.volumeDelta_eq accounts.nonneg cts
    have inn : 0 ≤ state.aggregator.volumeDelta tick.volume ∧
        state.aggregator.volumeDelta tick.volume ≤ I64.maximum := by
      rw [isIncrement, ← accounts.previous]
      exact volumeIncrement_inside accounts.nonneg cts
    obtain ⟨parts, last, partitions⟩ := accounts.partitions
    have barsShaped : ∀ row ∈ state.bars, row.Shaped := fun row mem =>
      accounts.shaped row (mem_append_right _ mem)
    generalize cur : post.current = current at put
    generalize isOpened : update.opened = live at put
    generalize isClosed : update.closed = closed at put
    cases put with
    | joins bar wasCur barDay wnd same =>
      rw [toList_none, append_nil, append_nil]
      exact accounts.joins cts finite inn isIncrement ofSession ofDur (barDay ▸ day) vol wasCur cur
    | boundary bar wasCur wnd next =>
      have bars := bars_of_current wasCur
      have barShaped := barsShaped bar.row (bars ▸ mem_append_right _ mem_cons_self)
      have newShaped : (TickKlineAggregator.newTickBar
          (gridStart durationNs at_ tick.datetime) tick tick.openInterest).Shaped :=
        TickKlineAggregator.shaped_newTickBar finite
      refine accounts.opens pos cts located ofSession ofDur day vol cur
        rfl rfl rfl rfl rfl (accounts.before pos located past ?_) ?_ ?_ newShaped newShaped
        ⟨_, _, partitions.boundary inn isIncrement wasCur cur rfl⟩
      · intro other alt _ _
        rw [← some.inj (wasCur.symm.trans alt)]
        exact next
      · rw [bars, toList_some, map_append, map_append]
        rfl
      · intro row mem
        rcases mem_append.mp mem with closed | new
        · exact barsShaped row (bars ▸ mem_append_left _ closed)
        · rw [mem_singleton.mp new]
          exact TickKlineAggregator.shaped_applyTick barShaped finite
    | starts row fresh other =>
      have rowShaped : row.Shaped := by
        rcases fresh with ⟨openOi, rfl⟩ | ⟨preceding, wasCur, rfl⟩
        · exact TickKlineAggregator.shaped_newTickBar finite
        · exact TickKlineAggregator.shaped_newCarryBar (barsShaped preceding.row
            (bars_of_current wasCur ▸ mem_append_right _ mem_cons_self))
      have rowStart : row.datetime = gridStart durationNs at_ tick.datetime := by
        rcases fresh with ⟨openOi, rfl⟩ | ⟨preceding, -, rfl⟩ <;> rfl
      have emp : row.volume = 0 := by rcases fresh with ⟨openOi, rfl⟩ | ⟨preceding, -, rfl⟩ <;> rfl
      exact accounts.opens pos cts located ofSession ofDur day vol cur
        rfl rfl rowStart rfl rowStart (accounts.before pos located past other) rfl
        barsShaped rowShaped (TickKlineAggregator.shaped_applyTick rowShaped finite)
        (partitions.starts inn isIncrement cur emp rfl)

/-- The run after a finished source end that closes the current bar. -/
theorem closes (pos : 0 < durationNs) {sourceEndNs : Int} {bar : TickAggregateBar}
    (wasCur : state.aggregator.current = some bar) (ended : bar.effectiveBarEndNs ≤ sourceEndNs) :
    (⟨{ state.aggregator with current := none }, state.opened, state.closed ++ [bar.row],
      state.accepted⟩ : TickKlineRun).Accounts session durationNs
        (inputs ++ [.finish sourceEndNs]) := by
  have bars : (⟨{ state.aggregator with current := none }, state.opened,
      state.closed ++ [bar.row], state.accepted⟩ : TickKlineRun).bars = state.bars := by
    rw [bars_of_current wasCur]
    exact append_nil _
  constructor
  · exact accounts.ofSession
  · exact accounts.ofDuration
  · exact fun other alt => absurd alt (some_ne_none other).symm
  · exact accounts.previous
  · exact accounts.nonneg
  · rw [bars]
    exact accounts.opened
  · rw [bars]
    exact accounts.ascending
  · rw [bars]
    exact accounts.shaped
  · rw [bars]
    exact accounts.grid
  · exact fun other alt => absurd alt (some_ne_none other).symm
  · intro row mem ts at_ passed loc
    obtain ⟨pre, done⟩ := passed_of_snoc passed
    rcases mem_append.mp mem with closed | new
    · exact accounts.passed row closed ts at_ pre loc
    · obtain ⟨seenNs, seenAt, cov⟩ := accounts.current bar wasCur
      rw [mem_singleton.mp new, cov.start]
      refine gridStart_lt pos cov.located loc ?_ (cov.seen ts pre)
      rw [← cov.stop]
      exact ended.trans done
  · obtain ⟨parts, last, partitions⟩ := accounts.partitions
    refine ⟨parts ++ [last], [], rel_append partitions.closed (.cons (partitions.current bar wasCur)
      .nil), fun other alt => absurd alt (some_ne_none other).symm, fun _ => rfl, ?_⟩
    rw [flatten_append, flatten_singleton, append_nil]
    exact partitions.increments

/-- The books of a run after a finished source end. -/
theorem finish (pos : 0 < durationNs) (sourceEndNs : Int) :
    (state.step (.finish sourceEndNs)).Accounts session durationNs
      (inputs ++ [.finish sourceEndNs]) := by
  have kept := accounts.unchanged (.finish sourceEndNs) accounts.ofSession accounts.ofDuration rfl
    rfl rfl
  unfold step TickKlineAggregator.finishClosedThrough
  dsimp only
  cases wasCur : state.aggregator.current with
  | none =>
    dsimp only
    rw [toList_none, append_nil]
    exact kept
  | some bar =>
    dsimp only
    split_ifs with fin
    · exact accounts.closes pos wasCur fin
    · dsimp only
      rw [toList_none, append_nil]
      exact kept

end

theorem start {aggregator : TickKlineAggregator} {sym : String}
    (created : TickKlineAggregator.new sym durationNs session = .ok aggregator) :
    (TickKlineRun.start aggregator).Accounts session durationNs [] := by
  unfold TickKlineAggregator.new at created
  split_ifs at created
  obtain rfl := Except.ok.inj created
  constructor
  · rfl
  · rfl
  · exact fun bar cur => absurd cur (some_ne_none bar).symm
  · rfl
  · exact le_refl 0
  · rfl
  · exact List.Pairwise.nil
  · exact forall_mem_nil _
  · exact forall_mem_nil _
  · exact fun bar cur => absurd cur (some_ne_none bar).symm
  · exact forall_mem_nil _
  · exact ⟨[], [], .nil, fun bar cur => absurd cur (some_ne_none bar).symm, fun _ => rfl, rfl⟩

/-- A run keeps its books. -/
theorem along (accounts : state.Accounts session durationNs []) (pos : 0 < durationNs)
    (few : durationNs < nanosPerMinute) (ord : inputs.Pairwise AggregatorInput.Precedes)
    (cts : ∀ inp ∈ inputs, inp.CountsVolume) :
    (state.run inputs).Accounts session durationNs inputs := by
  induction inputs using List.reverseRecOn with
  | nil => exact accounts
  | append_singleton inputs inp ih =>
    obtain ⟨ord, -, precedes⟩ := pairwise_append.mp ord
    have kept := ih ord fun inp mem => cts inp (mem_append_left _ mem)
    have last : (state.run (inputs ++ [inp])) = (state.run inputs).step inp := foldl_append ..
    rw [last]
    cases inp with
    | update tick =>
      exact kept.update pos few (cts (.update tick) (mem_append_right _ mem_cons_self)) fun pre mem
        => precedes pre mem _ mem_cons_self
    | finish srcEnd => exact kept.finish pos srcEnd

end Accounts

theorem Partitions.bars {parts : List (List Int)} {last : List Int}
    (partitions : state.Partitions parts last) :
    ∃ parts, List.Forall₂ Kline.Counts state.bars parts ∧
      parts.flatten = volumeIncrements 0 state.accepted := by
  cases cur : state.aggregator.current with
  | none =>
    rw [bars_of_idle cur]
    have increments := partitions.increments
    rw [partitions.idle cur, append_nil] at increments
    exact ⟨parts, partitions.closed, increments⟩
  | some bar =>
    rw [bars_of_current cur]
    refine ⟨parts ++ [last],
      rel_append partitions.closed (.cons (partitions.current bar cur) .nil), ?_⟩
    rw [flatten_append, flatten_singleton]
    exact partitions.increments

/-- Below the greatest `i64` nothing is lost. -/
theorem sum_volume {rows : List Kline} {parts : List (List Int)}
    (cts : List.Forall₂ Kline.Counts rows parts) (less : ∀ row ∈ rows, row.volume < I64.maximum) :
    (rows.map Kline.volume).sum = parts.flatten.sum := by
  induction cts with
  | nil => rfl
  | @cons row _ _ _ hd _ ih =>
    have vol := hd.volume
    have small := less row mem_cons_self
    rw [map_cons, sum_cons, flatten_cons, sum_append,
      ih fun alt mem => less alt (mem_cons_of_mem _ mem)]
    omega

end TickKlineRun

/-- The bars of a run in which ticks do not go back: each is opened once, and then closed once or
still current; they start on the grid of their windows and in order; every increment of the
accepted ticks is counted in one bar, whose volume stops at the greatest `i64`; and the prices of a
bar are between its lowest and its highest. -/
theorem TickKlineRun.bars_partition_ticks {symbol : String} {durationNs : Int}
    {session : KlineSessionTemplate} {aggregator : TickKlineAggregator}
    {inputs : List AggregatorInput} {state : TickKlineRun}
    (created : TickKlineAggregator.new symbol durationNs session = .ok aggregator)
    (ordered : inputs.Pairwise AggregatorInput.Precedes)
    (counts : ∀ input ∈ inputs, input.CountsVolume)
    (ran : (TickKlineRun.start aggregator).run inputs = state) :
    state.opened.map Kline.datetime = state.bars.map Kline.datetime ∧
      (state.bars.map Kline.datetime).Pairwise (· < ·) ∧
      (∀ row ∈ state.bars, ∃ timestampNs position,
        session.locate timestampNs = .ok (some position) ∧
          row.datetime = gridStart durationNs position timestampNs) ∧
      (∃ parts, List.Forall₂ Kline.Counts state.bars parts ∧
        parts.flatten = volumeIncrements 0 state.accepted) ∧
      ((∀ row ∈ state.bars, row.volume < I64.maximum) →
        (state.bars.map Kline.volume).sum = (volumeIncrements 0 state.accepted).sum) ∧
      ∀ row ∈ state.opened ++ state.bars, row.low ≤ row.open_ ∧ row.open_ ≤ row.high ∧
        row.low ≤ row.close ∧ row.close ≤ row.high := by
  have began := Accounts.start created
  have bnds : 0 < durationNs ∧ durationNs < nanosPerMinute := by
    unfold TickKlineAggregator.new at created
    split_ifs at created with _ bnds
    omega
  have accounts := ran ▸ began.along bnds.1 bnds.2 ordered counts
  obtain ⟨parts, last, partitions⟩ := accounts.partitions
  obtain ⟨parts, cnt, increments⟩ := partitions.bars
  refine ⟨accounts.opened, accounts.ascending, accounts.grid, ⟨parts, cnt, increments⟩, ?_, ?_⟩
  · intro lt
    rw [← increments]
    exact sum_volume cnt lt
  · intro row mem
    have form := accounts.shaped row mem
    exact ⟨form.low_le_open, form.open_le_high, form.low_le_close, form.close_le_high⟩

/-- A product without windows trades through the whole cycle. -/
def wholeCycle : KlineSessionTemplate where
  snapshotHash := ""
  windows := []
  increasing := KlineSessionTemplate.increasing_nil
  ordered := KlineSessionTemplate.ordered_nil

def secondBars : TickKlineAggregator :=
  ⟨"SHFE.au2606", nanosPerSecond, wholeCycle, none, none, 0, none⟩

/-- A tick that is `offset` nanoseconds after 18:00 CST. -/
def tickInput (offset volume : Int) : AggregatorInput :=
  .update ⟨cstSessionAnchorUtcNs + offset, .finite 1, volume, 0⟩

/-- The second tick lies on the boundary of two bars, and the last two are in one bar. -/
def boundaryTicks : List AggregatorInput :=
  [tickInput 1 5, tickInput nanosPerSecond 8, tickInput (nanosPerSecond + 1) 9,
    tickInput (nanosPerSecond + 2) 2, .finish (cstSessionAnchorUtcNs + 2 * nanosPerSecond)]

theorem TickKlineRun.bars_partition_ticks_boundary :
    ((TickKlineRun.start secondBars).run boundaryTicks).bars.map Kline.volume = [8, 3] ∧
      (((TickKlineRun.start secondBars).run boundaryTicks).bars.map Kline.volume).sum =
        (volumeIncrements 0 ((TickKlineRun.start secondBars).run boundaryTicks).accepted).sum :=
  ⟨by decide +kernel,
    (bars_partition_ticks (show TickKlineAggregator.new "SHFE.au2606" nanosPerSecond wholeCycle =
      .ok secondBars by rfl) (by decide +kernel) (by decide +kernel) rfl).2.2.2.2.1
      (by decide +kernel)⟩

/-- Three ticks of one bar whose increments are too many for an `i64`. -/
def fullTicks : List AggregatorInput :=
  [tickInput 0 I64.maximum, tickInput 1 0, tickInput 2 I64.maximum]

theorem TickKlineRun.volume_is_capped :
    TickKlineAggregator.new "SHFE.au2606" nanosPerSecond wholeCycle = .ok secondBars ∧
      fullTicks.Pairwise AggregatorInput.Precedes ∧
      (∀ input ∈ fullTicks, input.CountsVolume) ∧
      (((TickKlineRun.start secondBars).run fullTicks).bars.map Kline.volume).sum ≠
        (volumeIncrements 0 ((TickKlineRun.start secondBars).run fullTicks).accepted).sum :=
  ⟨by rfl, by decide +kernel, by decide +kernel, by decide +kernel⟩

end Tqsdk
