import Tqsdk.Task.Sim

/-!
# The ledger of a backtest

`backtest/ledger.rs` of `tqsdk-task`: what a backtest remembers of the snapshots of its simulated
account.  Amounts are rationals, so all of them are finite; a rate over zero is `none`.  A date is
the number of days since the epoch.  Every slice of the trades is checked, and a summary that is
`none` stands for one that is out of range.
-/

namespace Tqsdk

inductive ReplayMarketPayloadKind
  | quote | kline | tick
  deriving DecidableEq

def rateOrNan (numerator denominator : ℚ) : Option ℚ :=
  if denominator = 0 then none else some (numerator / denominator)

def updatePeak (peak value : ℚ) : ℚ := if value > peak then value else peak

def drawdownFromPeak (value peak : ℚ) : ℚ × Option ℚ :=
  let drawdown := max (peak - value) 0
  (drawdown, rateOrNan drawdown peak)

def utcDateFromTimestampNs (timestampNs : Int) : Int :=
  timestampNs / 1000000000 / 86400

def sameObservationDate (left right : Option Int) : Bool :=
  left.map utcDateFromTimestampNs == right.map utcDateFromTimestampNs

def sameObservationBucket (previous current : Option Int) : Bool :=
  current.isNone || sameObservationDate previous current

def isCloseTrade (trade : SimTrade) : Bool :=
  match trade.offset with
  | .close | .closeToday => true
  | .open_ => false

def accountEquity (account : SimAccount) : ℚ := account.balance + account.floatProfit

/-! ## Points -/

/-- `StrategyBacktestBalancePoint` with the balance as its value, `StrategyBacktestEquityPoint`
with the equity. -/
structure StrategyBacktestPoint where
  eventCount : Nat
  eventTimeNs : Option Int
  value : ℚ
  returnRate : Option ℚ
  drawdown : ℚ
  drawdownRate : Option ℚ
  deriving DecidableEq

def StrategyBacktestPoint.new (eventCount : Nat) (eventTimeNs : Option Int)
    (value initialValue peakValue : ℚ) : StrategyBacktestPoint :=
  let (drawdown, drawdownRate) := drawdownFromPeak value peakValue
  { eventCount := eventCount
    eventTimeNs := eventTimeNs
    value := value
    returnRate := rateOrNan (value - initialValue) initialValue
    drawdown := drawdown
    drawdownRate := drawdownRate }

/-- The fields of the summary that go with one kind of point, such as `balance_points`,
`peak_balance`, `max_balance_drawdown` and `max_balance_drawdown_rate`. -/
structure PointSeries where
  points : List StrategyBacktestPoint := []
  peak : ℚ
  maxDrawdown : ℚ := 0
  maxDrawdownRate : Option ℚ := some 0
  deriving DecidableEq

def PointSeries.record (series : PointSeries) (eventCount : Nat) (eventTimeNs : Option Int)
    (value initialValue : ℚ) : PointSeries :=
  if series.points.getLast?.any fun point =>
      point.value = value && sameObservationBucket point.eventTimeNs eventTimeNs then series
  else
    let peak := updatePeak series.peak value
    let point := StrategyBacktestPoint.new eventCount eventTimeNs value initialValue peak
    if point.drawdown > series.maxDrawdown then
      ⟨series.points ++ [point], peak, point.drawdown, point.drawdownRate⟩
    else ⟨series.points ++ [point], peak, series.maxDrawdown, series.maxDrawdownRate⟩

structure StrategyBacktestRiskRatioPoint where
  eventCount : Nat
  eventTimeNs : Option Int
  riskRatio : ℚ
  deriving DecidableEq

structure StrategyBacktestClosedProfitPoint where
  eventCount : Nat
  eventTimeNs : Option Int
  tradeCount : Nat
  profit : ℚ
  deriving DecidableEq

/-! ## The summary -/

structure BacktestLedgerSnapshot where
  eventTimeNs : Option Int
  account : SimAccount
  trades : List SimTrade
  deriving DecidableEq

structure StrategyBacktestSummary where
  eventCount : Nat := 0
  quoteCount : Nat := 0
  tickCount : Nat := 0
  klineCount : Nat := 0
  startEventTimeNs : Option Int := none
  endEventTimeNs : Option Int := none
  balance : PointSeries
  equity : PointSeries
  riskRatioPoints : List StrategyBacktestRiskRatioPoint := []
  closedProfitPoints : List StrategyBacktestClosedProfitPoint := []
  trades : List SimTrade := []
  initialAccount : SimAccount
  finalAccount : SimAccount
  deriving DecidableEq

namespace StrategyBacktestSummary

variable (summary : StrategyBacktestSummary)

def recordPayload (kind : ReplayMarketPayloadKind) : StrategyBacktestSummary :=
  let summary := { summary with eventCount := summary.eventCount + 1 }
  match kind with
  | .quote => { summary with quoteCount := summary.quoteCount + 1 }
  | .kline => { summary with klineCount := summary.klineCount + 1 }
  | .tick => { summary with tickCount := summary.tickCount + 1 }

def recordEventTime (eventTimeNs : Option Int) : StrategyBacktestSummary :=
  match eventTimeNs with
  | none => summary
  | some eventTimeNs =>
    { summary with
      startEventTimeNs := some (summary.startEventTimeNs.elim eventTimeNs (min · eventTimeNs))
      endEventTimeNs := some (summary.endEventTimeNs.elim eventTimeNs (max · eventTimeNs)) }

/-- The trades from the previous count on are taken for the new ones. -/
def recordClosedProfitPoint (previousCloseProfit : ℚ) (previousTradeCount : Nat)
    (eventTimeNs : Option Int) : Option StrategyBacktestSummary :=
  let profit := summary.finalAccount.closeProfit - previousCloseProfit
  if summary.trades.length < previousTradeCount then none
  else
    let tradeCount := ((summary.trades.drop previousTradeCount).filter isCloseTrade).length
    if tradeCount = 0 ∧ profit = 0 then some summary
    else some { summary with
      closedProfitPoints := summary.closedProfitPoints ++
        [⟨summary.eventCount, eventTimeNs, tradeCount, profit⟩] }

def recordBalancePoint (eventTimeNs : Option Int) : StrategyBacktestSummary :=
  { summary with
    balance := summary.balance.record summary.eventCount eventTimeNs summary.finalAccount.balance
      summary.initialAccount.balance }

def recordEquityPoint (eventTimeNs : Option Int) : StrategyBacktestSummary :=
  { summary with
    equity := summary.equity.record summary.eventCount eventTimeNs
      (accountEquity summary.finalAccount) (accountEquity summary.initialAccount) }

def recordRiskRatioPoint (eventTimeNs : Option Int) : StrategyBacktestSummary :=
  let riskRatio := summary.finalAccount.riskRatio
  if summary.riskRatioPoints.getLast?.any fun point =>
      point.riskRatio = riskRatio && sameObservationBucket point.eventTimeNs eventTimeNs then
    summary
  else
    { summary with
      riskRatioPoints := summary.riskRatioPoints ++
        [⟨summary.eventCount, eventTimeNs, riskRatio⟩] }

def recordUnchangedAccountObservation (eventTimeNs : Option Int) : StrategyBacktestSummary :=
  (((summary.recordEventTime eventTimeNs).recordBalancePoint eventTimeNs).recordEquityPoint
    eventTimeNs).recordRiskRatioPoint eventTimeNs

def recordSnapshot (snapshot : BacktestLedgerSnapshot) : Option StrategyBacktestSummary := do
  let eventTimeNs := snapshot.eventTimeNs
  let previousCloseProfit := summary.finalAccount.closeProfit
  let previousTradeCount := summary.trades.length
  let summary := summary.recordEventTime eventTimeNs
  let summary := { summary with trades := snapshot.trades, finalAccount := snapshot.account }
  let summary ← summary.recordClosedProfitPoint previousCloseProfit previousTradeCount eventTimeNs
  return ((summary.recordBalancePoint eventTimeNs).recordEquityPoint eventTimeNs)
    |>.recordRiskRatioPoint eventTimeNs

/-- The summary that `from_snapshot` records its snapshot in. -/
def fresh (initialAccount : SimAccount) : StrategyBacktestSummary :=
  { balance := { peak := initialAccount.balance }
    equity := { peak := accountEquity initialAccount }
    initialAccount := initialAccount
    finalAccount := initialAccount }

def fromSnapshot (snapshot : BacktestLedgerSnapshot) : Option StrategyBacktestSummary :=
  (fresh snapshot.account).recordSnapshot snapshot

/-! ## Daily returns -/

end StrategyBacktestSummary

structure StrategyBacktestDailyBalanceReturn where
  date : Int
  balance : ℚ
  profit : ℚ
  drawdown : ℚ
  drawdownRate : Option ℚ
  returnRate : Option ℚ
  deriving DecidableEq

/-- The last value of every date that is observed, in the order of the dates. -/
def dailyValues (values : List (Option Int × ℚ)) : List (Int × ℚ) :=
  values.foldl (fun daily observed =>
    match observed.1 with
    | none => daily
    | some eventTimeNs => OrdMap.insert (utcDateFromTimestampNs eventTimeNs) observed.2 daily) []

def returnsOf : ℚ → ℚ → List (Int × ℚ) → List StrategyBacktestDailyBalanceReturn
  | _, _, [] => []
  | previousBalance, peakBalance, (date, balance) :: daily =>
    let profit := balance - previousBalance
    let peakBalance := updatePeak peakBalance balance
    let (drawdown, drawdownRate) := drawdownFromPeak balance peakBalance
    ⟨date, balance, profit, drawdown, drawdownRate, rateOrNan profit previousBalance⟩ ::
      returnsOf balance peakBalance daily

def StrategyBacktestSummary.dailyBalanceReturns (summary : StrategyBacktestSummary) :
    List StrategyBacktestDailyBalanceReturn :=
  returnsOf summary.initialAccount.balance summary.initialAccount.balance
    (dailyValues (summary.balance.points.map fun point => (point.eventTimeNs, point.value)))

/-! ## Runs of a simulator and its ledger -/

/-- `trades()`: the map of the trades is in the order of their ids. -/
def TqSim.sortedTrades (sim : TqSim) : List SimTrade := sim.trades.map Prod.snd

def ledgerSnapshotFromSim (eventTimeNs : Option Int) (sim : TqSim) : BacktestLedgerSnapshot :=
  ⟨eventTimeNs, sim.accountSnapshot, sim.sortedTrades⟩

/-- A simulator and its summary, with what was recorded so far: the snapshots, and the time and
the account of every observation. -/
structure LedgerRun where
  sim : TqSim
  summary : Option StrategyBacktestSummary
  snapshots : List BacktestLedgerSnapshot
  observed : List (Option Int × SimAccount)

/-- What happens to the simulator and to the summary; a call of the simulator visits the pending
orders in some order. -/
inductive LedgerCall
  | simulate (visit : List SimOrder → List SimOrder) (call : TqSimCall)
  | recordPayload (kind : ReplayMarketPayloadKind)
  | recordUnchangedAccountObservation (eventTimeNs : Option Int)
  | recordSnapshot (eventTimeNs : Option Int)

def LedgerCall.eventTimeNs : LedgerCall → Option Int
  | .simulate _ _ | .recordPayload _ => none
  | .recordUnchangedAccountObservation eventTimeNs | .recordSnapshot eventTimeNs => eventTimeNs

namespace LedgerRun

/-- The first snapshot of a simulator. -/
def start (eventTimeNs : Option Int) (sim : TqSim) : LedgerRun :=
  let snapshot := ledgerSnapshotFromSim eventTimeNs sim
  ⟨sim, StrategyBacktestSummary.fromSnapshot snapshot, [snapshot],
    [(eventTimeNs, snapshot.account)]⟩

def apply (run : LedgerRun) : LedgerCall → LedgerRun
  | .simulate visit call => { run with sim := run.sim.execute visit call }
  | .recordPayload kind =>
    { run with summary := run.summary.map fun summary => summary.recordPayload kind }
  | .recordUnchangedAccountObservation eventTimeNs =>
    { run with
      summary := run.summary.map fun summary =>
        summary.recordUnchangedAccountObservation eventTimeNs
      observed := run.observed ++ (run.summary.map fun summary =>
        (eventTimeNs, summary.finalAccount)).toList }
  | .recordSnapshot eventTimeNs =>
    let snapshot := ledgerSnapshotFromSim eventTimeNs run.sim
    { run with
      summary := run.summary.bind fun summary => summary.recordSnapshot snapshot
      snapshots := run.snapshots ++ [snapshot]
      observed := run.observed ++ [(eventTimeNs, snapshot.account)] }

def play (run : LedgerRun) (calls : List LedgerCall) : LedgerRun := calls.foldl apply run

end LedgerRun

end Tqsdk
