import Tqsdk.Lib.Drawdowns
import Tqsdk.Task.BacktestLedger
import Tqsdk.Task.SimAccounting

/-!
# The totals of a backtest ledger

The falls, the daily returns and the closed profits of a ledger are those of the observations it
was given.  Its counts of closing trades are right as long as the ids of new trades come behind
the ids of the trades that were recorded before.
-/

namespace Tqsdk

open List Option OrdMap

open Drawdowns

/-! ## The trades of a simulator -/

namespace TqSim

/-- The trades are numbered, and those of `sim` stay in their order. -/
structure TradesKept (sim sim' : TqSim) : Prop where
  numbered : ∀ entry ∈ sim'.trades, ∃ tradeSeq < sim'.nextTradeSeq, entry.1 = tradeId tradeSeq
  sublist : sim.trades.Sublist sim'.trades

variable {sim sim' : TqSim}

theorem TradesKept.of_sameBooks {next : TqSim} (kept : TradesKept sim sim')
    (same : SameBooks sim' next) : TradesKept sim next := by
  obtain ⟨nums, sublist⟩ := kept
  rw [← same.trades] at nums sublist
  rw [← same.nextTradeSeq] at nums
  exact ⟨nums, sublist⟩

theorem TradesKept.applyOrder {next : TqSim} {ord : SimOrder} {out : SimOrderOutcome}
    (kept : TradesKept sim sim') (app : sim'.applyOrder ord = .ok (next, out)) :
    TradesKept sim next := by
  rcases applyOrder_cases ord app with
    ⟨lifecycle, lastMsg, status, -, -, stored⟩ | ⟨-, -, price, -, filled⟩
  · obtain rfl := congrArg Prod.fst stored
    exact ⟨kept.numbered, kept.sublist⟩
  · obtain rfl := congrArg Prod.fst filled
    have put : (sim'.fillOrder ord price).1.trades =
        OrdMap.place (tradeId sim'.nextTradeSeq) (sim'.tradeOf ord price) sim'.trades := by
      rw [fillOrder_trades, OrdMap.insert, fresh_of_numbered kept.numbered]
      rfl
    constructor
    · intro ent mem
      rcases mem_insert mem with rfl | old
      · exact ⟨sim'.nextTradeSeq, Nat.lt_succ_self _, rfl⟩
      · obtain ⟨tradeSeq, bnd, nm⟩ := kept.numbered ent old
        exact ⟨tradeSeq, Nat.lt_succ_of_lt bnd, nm⟩
    · rw [put]
      exact kept.sublist.trans (sublist_place _ _ _)

section

variable (kept : TradesKept sim sim') (visit : List SimOrder → List SimOrder)

include kept visit

theorem TradesKept.matchPendingForSymbol (sym : String) :
    TradesKept sim (sim'.matchPendingForSymbol visit sym).1 :=
  matchPending_invariant (TradesKept sim) (fun _ _ _ _ _ pre _ app => pre.applyOrder app) kept

theorem TradesKept.updateQuoteRefInner (sym : String) (q : Quote) :
    TradesKept sim (sim'.updateQuoteRefInner visit sym q).1 := by
  have note := quoted_sameBooks sim' sym q
  unfold TqSim.updateQuoteRefInner
  generalize sim'.quoted sym q = res at note ⊢
  obtain ⟨quoted, exec⟩ := res
  have kept := kept.of_sameBooks note
  dsimp only at kept ⊢
  rcases settleQuote_cases quoted visit sym exec with unmatched | matched
  · rw [unmatched]
    exact kept
  · rw [matched]
    have hd := kept.matchPendingForSymbol visit sym
    unfold TqSim.matched
    cases exec with
    | none => exact hd
    | some exec => exact hd.matchPendingForSymbol visit exec

theorem TradesKept.execute (call : TqSimCall) : TradesKept sim (sim'.execute visit call) := by
  cases call with
  | setMargin sym margin => exact kept.of_sameBooks (setMargin_sameBooks sim' sym margin)
  | setCommission sym commission =>
    exact kept.of_sameBooks (setCommission_sameBooks sim' sym commission)
  | setContractMultiplier sym mult =>
    exact kept.of_sameBooks (setContractMultiplier_sameBooks sim' sym mult)
  | updateQuote sym q eventTimeNs =>
    have timed : TradesKept sim
        { sim' with currentTimeNs := eventTimeNs.getD sim'.currentTimeNs } :=
      ⟨kept.numbered, kept.sublist⟩
    exact timed.updateQuoteRefInner visit sym q
  | insertOrder req cid =>
    unfold TqSim.execute
    dsimp only
    split
    · rename_i ins
      obtain ⟨ord, out, -, app⟩ := insertOrder_cases ins
      exact kept.applyOrder app
    · exact kept

end

end TqSim

/-! ## Values and their falls -/

/-- The series has seen the values. -/
structure PointSeries.Tracks (series : PointSeries) (values : List ℚ) : Prop where
  peak : IsGreatest {top | top ∈ values} series.peak
  deepest : IsGreatest (falls values) series.maxDrawdown
  last : ∀ point ∈ series.points.getLast?,
    point.value ∈ values ∧ series.peak - point.value ≤ series.maxDrawdown

theorem PointSeries.tracks_initial (val : ℚ) : ({ peak := val } : PointSeries).Tracks [val] where
  peak := ⟨mem_singleton_self val, fun _ mem => (mem_singleton.mp mem).le⟩
  deepest := isGreatest_falls_singleton val
  last := fun _ mem => by cases mem

theorem PointSeries.Tracks.record {ser : PointSeries} {vals : List ℚ} (tracks : ser.Tracks vals)
    (eventCount : Nat) (eventTimeNs : Option Int) (val initialValue : ℚ) :
    (ser.record eventCount eventTimeNs val initialValue).Tracks (vals ++ [val]) := by
  have peak := isGreatest_peak tracks.peak val
  have deepest := isGreatest_falls peak tracks.deepest
  have mem : val ∈ vals ++ [val] := mem_append_right _ (mem_singleton_self val)
  unfold PointSeries.record
  split
  · rename_i repeats
    obtain ⟨point, last, same⟩ := (any_eq_true _ _).mp repeats
    obtain ⟨same, -⟩ := Bool.and_eq_true_iff.mp same
    obtain rfl := of_decide_eq_true same
    obtain ⟨seen, low⟩ := tracks.last point last
    rw [max_eq_left (tracks.peak.2 seen)] at peak deepest
    rw [max_eq_left low] at deepest
    refine ⟨peak, deepest, fun alt fin => ?_⟩
    obtain ⟨inn, above⟩ := tracks.last alt fin
    exact ⟨mem_append_left _ inn, above⟩
  · have raised : updatePeak ser.peak val = max ser.peak val := by
      unfold updatePeak
      split
      · rename_i above
        rw [max_eq_right above.le]
      · rename_i lt
        rw [max_eq_left (not_lt.mp lt)]
    have fall : max (max ser.peak val - val) 0 = max ser.peak val - val :=
      max_eq_left (sub_nonneg.mpr (le_max_right _ _))
    dsimp only [StrategyBacktestPoint.new, drawdownFromPeak]
    rw [raised, fall]
    split
    · rename_i deeper
      rw [max_eq_right (le_of_lt deeper)] at deepest
      refine ⟨peak, deepest, fun point last => ?_⟩
      rw [getLast?_concat] at last
      obtain rfl := some.inj last
      exact ⟨mem, le_rfl⟩
    · rename_i shallow
      rw [max_eq_left (not_lt.mp shallow)] at deepest
      refine ⟨peak, deepest, fun point last => ?_⟩
      rw [getLast?_concat] at last
      obtain rfl := some.inj last
      exact ⟨mem, not_lt.mp shallow⟩

/-! ## Daily values -/

theorem dailyValues_concat (vals : List (Option Int × ℚ)) (observed : Option Int × ℚ) :
    dailyValues (vals ++ [observed]) =
      match observed.1 with
      | none => dailyValues vals
      | some eventTimeNs =>
        OrdMap.insert (utcDateFromTimestampNs eventTimeNs) observed.2 (dailyValues vals) := by
  unfold dailyValues
  rw [foldl_append]
  rfl

/-- The points of a series have the daily values of all that it recorded. -/
theorem PointSeries.dailyValues_record (ser : PointSeries) (eventCount : Nat)
    (eventTimeNs : Option Int) (val initialValue : ℚ) :
    dailyValues ((ser.record eventCount eventTimeNs val initialValue).points.map fun p =>
        (p.eventTimeNs, p.value)) =
      dailyValues ((ser.points.map fun p => (p.eventTimeNs, p.value)) ++
        [(eventTimeNs, val)]) := by
  unfold PointSeries.record
  split
  · rename_i repeats
    obtain ⟨p, last, same⟩ := (any_eq_true _ _).mp repeats
    obtain ⟨same, bucket⟩ := Bool.and_eq_true_iff.mp same
    obtain rfl := of_decide_eq_true same
    obtain ⟨pre, split⟩ := getLast?_eq_some_iff.mp last
    rw [split, map_append, map_singleton, dailyValues_concat _ (eventTimeNs, _)]
    cases eventTimeNs with
    | none => rfl
    | some eventTimeNs =>
      rw [dailyValues_concat]
      unfold sameObservationBucket sameObservationDate at bucket
      cases stamp : p.eventTimeNs with
      | none =>
        rw [stamp] at bucket
        cases bucket
      | some previousTimeNs =>
        rw [stamp] at bucket
        have dates : utcDateFromTimestampNs previousTimeNs =
            utcDateFromTimestampNs eventTimeNs := some.inj (beq_iff_eq.mp bucket)
        dsimp only
        rw [dates, insert_insert]
  · dsimp only
    split <;> rw [map_append] <;> rfl

theorem sorted_dailyValues (vals : List (Option Int × ℚ)) :
    OrdMap.Sorted (dailyValues vals) := by
  induction vals using List.reverseRecOn with
  | nil => exact sorted_nil
  | append_singleton vals observed ih =>
    rw [dailyValues_concat]
    split
    · exact ih
    · exact ih.insert _ _

theorem mem_dailyValues {vals : List (Option Int × ℚ)} {ent : Int × ℚ}
    (mem : ent ∈ dailyValues vals) : ∃ eventTimeNs,
      (some eventTimeNs, ent.2) ∈ vals ∧ ent.1 = utcDateFromTimestampNs eventTimeNs := by
  induction vals using List.reverseRecOn with
  | nil => cases mem
  | append_singleton vals observed ih =>
    rw [dailyValues_concat] at mem
    obtain ⟨stamp, val⟩ := observed
    have older : ent ∈ dailyValues vals → ∃ eventTimeNs,
        (some eventTimeNs, ent.2) ∈ vals ++ [(stamp, val)] ∧
          ent.1 = utcDateFromTimestampNs eventTimeNs := fun old => by
      obtain ⟨eventTimeNs, inn, date⟩ := ih old
      exact ⟨eventTimeNs, mem_append_left _ inn, date⟩
    cases stamp with
    | none => exact older mem
    | some eventTimeNs =>
      rcases mem_insert mem with rfl | old
      · exact ⟨eventTimeNs, mem_append_right _ (mem_singleton_self _), rfl⟩
      · exact older old

/-- Where time does not go back, the last date has the last value that was observed at a time. -/
theorem getLast?_dailyValues {vals : List (Option Int × ℚ)}
    (ord : (vals.filterMap Prod.fst).Pairwise (· ≤ ·)) :
    (dailyValues vals).getLast?.map Prod.snd =
      (vals.filter fun observed => observed.1.isSome).getLast?.map Prod.snd := by
  induction vals using List.reverseRecOn with
  | nil => rfl
  | append_singleton vals observed ih =>
    obtain ⟨stamp, val⟩ := observed
    rw [filterMap_append] at ord
    obtain ⟨pre, -, sep⟩ := pairwise_append.mp ord
    rw [dailyValues_concat, filter_append]
    cases stamp with
    | none =>
      rw [filter_cons_of_neg Bool.false_ne_true, filter_nil, append_nil]
      exact ih pre
    | some eventTimeNs =>
      rw [filter_cons_of_pos rfl, filter_nil, getLast?_concat]
      have last : ∀ ent ∈ dailyValues vals,
          ent.1 ≤ utcDateFromTimestampNs eventTimeNs := by
        intro ent mem
        obtain ⟨preNs, inn, date⟩ := mem_dailyValues mem
        have inOrd : preNs ≤ eventTimeNs := sep preNs
          (mem_filterMap.mpr ⟨_, inn, rfl⟩) eventTimeNs (mem_singleton_self _)
        rw [date]
        unfold utcDateFromTimestampNs
        omega
      rw [getLast?_insert (sorted_dailyValues vals) last]
      rfl

theorem returnsOf_compound (prevBal peakBalance : ℚ) (daily : List (Int × ℚ))
    (open_ : prevBal ≠ 0) (nz : ∀ ent ∈ daily, ent.2 ≠ 0) :
    ∃ rates : List ℚ, (returnsOf prevBal peakBalance daily).map
        StrategyBacktestDailyBalanceReturn.returnRate = rates.map some ∧
      prevBal * (rates.map (1 + ·)).prod = (daily.getLast?.map Prod.snd).getD prevBal := by
  induction daily generalizing prevBal peakBalance with
  | nil => exact ⟨[], rfl, mul_one prevBal⟩
  | cons ent daily ih =>
    obtain ⟨date, balance⟩ := ent
    have hd : balance ≠ 0 := nz (date, balance) mem_cons_self
    obtain ⟨rates, same, compound⟩ := ih balance (updatePeak peakBalance balance) hd
      fun ent mem => nz ent (mem_cons_of_mem _ mem)
    refine ⟨(balance - prevBal) / prevBal :: rates, ?_, ?_⟩
    · rw [returnsOf, map_cons, map_cons, same, rateOrNan, if_neg open_]
    · have step : prevBal * (1 + (balance - prevBal) / prevBal) =
          balance := by
        field_simp
        ring
      rw [map_cons, prod_cons, ← mul_assoc, step, compound, getLast?_cons]
      cases daily.getLast? with
      | none => rfl
      | some last => rfl

/-! ## One record -/

namespace StrategyBacktestSummary

/-- `next` is `summary` with one more observation. -/
structure Observes (summary next : StrategyBacktestSummary) (eventTimeNs : Option Int)
    (account : SimAccount) (trades : List SimTrade)
    (closes : List StrategyBacktestClosedProfitPoint) : Prop where
  finalAccount : next.finalAccount = account
  initialAccount : next.initialAccount = summary.initialAccount
  balance : next.balance = summary.balance.record summary.eventCount eventTimeNs account.balance
    summary.initialAccount.balance
  equity : next.equity = summary.equity.record summary.eventCount eventTimeNs
    (accountEquity account) (accountEquity summary.initialAccount)
  trades : next.trades = trades
  closed : next.closedProfitPoints = summary.closedProfitPoints ++ closes

variable (summary : StrategyBacktestSummary)

/-- A time changes nothing but the first and the last time. -/
theorem recordEventTime_eq (eventTimeNs : Option Int) :
    summary.recordEventTime eventTimeNs = { summary with
      startEventTimeNs := (summary.recordEventTime eventTimeNs).startEventTimeNs
      endEventTimeNs := (summary.recordEventTime eventTimeNs).endEventTimeNs } := by
  cases eventTimeNs with
  | none => rfl
  | some eventTimeNs => rfl

theorem observes_recordUnchanged (eventTimeNs : Option Int) :
    summary.Observes (summary.recordUnchangedAccountObservation eventTimeNs) eventTimeNs
      summary.finalAccount summary.trades [] := by
  unfold recordUnchangedAccountObservation recordRiskRatioPoint
  rw [recordEventTime_eq]
  dsimp only
  split <;> exact ⟨rfl, rfl, rfl, rfl, rfl, (append_nil _).symm⟩

/-- The point that a snapshot adds. -/
def newCloses (snapshot : BacktestLedgerSnapshot) : List StrategyBacktestClosedProfitPoint :=
  let tradeCount := ((snapshot.trades.drop summary.trades.length).filter isCloseTrade).length
  let profit := snapshot.account.closeProfit - summary.finalAccount.closeProfit
  if tradeCount = 0 ∧ profit = 0 then []
  else [⟨summary.eventCount, snapshot.eventTimeNs, tradeCount, profit⟩]

theorem recordSnapshot_eq {snap : BacktestLedgerSnapshot}
    (inR : summary.trades.length ≤ snap.trades.length) :
    ∃ next, summary.recordSnapshot snap = some next ∧
      summary.Observes next snap.eventTimeNs snap.account snap.trades
        (summary.newCloses snap) := by
  unfold recordSnapshot recordClosedProfitPoint recordRiskRatioPoint newCloses
  dsimp only
  rw [recordEventTime_eq, if_neg (not_lt.mpr inR)]
  split
  · refine ⟨_, rfl, ?_⟩
    split <;> exact ⟨rfl, rfl, rfl, rfl, rfl, (append_nil _).symm⟩
  · refine ⟨_, rfl, ?_⟩
    split <;> exact ⟨rfl, rfl, rfl, rfl, rfl, rfl⟩

/-! ## What the observations leave -/

/-- The values, the daily values and the profits of a summary are those of what it observed. -/
structure Books (opening : SimAccount) (observed : List (Option Int × SimAccount)) : Prop where
  initial : summary.initialAccount = opening
  balance : summary.balance.Tracks (opening.balance :: observed.map fun seen => seen.2.balance)
  equity : summary.equity.Tracks
    (accountEquity opening :: observed.map fun seen => accountEquity seen.2)
  daily : dailyValues (summary.balance.points.map fun point => (point.eventTimeNs, point.value)) =
    dailyValues (observed.map fun seen => (seen.1, seen.2.balance))
  profits : (summary.closedProfitPoints.map
    StrategyBacktestClosedProfitPoint.profit).sum =
      summary.finalAccount.closeProfit - opening.closeProfit

theorem books_fresh (opening : SimAccount) : (fresh opening).Books opening [] where
  initial := rfl
  balance := PointSeries.tracks_initial opening.balance
  equity := PointSeries.tracks_initial (accountEquity opening)
  daily := rfl
  profits := (sub_self opening.closeProfit).symm

variable {summary} {opening : SimAccount} {observed : List (Option Int × SimAccount)}

theorem Books.observe {next : StrategyBacktestSummary} {eventTimeNs : Option Int} {acc : SimAccount}
    {tds : List SimTrade} {shuts : List StrategyBacktestClosedProfitPoint}
    (books : summary.Books opening observed) (obs : summary.Observes next eventTimeNs acc tds shuts)
    (profit : (shuts.map StrategyBacktestClosedProfitPoint.profit).sum =
      acc.closeProfit - summary.finalAccount.closeProfit) :
    next.Books opening (observed ++ [(eventTimeNs, acc)]) where
  initial := obs.initialAccount.trans books.initial
  balance := by
    rw [obs.balance, map_append, ← cons_append]
    exact books.balance.record _ _ _ _
  equity := by
    rw [obs.equity, map_append, ← cons_append]
    exact books.equity.record _ _ _ _
  daily := by
    rw [obs.balance, PointSeries.dailyValues_record, dailyValues_concat, books.daily,
      map_append, map_singleton, dailyValues_concat]
  profits := by
    rw [obs.closed, obs.finalAccount, map_append, sum_append, books.profits, profit]
    ring

theorem newCloses_profit (snap : BacktestLedgerSnapshot) :
    ((summary.newCloses snap).map StrategyBacktestClosedProfitPoint.profit).sum =
      snap.account.closeProfit - summary.finalAccount.closeProfit := by
  unfold newCloses
  dsimp only
  split
  · rename_i nothing
    exact nothing.2.symm
  · exact sum_singleton

/-! ## What a snapshot closes -/

end StrategyBacktestSummary

/-- The trades that a snapshot is the first to hold, and what was realised since the last one. -/
def closedPoint (previous snapshot : BacktestLedgerSnapshot) : Option Int × Nat × ℚ :=
  (snapshot.eventTimeNs, (snapshot.trades.diff previous.trades).countP isCloseTrade,
    snapshot.account.closeProfit - previous.account.closeProfit)

/-- The points of the snapshots that close something. -/
def closedPoints : BacktestLedgerSnapshot → List BacktestLedgerSnapshot →
    List (Option Int × Nat × ℚ)
  | _, [] => []
  | previous, snapshot :: snapshots =>
    let point := closedPoint previous snapshot
    (if point.2.1 = 0 ∧ point.2.2 = 0 then [] else [point]) ++ closedPoints snapshot snapshots

theorem closedPoints_concat (prev : BacktestLedgerSnapshot)
    (snapshots : List BacktestLedgerSnapshot) (snap : BacktestLedgerSnapshot) :
    closedPoints prev (snapshots ++ [snap]) = closedPoints prev snapshots ++
      closedPoints (snapshots.getLast?.getD prev) [snap] := by
  induction snapshots generalizing prev with
  | nil => rfl
  | cons hd snapshots ih =>
    rw [cons_append, closedPoints, closedPoints, ih, append_assoc, getLast?_cons]
    rfl

theorem append_diff_cancel (tds newer : List SimTrade) :
    (tds ++ newer).diff tds = newer := by
  induction tds with
  | nil => rfl
  | cons td tds ih => rw [cons_append, diff_cons, erase_cons_head, ih]

namespace StrategyBacktestSummary

/-- The closed profits of a summary are those of the snapshots it was given. -/
structure Counts (summary : StrategyBacktestSummary) (opening : SimAccount)
    (snapshots : List BacktestLedgerSnapshot) : Prop where
  closed : (summary.closedProfitPoints.map fun point =>
    (point.eventTimeNs, point.tradeCount, point.profit)) =
      closedPoints ⟨none, opening, []⟩ snapshots
  closes : (summary.closedProfitPoints.map
    StrategyBacktestClosedProfitPoint.tradeCount).sum = summary.trades.countP isCloseTrade
  latest : (snapshots.getLast?.getD ⟨none, opening, []⟩).trades = summary.trades
  account : (snapshots.getLast?.getD ⟨none, opening, []⟩).account = summary.finalAccount

theorem counts_fresh (opening : SimAccount) : (fresh opening).Counts opening [] :=
  ⟨rfl, rfl, rfl, rfl⟩

variable {summary next : StrategyBacktestSummary} {opening : SimAccount}
  {snapshots : List BacktestLedgerSnapshot} {eventTimeNs : Option Int}

theorem Counts.unchanged (cts : summary.Counts opening snapshots)
    (obs : summary.Observes next eventTimeNs summary.finalAccount summary.trades []) :
    next.Counts opening snapshots := by
  have shut := obs.closed.trans (append_nil _)
  constructor
  · rw [shut]
    exact cts.closed
  · rw [shut, obs.trades]
    exact cts.closes
  · rw [obs.trades]
    exact cts.latest
  · rw [obs.finalAccount]
    exact cts.account

/-- Trades that come behind the recorded ones are counted as they are. -/
theorem Counts.snapshot {snap : BacktestLedgerSnapshot} (cts : summary.Counts opening snapshots)
    (obs : summary.Observes next snap.eventTimeNs snap.account snap.trades
      (summary.newCloses snap)) (inPlace : summary.trades <+: snap.trades) :
    next.Counts opening (snapshots ++ [snap]) := by
  obtain ⟨newer, all⟩ := inPlace
  have n : ((snap.trades.drop summary.trades.length).filter isCloseTrade).length =
      newer.countP isCloseTrade := by
    rw [← all, drop_left, countP_eq_length_filter]
  constructor
  · have p : closedPoint (snapshots.getLast?.getD ⟨none, opening, []⟩) snap =
        (snap.eventTimeNs, newer.countP isCloseTrade,
          snap.account.closeProfit - summary.finalAccount.closeProfit) := by
      rw [closedPoint, cts.latest, cts.account, ← all, append_diff_cancel]
    rw [obs.closed, map_append, cts.closed, closedPoints_concat, closedPoints, p,
      closedPoints, append_nil, newCloses, n]
    dsimp only
    split <;> rfl
  · rw [obs.closed, obs.trades, map_append, sum_append, cts.closes,
      ← all, countP_append, newCloses, n]
    split
    · rename_i nothing
      rw [nothing.1]
      rfl
    · rw [map_singleton, sum_singleton]
  · rw [getLast?_concat, obs.trades]
    rfl
  · rw [getLast?_concat, obs.finalAccount]
    rfl

end StrategyBacktestSummary

/-! ## Runs -/

namespace LedgerRun

/-- The simulator still has every recorded trade, and the summary has the books of the run. -/
structure Kept (run : LedgerRun) (opening : SimAccount) (summary : StrategyBacktestSummary) :
    Prop where
  recorded : run.summary = some summary
  sim : TqSim.TradesKept run.sim run.sim
  within : summary.trades.Sublist run.sim.sortedTrades
  books : summary.Books opening run.observed

/-- The recorded trades stand first in the list that a snapshot takes. -/
def InPlace (run : LedgerRun) : LedgerCall → Prop
  | .recordSnapshot _ => ∀ summary ∈ run.summary, summary.trades <+: run.sim.sortedTrades
  | _ => True

/-- At every snapshot of the run the recorded trades stand first. -/
def AppendsTrades : List LedgerCall → LedgerRun → Prop
  | [], _ => True
  | call :: calls, run => run.InPlace call ∧ AppendsTrades calls (run.apply call)

variable {run : LedgerRun} {opening : SimAccount} {summary : StrategyBacktestSummary}

section

variable (kept : run.Kept opening summary)

include kept

theorem Kept.snapshot (eventTimeNs : Option Int) :
    ∃ next, (run.apply (.recordSnapshot eventTimeNs)).Kept opening next ∧
      summary.Observes next eventTimeNs run.sim.accountSnapshot run.sim.sortedTrades
        (summary.newCloses (ledgerSnapshotFromSim eventTimeNs run.sim)) := by
  have inR : summary.trades.length ≤
      (ledgerSnapshotFromSim eventTimeNs run.sim).trades.length := kept.within.length_le
  obtain ⟨next, note, obs⟩ := summary.recordSnapshot_eq inR
  refine ⟨next, ⟨?_, kept.sim, ?_, ?_⟩, obs⟩
  · rw [apply, kept.recorded]
    exact note
  · rw [obs.trades]
    exact List.Sublist.refl _
  · exact kept.books.observe obs (StrategyBacktestSummary.newCloses_profit _)

theorem Kept.unchanged (eventTimeNs : Option Int) :
    (run.apply (.recordUnchangedAccountObservation eventTimeNs)).Kept opening
      (summary.recordUnchangedAccountObservation eventTimeNs) where
  recorded := by
    rw [apply, kept.recorded]
    rfl
  sim := kept.sim
  within := by
    rw [(summary.observes_recordUnchanged eventTimeNs).trades]
    exact kept.within
  books := by
    rw [apply, kept.recorded]
    exact kept.books.observe (summary.observes_recordUnchanged eventTimeNs) (sub_self _).symm

theorem Kept.payload (kind : ReplayMarketPayloadKind) :
    (run.apply (.recordPayload kind)).Kept opening (summary.recordPayload kind) where
  recorded := by
    rw [apply, kept.recorded]
    rfl
  sim := kept.sim
  within := by
    cases kind <;> exact kept.within
  books := by
    cases kind <;> exact ⟨kept.books.initial, kept.books.balance, kept.books.equity,
      kept.books.daily, kept.books.profits⟩

theorem Kept.simulate (visit : List SimOrder → List SimOrder) (call : TqSimCall) :
    (run.apply (.simulate visit call)).Kept opening summary :=
  have tds := kept.sim.execute visit call
  { recorded := kept.recorded
    sim := ⟨tds.numbered, List.Sublist.refl _⟩
    within := kept.within.trans (tds.sublist.map Prod.snd)
    books := kept.books }

/-- A call keeps the books, and the counts where the recorded trades stand first. -/
theorem Kept.apply (call : LedgerCall) :
    ∃ next, (run.apply call).Kept opening next ∧ (run.InPlace call →
      summary.Counts opening run.snapshots → next.Counts opening (run.apply call).snapshots) := by
  cases call with
  | simulate visit call => exact ⟨summary, kept.simulate visit call, fun _ cts => cts⟩
  | recordPayload kind =>
    refine ⟨_, kept.payload kind, fun _ cts => ?_⟩
    cases kind <;> exact ⟨cts.closed, cts.closes, cts.latest, cts.account⟩
  | recordUnchangedAccountObservation eventTimeNs =>
    exact ⟨_, kept.unchanged eventTimeNs, fun _ cts =>
      cts.unchanged (summary.observes_recordUnchanged eventTimeNs)⟩
  | recordSnapshot eventTimeNs =>
    obtain ⟨next, kept', obs⟩ := kept.snapshot eventTimeNs
    exact ⟨next, kept', fun inPlace cts => cts.snapshot obs (inPlace summary kept.recorded)⟩

theorem Kept.play (cls : List LedgerCall) :
    ∃ last, (run.play cls).Kept opening last ∧ (run.AppendsTrades cls →
      summary.Counts opening run.snapshots → last.Counts opening (run.play cls).snapshots) := by
  induction cls generalizing run summary with
  | nil => exact ⟨summary, kept, fun _ cts => cts⟩
  | cons call cls ih =>
    obtain ⟨next, kept, one⟩ := kept.apply call
    obtain ⟨last, kept, rest⟩ := ih kept
    exact ⟨last, kept, fun appends cts => rest appends.2 (one appends.1 cts)⟩

theorem Kept.times_play (cls : List LedgerCall) :
    (run.play cls).observed.filterMap Prod.fst =
      run.observed.filterMap Prod.fst ++ cls.filterMap LedgerCall.eventTimeNs := by
  induction cls generalizing run summary with
  | nil => exact (append_nil _).symm
  | cons call cls ih =>
    obtain ⟨next, kept', -⟩ := kept.apply call
    have one : (run.apply call).observed.filterMap Prod.fst =
        run.observed.filterMap Prod.fst ++ call.eventTimeNs.toList := by
      cases call with
      | simulate visit call => exact (append_nil _).symm
      | recordPayload kind => exact (append_nil _).symm
      | recordUnchangedAccountObservation eventTimeNs =>
        rw [LedgerRun.apply, kept.recorded, filterMap_append]
        cases eventTimeNs <;> rfl
      | recordSnapshot eventTimeNs =>
        rw [LedgerRun.apply, filterMap_append]
        cases eventTimeNs <;> rfl
    have all : (call :: cls).filterMap LedgerCall.eventTimeNs =
        call.eventTimeNs.toList ++ cls.filterMap LedgerCall.eventTimeNs := by
      rw [filterMap_cons]
      cases call.eventTimeNs <;> rfl
    rw [all, ← append_assoc, ← one]
    exact ih kept'

end

/-- The first snapshot is recorded in an empty summary. -/
theorem kept_start {sim : TqSim} (nums : TqSim.TradesKept sim sim)
    (eventTimeNs : Option Int) : ∃ summary, (start eventTimeNs sim).Kept sim.accountSnapshot
      summary ∧ summary.Counts sim.accountSnapshot (start eventTimeNs sim).snapshots := by
  have new : (⟨sim, some (.fresh sim.accountSnapshot), [], []⟩ : LedgerRun).Kept
      sim.accountSnapshot (.fresh sim.accountSnapshot) :=
    ⟨rfl, nums, nil_sublist _, StrategyBacktestSummary.books_fresh _⟩
  obtain ⟨next, kept, cts⟩ := new.apply (.recordSnapshot eventTimeNs)
  refine ⟨next, kept, cts ?_ (StrategyBacktestSummary.counts_fresh _)⟩
  intro summary isFresh
  obtain rfl := some.inj isFresh
  exact nil_prefix

/-- What a summary says at the end of a run. -/
structure Totals (run : LedgerRun) (opening : SimAccount) (summary : StrategyBacktestSummary) :
    Prop where
  closed : (summary.closedProfitPoints.map fun point =>
    (point.eventTimeNs, point.tradeCount, point.profit)) =
      closedPoints ⟨none, opening, []⟩ run.snapshots
  profits : (summary.closedProfitPoints.map
    StrategyBacktestClosedProfitPoint.profit).sum =
      summary.finalAccount.closeProfit - opening.closeProfit
  closes : (summary.closedProfitPoints.map
    StrategyBacktestClosedProfitPoint.tradeCount).sum = summary.trades.countP isCloseTrade
  latest : (run.snapshots.getLast?.getD ⟨none, opening, []⟩).trades = summary.trades
  balanceFalls : IsGreatest (falls (opening.balance :: run.observed.map fun seen =>
    seen.2.balance)) summary.balance.maxDrawdown
  equityFalls : IsGreatest (falls (accountEquity opening :: run.observed.map fun seen =>
    accountEquity seen.2)) summary.equity.maxDrawdown
  compounds : 0 < opening.balance → (∀ seen ∈ run.observed, 0 < seen.2.balance) →
    ∀ last ∈ (run.observed.filter fun seen => seen.1.isSome).getLast?,
      ∃ rates : List ℚ, summary.dailyBalanceReturns.map
          StrategyBacktestDailyBalanceReturn.returnRate = rates.map some ∧
        opening.balance * (rates.map (1 + ·)).prod = last.2.balance

theorem Kept.totals (kept : run.Kept opening summary) (cts : summary.Counts opening run.snapshots)
    (ord : (run.observed.filterMap Prod.fst).Pairwise (· ≤ ·)) :
    run.Totals opening summary where
  closed := cts.closed
  profits := kept.books.profits
  closes := cts.closes
  latest := cts.latest
  balanceFalls := kept.books.balance.deepest
  equityFalls := kept.books.equity.deepest
  compounds := by
    intro pos positives last fin
    have times : ((run.observed.map fun seen => (seen.1, seen.2.balance)).filterMap
        Prod.fst).Pairwise (· ≤ ·) := by
      rw [filterMap_map]
      exact ord
    have final := getLast?_dailyValues times
    rw [List.filter_map, getLast?_map, ← kept.books.daily] at final
    obtain ⟨rates, same, compound⟩ := returnsOf_compound opening.balance opening.balance
      (dailyValues (summary.balance.points.map fun p => (p.eventTimeNs, p.value)))
      pos.ne' fun ent mem => by
        rw [kept.books.daily] at mem
        obtain ⟨eventTimeNs, inn, -⟩ := mem_dailyValues mem
        obtain ⟨seen, observed, isSeen⟩ := mem_map.mp inn
        rw [← (Prod.mk.inj isSeen).2]
        exact (positives seen observed).ne'
    refine ⟨rates, ?_, ?_⟩
    · rw [StrategyBacktestSummary.dailyBalanceReturns, kept.books.initial]
      exact same
    · rw [compound, final]
      have hit : (run.observed.filter fun seen => seen.1.isSome).getLast? = some last := fin
      have pairs : ((fun seen : Option Int × ℚ => seen.1.isSome) ∘
          fun seen : Option Int × SimAccount => (seen.1, seen.2.balance)) =
            fun seen => seen.1.isSome := rfl
      rw [pairs, hit]
      rfl

end LedgerRun

/-- A simulator after the calls that came before its first snapshot. -/
def TqSim.simulated (accountId : String) (initBalance : F64)
    (calls : List ((List SimOrder → List SimOrder) × TqSimCall)) : TqSim :=
  calls.foldl (fun sim call => sim.execute call.1 call.2) (withAccount accountId initBalance)

theorem TqSim.tradesKept_simulated (acct : String) (bal : F64)
    (cls : List ((List SimOrder → List SimOrder) × TqSimCall)) :
    TradesKept (simulated acct bal cls) (simulated acct bal cls) := by
  unfold simulated
  induction cls using List.reverseRecOn with
  | nil => exact ⟨fun _ mem => absurd mem not_mem_nil, List.Sublist.refl _⟩
  | append_singleton cls call ih =>
    rw [foldl_append]
    exact ⟨(ih.execute call.1 call.2).numbered, List.Sublist.refl _⟩

/-- Where the recorded trades stand first at every snapshot, the totals of the ledger are those of
the simulator. -/
theorem ledger_totals (accountId : String) (initBalance : F64)
    (before : List ((List SimOrder → List SimOrder) × TqSimCall)) (eventTimeNs : Option Int)
    (calls : List LedgerCall)
    (ordered : (eventTimeNs.toList ++ calls.filterMap LedgerCall.eventTimeNs).Pairwise (· ≤ ·))
    (appends : (LedgerRun.start eventTimeNs
      (TqSim.simulated accountId initBalance before)).AppendsTrades calls) :
    ∃ summary, ((LedgerRun.start eventTimeNs
        (TqSim.simulated accountId initBalance before)).play calls).summary = some summary ∧
      ((LedgerRun.start eventTimeNs
        (TqSim.simulated accountId initBalance before)).play calls).Totals
          (TqSim.simulated accountId initBalance before).accountSnapshot summary := by
  obtain ⟨summary, began, cnt⟩ := LedgerRun.kept_start
    (TqSim.tradesKept_simulated accountId initBalance before) eventTimeNs
  obtain ⟨last, kept, cts⟩ := began.play calls
  refine ⟨last, kept.recorded, kept.totals (cts appends cnt) ?_⟩
  rw [began.times_play]
  cases eventTimeNs <;> exact ordered

section Example

def ledgerQuote : TqSimCall :=
  .updateQuote "SHFE.au2512"
    { lastPrice := .finite 100, askPrice1 := .finite 100, askVolume1 := 5,
      bidPrice1 := .finite 90, bidVolume1 := 5, volumeMultiple := 10 } none

/-- Lots of one, each filled at the market. -/
def ledgerOrder (orderId : String) (direction : TradeDirection) (offset : TradeOffset) :
    LedgerCall :=
  .simulate id (.insertOrder ⟨orderId, "SHFE.au2512", direction, offset, 1, .any, none⟩ none)

instance (run : LedgerRun) (call : LedgerCall) : Decidable (run.InPlace call) := by
  cases call <;> unfold LedgerRun.InPlace <;> infer_instance

instance decidableAppendsTrades : ∀ (calls : List LedgerCall) (run : LedgerRun),
    Decidable (run.AppendsTrades calls)
  | [], _ => isTrue trivial
  | call :: calls, run =>
    have := decidableAppendsTrades calls (run.apply call)
    inferInstanceAs (Decidable (_ ∧ _))

/-- A lot that is bought and sold again. -/
def soldAgain : List LedgerCall :=
  [ledgerOrder "1" .buy .open_, .recordSnapshot (some 1), ledgerOrder "2" .sell .close,
    .recordSnapshot (some 2)]

theorem ledger_totals_soldAgain : ∃ summary,
    ((LedgerRun.start none (TqSim.simulated "TQSIM" (.finite 1000)
      [(id, ledgerQuote)])).play soldAgain).summary = some summary ∧
    ((LedgerRun.start none (TqSim.simulated "TQSIM" (.finite 1000)
      [(id, ledgerQuote)])).play soldAgain).Totals
        (TqSim.simulated "TQSIM" (.finite 1000) [(id, ledgerQuote)]).accountSnapshot summary :=
  ledger_totals "TQSIM" (.finite 1000) [(id, ledgerQuote)] none soldAgain (by decide +kernel)
    (by decide +kernel)

/-- Nine lots are bought and one of them is sold, which is trade ten. -/
def soldTenth : List LedgerCall :=
  (["1", "2", "3", "4", "5", "6", "7", "8", "9"].map fun orderId =>
    ledgerOrder orderId .buy .open_) ++
    [.recordSnapshot (some 1), ledgerOrder "10" .sell .close, .recordSnapshot (some 2)]

/-- The id of trade ten sorts before that of trade two, so the ledger takes trade nine for the new
one and counts no closing trade. -/
theorem not_totals_soldTenth :
    (none.toList ++ soldTenth.filterMap LedgerCall.eventTimeNs).Pairwise (· ≤ ·) ∧
    ¬∃ summary, ((LedgerRun.start none (TqSim.simulated "TQSIM" (.finite 1000)
        [(id, ledgerQuote)])).play soldTenth).summary = some summary ∧
      ((LedgerRun.start none (TqSim.simulated "TQSIM" (.finite 1000)
        [(id, ledgerQuote)])).play soldTenth).Totals
          (TqSim.simulated "TQSIM" (.finite 1000) [(id, ledgerQuote)]).accountSnapshot
            summary := by
  refine ⟨by decide +kernel, ?_⟩
  rintro ⟨summary, note, totals⟩
  have miscounted : ∀ summary ∈ ((LedgerRun.start none (TqSim.simulated "TQSIM" (.finite 1000)
      [(id, ledgerQuote)])).play soldTenth).summary, (summary.closedProfitPoints.map
        StrategyBacktestClosedProfitPoint.tradeCount).sum ≠
          summary.trades.countP isCloseTrade := by decide +kernel
  exact miscounted summary note totals.closes

end Example

end Tqsdk
