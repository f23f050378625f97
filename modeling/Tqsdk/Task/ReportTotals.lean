import Mathlib.Algebra.Order.BigOperators.Group.List
import Mathlib.Algebra.Order.Group.Int
import Tqsdk.Task.ExecutionReport

/-!
# The totals of an execution report

A task whose orders the exchange fills and ends.  The end of an order overwrites the volume that
its trades have added up to, and a trade that is shown after the end is added to it once more: the
totals are those of the exchange exactly when no trade comes after the end of its order.
-/

namespace Tqsdk

open List

/-! ## Sums over the orders of some trades -/

def tradedVolume (trades : List Trade) : Int := (trades.map Trade.volume).sum

/-- The volume of the trades of an order. -/
def orderVolume (orderId : String) (trades : List Trade) : Int :=
  tradedVolume (trades.filter fun trade => trade.orderId = orderId)

@[simp]
theorem orderVolume_nil (oid : String) : orderVolume oid [] = 0 := rfl

theorem orderVolume_cons (oid : String) (td : Trade) (trades : List Trade) :
    orderVolume oid (td :: trades) =
      (if td.orderId = oid then td.volume else 0) + orderVolume oid trades := by
  by_cases same : td.orderId = oid <;> simp [orderVolume, tradedVolume, same]

theorem orderVolume_append (oid : String) (was latter : List Trade) :
    orderVolume oid (was ++ latter) = orderVolume oid was + orderVolume oid latter := by
  simp [orderVolume, tradedVolume]

variable {trades : List Trade}

theorem orderVolume_eq_zero {oid : String} (none : ∀ td ∈ trades, td.orderId ≠ oid) :
    orderVolume oid trades = 0 := by
  have emp : trades.filter (fun td => td.orderId = oid) = [] := by
    simpa [filter_eq_nil_iff] using none
  rw [orderVolume, emp]
  rfl

theorem orderVolume_nonneg (oid : String) (pos : ∀ td ∈ trades, 0 < td.volume) :
    0 ≤ orderVolume oid trades := by
  refine sum_nonneg fun vol mem => ?_
  obtain ⟨td, inTrades, rfl⟩ := mem_map.mp mem
  exact (pos td (mem_of_mem_filter inTrades)).le

theorem orderVolume_pos (oid : String) {td : Trade} (pos : ∀ td ∈ trades, 0 < td.volume)
    (mem : td ∈ trades) (own : td.orderId = oid) : 0 < orderVolume oid trades := by
  obtain ⟨was, latter, rfl⟩ := append_of_mem mem
  have fst := orderVolume_nonneg oid fun td inFront => pos td (mem_append_left _ inFront)
  have back := orderVolume_nonneg oid fun td inBack =>
    pos td (mem_append_right _ (mem_cons_of_mem _ inBack))
  rw [orderVolume_append, orderVolume_cons, if_pos own]
  have := pos td mem
  omega

theorem sum_ite_mem {oids : List String} (nd : oids.Nodup) (oid : String) (vol : Int) :
    (oids.map fun alt => if oid = alt then vol else 0).sum = if oid ∈ oids then vol else 0 := by
  induction oids with
  | nil => rfl
  | cons head oids ih =>
    obtain ⟨new, rest⟩ := nodup_cons.mp nd
    rw [map_cons, sum_cons, ih rest]
    by_cases same : oid = head
    · subst same
      simp [new]
    · simp [same]

/-- Trades of the given orders are those of one order or another. -/
theorem sum_orderVolume {oids : List String} (nd : oids.Nodup) (trades : List Trade)
    (own : ∀ td ∈ trades, td.orderId ∈ oids) :
    (oids.map fun oid => orderVolume oid trades).sum = tradedVolume trades := by
  induction trades with
  | nil => simp [tradedVolume]
  | cons td trades ih =>
    simp only [orderVolume_cons, sum_map_add, ih fun alt mem => own alt (mem_cons_of_mem _ mem),
      sum_ite_mem nd, if_pos (own td mem_cons_self)]
    simp [tradedVolume]

/-! ## The exchange -/

/-- What the exchange did: the volumes of the orders and the distinct trades. -/
structure Exchange where
  requested : String → Int
  trades : List Trade
  distinct : (trades.map Trade.tradeId).Nodup

namespace Exchange

variable (exchange : Exchange)

def filled (orderId : String) : Int :=
  orderVolume orderId exchange.trades

/-- The end of an order, with the volume that its trades have left. -/
def Ends (orderId : String) (order : OrderEnd) : Prop :=
  order.orderId = orderId ∧ order.volumeOrigin = exchange.requested orderId ∧
    order.volumeLeft = exchange.requested orderId - exchange.filled orderId

def ShowsIn : TaskMoment → Prop
  | .prune orders => ∀ orderId order, orders orderId = some order →
      order.lifecycle.isTerminal = true → exchange.Ends orderId order
  | .inserted _ orderId desired => desired.volume = exchange.requested orderId
  | .cancelSent _ => True
  | .reached _ _ => True

/-- The update shows trades and ends of orders as the exchange has them. -/
structure Shows (exchange : Exchange) (update : TaskUpdate) : Prop where
  trades : ∀ tradeId trade, update.trades tradeId = some trade →
    trade.tradeId = tradeId ∧ trade ∈ exchange.trades
  moments : ∀ moment ∈ update.moments, exchange.ShowsIn moment

end Exchange

def TaskMoment.insertedId : TaskMoment → Option String
  | .inserted _ orderId _ => some orderId
  | _ => none

def insertedIds (updates : List TaskUpdate) : List String :=
  updates.flatMap fun update => update.moments.filterMap TaskMoment.insertedId

namespace ReportedTask

/-- Every order has ended, and every trade of the task's orders was recorded. -/
structure Processed (task : ReportedTask) (exchange : Exchange) : Prop where
  ended : task.trackedOrders = []
  traded : ∀ trade ∈ exchange.trades, trade.orderId ∈ task.knownOrderIds →
    trade.tradeId ∈ task.seenTradeIds

/-- The totals of the report are those of the exchange. -/
structure Agrees (task : ReportedTask) (exchange : Exchange) : Prop where
  filled : ∀ order ∈ task.report.orders, order.filledVolume = exchange.filled order.orderId
  remaining : ∀ order ∈ task.report.orders,
    order.filledVolume + order.remainingVolume = order.requestedVolume
  total : task.report.filledVolume =
    (task.report.orders.map TargetPosTaskOrderReport.filledVolume).sum

/-- The trades of the task's orders that the update shows. -/
def shownTrades (task : ReportedTask) (update : TaskUpdate) : List Trade :=
  match update.commit with
  | none => []
  | some objectHits =>
    ((task.hitTradeIds objectHits).filterMap update.trades).filter fun trade =>
      trade.orderId ∈ task.knownOrderIds

/-- No new trade of the update comes after the end of its order. -/
def InTime (task : ReportedTask) (update : TaskUpdate) : Prop :=
  ∀ trade ∈ task.shownTrades update, trade.tradeId ∉ task.seenTradeIds →
    trade.orderId ∈ task.trackedOrders

def RunsInTime (addTurnover : AddTurnover) : ReportedTask → List TaskUpdate → Prop
  | _, [] => True
  | task, update :: updates =>
    task.InTime update ∧
      RunsInTime addTurnover (task.processWaitUpdate addTurnover update) updates

end ReportedTask

/-! ## What the report holds -/

theorem changeOrderReport_eq {oid : String}
    {chg : TargetPosTaskOrderReport → TargetPosTaskOrderReport}
    {ords : List TargetPosTaskOrderReport}
    (nd : (ords.map TargetPosTaskOrderReport.orderId).Nodup) :
    changeOrderReport oid chg ords =
      ords.map fun ord => if ord.orderId = oid then chg ord else ord := by
  induction ords with
  | nil => rfl
  | cons ord ords ih =>
    rw [map_cons, nodup_cons] at nd
    rw [changeOrderReport, map_cons]
    by_cases same : ord.orderId = oid
    · rw [if_pos same, if_pos same]
      have alts : ∀ alt ∈ ords,
          (if alt.orderId = oid then chg alt else alt) = alt := by
        intro alt mem
        refine if_neg fun also => nd.1 ?_
        exact mem_map.mpr ⟨alt, mem, also.trans same.symm⟩
      rw [map_congr_left alts, map_id']
    · rw [if_neg same, if_neg same, ih nd.2]

/-- The volumes of an order's report: those of its recorded trades while the order is tracked, and
those of its end, with the trades that came late, from then on. -/
structure OrderBooked (exchange : Exchange) (trackedOrders : List String)
    (recorded late : List Trade) (order : TargetPosTaskOrderReport) : Prop where
  requested : order.requestedVolume = exchange.requested order.orderId
  live : order.orderId ∈ trackedOrders → order.filledVolume = orderVolume order.orderId recorded
  ended : order.orderId ∉ trackedOrders →
    order.filledVolume = exchange.filled order.orderId + orderVolume order.orderId late
  left : order.orderId ∉ trackedOrders → (∀ trade ∈ late, trade.orderId ≠ order.orderId) →
    order.remainingVolume = order.requestedVolume - exchange.filled order.orderId

/-- The trades that the report has recorded, and those of them that came after the end of their
order. -/
structure Booked (exchange : Exchange) (task : ReportedTask) (recorded late : List Trade) :
    Prop where
  seen : task.seenTradeIds = recorded.map Trade.tradeId
  recordedDistinct : (recorded.map Trade.tradeId).Nodup
  real : ∀ trade ∈ recorded, trade ∈ exchange.trades
  known : ∀ trade ∈ recorded, trade.orderId ∈ task.knownOrderIds
  lateRecorded : late ⊆ recorded
  lateEnded : ∀ trade ∈ late, trade.orderId ∉ task.trackedOrders
  total : task.report.filledVolume = tradedVolume recorded
  orders : task.report.orders.map TargetPosTaskOrderReport.orderId = task.knownOrderIds
  knownDistinct : task.knownOrderIds.Nodup
  tracked : task.trackedOrders ⊆ task.knownOrderIds
  trackedDistinct : task.trackedOrders.Nodup
  reports : ∀ order ∈ task.report.orders,
    OrderBooked exchange task.trackedOrders recorded late order

theorem booked_new (exchange : Exchange) (accountId : AccountId) :
    Booked exchange { accountId } [] [] where
  seen := rfl
  recordedDistinct := nodup_nil
  real := by simp
  known := by simp
  lateRecorded := by simp
  lateEnded := by simp
  total := rfl
  orders := rfl
  knownDistinct := nodup_nil
  tracked := by simp
  trackedDistinct := nodup_nil
  reports := by simp

namespace Booked

variable {exchange : Exchange} {task : ReportedTask} {recorded late : List Trade}
  (addTurnover : AddTurnover)

section

variable (booked : Booked exchange task recorded late)

include booked

theorem distinctReports :
    (task.report.orders.map TargetPosTaskOrderReport.orderId).Nodup := by
  rw [booked.orders]
  exact booked.knownDistinct

/-- A change of one order's report that keeps its id. -/
theorem changed_orders {oid : String} {chg : TargetPosTaskOrderReport → TargetPosTaskOrderReport}
    (hold : ∀ ord, (chg ord).orderId = ord.orderId) :
    (changeOrderReport oid chg task.report.orders).map
      TargetPosTaskOrderReport.orderId = task.knownOrderIds := by
  rw [changeOrderReport_eq booked.distinctReports, map_map, ← booked.orders]
  refine map_congr_left fun ord _ => ?_
  dsimp only [Function.comp_apply]
  split
  · exact hold ord
  · rfl

theorem changed_reports {oid : String} {chg : TargetPosTaskOrderReport → TargetPosTaskOrderReport}
    {property : TargetPosTaskOrderReport → Prop}
    (alts : ∀ ord ∈ task.report.orders, ord.orderId ≠ oid → property ord)
    (own : ∀ ord ∈ task.report.orders, ord.orderId = oid → property (chg ord)) :
    ∀ ord ∈ changeOrderReport oid chg task.report.orders, property ord := by
  rw [changeOrderReport_eq booked.distinctReports]
  intro ord mem
  obtain ⟨was, inOrders, rfl⟩ := mem_map.mp mem
  by_cases same : was.orderId = oid
  · rw [if_pos same]
    exact own was inOrders same
  · rw [if_neg same]
    exact alts was inOrders same

/-! ## Trades -/

theorem recordTradeOnce {td : Trade} (real : td ∈ exchange.trades)
    (old : td.orderId ∈ task.knownOrderIds) (new : td.tradeId ∉ task.seenTradeIds) :
    Booked exchange (task.recordTradeOnce addTurnover td) (recorded ++ [td])
      (late ++ if td.orderId ∈ task.trackedOrders then [] else [td]) := by
  rw [ReportedTask.recordTradeOnce, if_neg new]
  refine
    { booked with
      seen := by simp [booked.seen]
      recordedDistinct := ?_
      real := by simpa [or_imp, forall_and] using ⟨booked.real, real⟩
      known := by simpa [or_imp, forall_and] using ⟨booked.known, old⟩
      lateRecorded := ?_
      lateEnded := ?_
      total := ?_
      orders := booked.changed_orders fun _ => rfl
      reports := booked.changed_reports ?_ ?_ }
  · rw [map_append, nodup_append]
    refine ⟨booked.recordedDistinct, by simp, ?_⟩
    rintro tradeId mem _ isNew rfl
    rw [map_singleton, mem_singleton] at isNew
    exact new (booked.seen ▸ isNew ▸ mem)
  · refine append_subset.mpr ⟨subset_append_of_subset_left _ booked.lateRecorded, ?_⟩
    split <;> simp
  · intro alt mem
    rcases mem_append.mp mem with was | isNew
    · exact booked.lateEnded alt was
    · split at isNew
      · cases isNew
      · rename_i untrk
        rw [mem_singleton.mp isNew]
        exact untrk
  · simp [TargetPosTaskExecutionReport.recordTrade, TargetPosTaskTradeFill.ofTrade, booked.total,
      tradedVolume]
  · intro ord mem (alt : ord.orderId ≠ td.orderId)
    have hld := booked.reports ord mem
    have kept : ∀ trades, orderVolume ord.orderId (trades ++ [td]) =
        orderVolume ord.orderId trades := fun trades => by
      rw [orderVolume_append, orderVolume_cons, if_neg (Ne.symm alt)]
      simp
    refine
      { requested := hld.requested
        live := fun trk => (hld.live trk).trans (kept recorded).symm
        ended := fun untrk => (hld.ended untrk).trans ?_
        left := fun untrk notLate => hld.left untrk fun was mem =>
          notLate was (mem_append_left _ mem) }
    split
    · rw [append_nil]
    · rw [kept late]
  · intro ord mem (same : ord.orderId = td.orderId)
    have hld := booked.reports ord mem
    refine
      { requested := hld.requested
        live := fun trk => ?_
        ended := fun untrk => ?_
        left := fun untrk notLate => ?_ }
    · change ord.filledVolume + td.volume = orderVolume ord.orderId _
      rw [orderVolume_append, orderVolume_cons, if_pos same.symm, hld.live trk]
      simp
    · change ord.filledVolume + td.volume = exchange.filled ord.orderId + orderVolume ord.orderId _
      have notTracked : td.orderId ∉ task.trackedOrders := same ▸ untrk
      rw [if_neg notTracked, orderVolume_append, orderVolume_cons, if_pos same.symm,
        hld.ended untrk, orderVolume_nil, add_zero, add_assoc]
    · have notTracked : td.orderId ∉ task.trackedOrders := same ▸ untrk
      rw [if_neg notTracked] at notLate
      exact absurd same.symm (notLate td (by simp))

end

/-- The trades of a commit, of which some come late. -/
theorem recordTrades (shown : List Trade) (booked : Booked exchange task recorded late)
    (real : ∀ td ∈ shown, td ∈ exchange.trades)
    (old : ∀ td ∈ shown, td.orderId ∈ task.knownOrderIds) :
    ∃ recorded' more,
      Booked exchange (shown.foldl (ReportedTask.recordTradeOnce addTurnover) task) recorded'
        (late ++ more) ∧
      (shown.foldl (ReportedTask.recordTradeOnce addTurnover) task).knownOrderIds =
        task.knownOrderIds ∧
      (more = [] ↔ ∀ td ∈ shown, td.tradeId ∉ task.seenTradeIds →
        td.orderId ∈ task.trackedOrders) := by
  induction shown generalizing task recorded late with
  | nil => exact ⟨recorded, [], by simpa using booked, rfl, by simp⟩
  | cons td shown ih =>
    obtain ⟨isReal, restReal⟩ := forall_mem_cons.mp real
    obtain ⟨isKnown, restKnown⟩ := forall_mem_cons.mp old
    rw [foldl_cons]
    by_cases seen : td.tradeId ∈ task.seenTradeIds
    · have kept : task.recordTradeOnce addTurnover td = task := if_pos seen
      rw [kept]
      obtain ⟨recorded', more, post, knownSame, inTime⟩ := ih booked restReal restKnown
      refine ⟨recorded', more, post, knownSame, inTime.trans ?_⟩
      rw [forall_mem_cons]
      exact ⟨fun rest => ⟨fun unseen => absurd seen unseen, rest⟩, And.right⟩
    · have next := booked.recordTradeOnce addTurnover isReal isKnown seen
      have frm : (task.recordTradeOnce addTurnover td).trackedOrders = task.trackedOrders ∧
          (task.recordTradeOnce addTurnover td).knownOrderIds = task.knownOrderIds ∧
          (task.recordTradeOnce addTurnover td).seenTradeIds =
            task.seenTradeIds ++ [td.tradeId] := by
        rw [ReportedTask.recordTradeOnce, if_neg seen]
        exact ⟨rfl, rfl, rfl⟩
      obtain ⟨recorded', more, post, knownSame, inTime⟩ := ih next restReal (frm.2.1 ▸ restKnown)
      rw [append_assoc] at post
      refine ⟨recorded', _, post, knownSame.trans frm.2.1, ?_⟩
      rw [forall_mem_cons, append_eq_nil_iff, inTime, frm.1, frm.2.2]
      by_cases trk : td.orderId ∈ task.trackedOrders
      · rw [if_pos trk]
        refine ⟨fun rest => ⟨fun _ => trk, fun alt mem unseen => ?_⟩,
          fun all => ⟨rfl, fun alt mem unseen => ?_⟩⟩
        · by_cases same : alt.tradeId = td.tradeId
          · rw [inj_on_of_nodup_map exchange.distinct (restReal alt mem) isReal same]
            exact trk
          · exact rest.2 alt mem (by simp [unseen, same])
        · exact all.2 alt mem fun was => unseen (mem_append_left _ was)
      · rw [if_neg trk]
        exact ⟨fun no => absurd no.1 (by simp),
          fun all => absurd (all.1 seen) trk⟩

end Booked

/-! ## The end of orders -/

namespace ReportedTask

variable (task : ReportedTask)

/-- One order of `prune_terminal_orders`. -/
def finishOne (order : OrderEnd) : ReportedTask :=
  { task with
    report := task.report.recordOrderFinished order
    trackedOrders := task.trackedOrders.filter (· ≠ order.orderId)
    cancelRequestedOrderIds := task.cancelRequestedOrderIds.filter (· ≠ order.orderId) }

theorem foldl_finishOne (done : List OrderEnd) (task : ReportedTask) :
    done.foldl finishOne task =
      { task with
        report := done.foldl TargetPosTaskExecutionReport.recordOrderFinished task.report
        trackedOrders := task.trackedOrders.filter (!(done.map OrderEnd.orderId).contains ·)
        cancelRequestedOrderIds :=
          task.cancelRequestedOrderIds.filter (!(done.map OrderEnd.orderId).contains ·) } := by
  induction done generalizing task with
  | nil => simp
  | cons ord done ih =>
    rw [foldl_cons, ih]
    simp only [finishOne, filter_filter, foldl_cons, map_cons]
    congr 2 <;>
    · funext orderId
      by_cases same : orderId = ord.orderId <;> simp [same]

/-- The orders that `prune_terminal_orders` finds ended. -/
def finishedOrders (orders : String → Option OrderEnd) : List OrderEnd :=
  task.trackedOrders.filterMap fun orderId =>
    (orders orderId).filter fun order => order.lifecycle.isTerminal

theorem pruneTerminalOrders_eq (ords : String → Option OrderEnd) :
    task.pruneTerminalOrders ords = (task.finishedOrders ords).foldl finishOne task := by
  rw [pruneTerminalOrders, foldl_finishOne]
  dsimp only
  split
  · rename_i none
    have emp : task.finishedOrders ords = [] := isEmpty_iff.mp none
    simp [emp]
  · rfl

theorem recordCommitTrades_eq (addTurnover : AddTurnover) (task : ReportedTask) (upd : TaskUpdate) :
    task.recordCommitTrades addTurnover upd.commit upd.trades =
      (task.shownTrades upd).foldl (recordTradeOnce addTurnover) task := by
  have loop : ∀ (seen : List String) (tradeIds : List TradeId) (task : ReportedTask),
      tradeIds.foldl (recordHit addTurnover seen upd.trades) task =
        ((tradeIds.filterMap upd.trades).filter fun td => td.orderId ∈ seen).foldl
          (recordTradeOnce addTurnover) task := by
    intro seen tradeIds
    induction tradeIds with
    | nil => exact fun _ => rfl
    | cons tradeId tradeIds ih =>
      intro task
      rw [foldl_cons, ih, recordHit, filterMap_cons]
      cases upd.trades tradeId with
      | none => rfl
      | some td => by_cases isKnown : td.orderId ∈ seen <;> simp [isKnown]
  unfold recordCommitTrades shownTrades
  cases upd.commit with
  | none => rfl
  | some objectHits =>
    dsimp only
    split
    · rename_i none
      rw [isEmpty_iff.mp none]
      rfl
    split
    · rename_i none
      rw [isEmpty_iff.mp none]
      simp
    · exact loop _ _ _

end ReportedTask

namespace Booked

variable {exchange : Exchange} {task : ReportedTask} {recorded late : List Trade}
  (addTurnover : AddTurnover)

theorem finishOne (booked : Booked exchange task recorded late) {ord : OrderEnd}
    (trkd : ord.orderId ∈ task.trackedOrders) (ends : exchange.Ends ord.orderId ord) :
    Booked exchange (task.finishOne ord) recorded late := by
  have full : ord.volumeOrigin - ord.volumeLeft = exchange.filled ord.orderId := by
    rw [ends.2.1, ends.2.2]
    omega
  refine
    { booked with
      lateEnded := fun td mem still => booked.lateEnded td mem (mem_of_mem_filter still)
      orders := booked.changed_orders fun _ => rfl
      tracked := fun oid still => booked.tracked (mem_of_mem_filter still)
      trackedDistinct := booked.trackedDistinct.filter _
      reports := booked.changed_reports ?_ ?_ }
  · intro rep mem alt
    have hld := booked.reports rep mem
    have same : rep.orderId ∈ (task.finishOne ord).trackedOrders ↔
        rep.orderId ∈ task.trackedOrders := by
      simp [ReportedTask.finishOne, alt]
    exact
      { requested := hld.requested
        live := fun still => hld.live (same.mp still)
        ended := fun untrk => hld.ended fun still => untrk (same.mpr still)
        left := fun untrk => hld.left fun still => untrk (same.mpr still) }
  · intro rep mem same
    have hld := booked.reports rep mem
    have gone : rep.orderId ∉ (task.finishOne ord).trackedOrders := by
      simp [ReportedTask.finishOne, same]
    have none : orderVolume rep.orderId late = 0 := orderVolume_eq_zero fun td isLate own =>
      booked.lateEnded td isLate (by rw [own, same]; exact trkd)
    refine
      { requested := hld.requested
        live := fun still => absurd still gone
        ended := fun _ => ?_
        left := fun _ _ => ?_ }
    · change ord.volumeOrigin - ord.volumeLeft =
        exchange.filled rep.orderId + orderVolume rep.orderId late
      rw [none, full, same, add_zero]
    · change ord.volumeLeft = rep.requestedVolume - exchange.filled rep.orderId
      rw [hld.requested, same, ends.2.2]

theorem finishAll (done : List OrderEnd) (booked : Booked exchange task recorded late)
    (nd : (done.map OrderEnd.orderId).Nodup) (trkd : ∀ ord ∈ done, ord.orderId ∈ task.trackedOrders)
    (ends : ∀ ord ∈ done, exchange.Ends ord.orderId ord) :
    Booked exchange (done.foldl ReportedTask.finishOne task) recorded late := by
  induction done generalizing task with
  | nil => exact booked
  | cons ord done ih =>
    rw [map_cons, nodup_cons] at nd
    refine ih (booked.finishOne (trkd ord mem_cons_self) (ends ord mem_cons_self)) nd.2 (fun alt mem
      => ?_) fun alt mem => ends alt (mem_cons_of_mem _ mem)
    have different : alt.orderId ≠ ord.orderId := fun same => nd.1 (mem_map.mpr ⟨alt, mem, same⟩)
    simpa [ReportedTask.finishOne, different] using trkd alt (mem_cons_of_mem _ mem)

section

variable (booked : Booked exchange task recorded late)

include booked

theorem pruneTerminalOrders {ords : String → Option OrderEnd}
    (shows_ : exchange.ShowsIn (.prune ords)) :
    Booked exchange (task.pruneTerminalOrders ords) recorded late := by
  have hit : ∀ oid ord,
      (ords oid).filter (fun ord => ord.lifecycle.isTerminal) = some ord →
      exchange.Ends oid ord := by
    intro oid ord isEnd
    rw [Option.filter_eq_some_iff] at isEnd
    exact shows_ oid ord isEnd.1 isEnd.2
  have ids : (task.finishedOrders ords).map OrderEnd.orderId =
      task.trackedOrders.filter fun oid =>
        ((ords oid).filter fun ord => ord.lifecycle.isTerminal).isSome := by
    rw [ReportedTask.finishedOrders]
    generalize task.trackedOrders = trk
    induction trk with
    | nil => rfl
    | cons oid trk ih =>
      rw [filterMap_cons, filter_cons]
      cases isEnd : (ords oid).filter fun ord => ord.lifecycle.isTerminal with
      | none => simpa using ih
      | some ord => simpa [(hit oid ord isEnd).1] using ih
  rw [task.pruneTerminalOrders_eq]
  refine booked.finishAll _ ?_ (fun ord mem => ?_) fun ord mem => ?_
  · rw [ids]
    exact booked.trackedDistinct.filter _
  · have inIds := mem_map_of_mem (f := OrderEnd.orderId) mem
    rw [ids] at inIds
    exact mem_of_mem_filter inIds
  · obtain ⟨oid, -, isEnd⟩ := mem_filterMap.mp mem
    have ends := hit oid ord isEnd
    rw [ends.1]
    exact ends

/-! ## The other moments -/

theorem inserted {requestSeq : Nat} {oid : String} {want : DesiredOrder}
    (new : oid ∉ task.knownOrderIds) (req : want.volume = exchange.requested oid) :
    Booked exchange (task.inserted requestSeq oid want) recorded late := by
  have untraded : ∀ td ∈ recorded, td.orderId ≠ oid := fun td mem own =>
    new (own ▸ booked.known td mem)
  refine
    { booked with
      known := fun td mem => mem_append_left _ (booked.known td mem)
      lateEnded := fun td mem trkd => ?_
      orders := by simp [ReportedTask.inserted, TargetPosTaskExecutionReport.recordInsertOrder,
        booked.orders]
      knownDistinct := booked.knownDistinct.append (nodup_singleton _) (by simpa using new)
      tracked := fun alt trkd => ?_
      trackedDistinct := booked.trackedDistinct.append (nodup_singleton _) ?_
      reports := fun ord mem => ?_ }
  · rcases mem_append.mp trkd with was | isNew
    · exact booked.lateEnded td mem was
    · exact untraded td (booked.lateRecorded mem) (mem_singleton.mp isNew)
  · rcases mem_append.mp trkd with was | isNew
    · exact mem_append_left _ (booked.tracked was)
    · exact mem_append_right _ isNew
  · simpa using fun trkd => new (booked.tracked trkd)
  · rcases mem_append.mp mem with was | isNew
    · have hld := booked.reports ord was
      have seen : ord.orderId ∈ task.knownOrderIds := booked.orders ▸ mem_map_of_mem was
      have same : ord.orderId ∈ (task.inserted requestSeq oid want).trackedOrders ↔
          ord.orderId ∈ task.trackedOrders := by
        have alt : ord.orderId ≠ oid := fun same => new (same ▸ seen)
        simp [ReportedTask.inserted, alt]
      exact
        { requested := hld.requested
          live := fun still => hld.live (same.mp still)
          ended := fun untrk => hld.ended fun still => untrk (same.mpr still)
          left := fun untrk => hld.left fun still => untrk (same.mpr still) }
    · rw [mem_singleton] at isNew
      subst isNew
      have isTracked : oid ∈ (task.inserted requestSeq oid want).trackedOrders := by
        simp [ReportedTask.inserted]
      exact
        { requested := req
          live := fun _ => (orderVolume_eq_zero untraded).symm
          ended := fun untrk => absurd isTracked untrk
          left := fun untrk => absurd isTracked untrk }

theorem cancelSent (oid : String) : Booked exchange (task.cancelSent oid) recorded late :=
  { booked with
    orders := booked.changed_orders fun _ => rfl
    reports := booked.changed_reports (fun ord mem _ => booked.reports ord mem)
      fun ord mem _ =>
        let hld := booked.reports ord mem
        ⟨hld.requested, hld.live, hld.ended, hld.left⟩ }

theorem act {moment : TaskMoment} (shown : exchange.ShowsIn moment)
    (new : ∀ oid ∈ moment.insertedId, oid ∉ task.knownOrderIds) :
    Booked exchange (task.act moment) recorded late := by
  cases moment with
  | prune ords => exact booked.pruneTerminalOrders shown
  | inserted requestSeq oid want => exact booked.inserted (new oid rfl) shown
  | cancelSent oid => exact booked.cancelSent oid
  | reached requestSeq tgt => exact { booked with }

end

end Booked

/-! ## Runs -/

namespace ReportedTask

theorem act_known (task : ReportedTask) (moment : TaskMoment) :
    (task.act moment).knownOrderIds = task.knownOrderIds ++ moment.insertedId.toList := by
  cases moment with
  | prune ords =>
    rw [act, pruneTerminalOrders_eq, foldl_finishOne]
    simp [TaskMoment.insertedId]
  | inserted requestSeq oid want => rfl
  | cancelSent oid => simp [act, cancelSent, TaskMoment.insertedId]
  | reached requestSeq tgt => simp [act, reached, TaskMoment.insertedId]

end ReportedTask

namespace Booked

variable {exchange : Exchange} {task : ReportedTask} {recorded late : List Trade}
  (addTurnover : AddTurnover)

theorem acts (moments : List TaskMoment) (booked : Booked exchange task recorded late)
    (shown : ∀ moment ∈ moments, exchange.ShowsIn moment)
    (new : (task.knownOrderIds ++ moments.filterMap TaskMoment.insertedId).Nodup) :
    Booked exchange (moments.foldl ReportedTask.act task) recorded late ∧
      (moments.foldl ReportedTask.act task).knownOrderIds =
        task.knownOrderIds ++ moments.filterMap TaskMoment.insertedId := by
  induction moments generalizing task with
  | nil => exact ⟨booked, (append_nil _).symm⟩
  | cons moment moments ih =>
    have split : (moment :: moments).filterMap TaskMoment.insertedId =
        moment.insertedId.toList ++ moments.filterMap TaskMoment.insertedId := by
      rw [filterMap_cons]
      cases moment.insertedId <;> rfl
    rw [split, ← append_assoc, ← ReportedTask.act_known] at new
    have next := booked.act (shown moment mem_cons_self) fun oid isNew seen => by
      rw [ReportedTask.act_known] at new
      exact (nodup_append.mp (nodup_append.mp new).1).2.2 oid seen oid
        (Option.mem_toList.mpr isNew) rfl
    obtain ⟨post, seen⟩ := ih next (fun alt mem => shown alt (mem_cons_of_mem _ mem)) new
    exact ⟨post, by rw [foldl_cons, seen, ReportedTask.act_known, split,
      append_assoc]⟩

theorem processWaitUpdate (upd : TaskUpdate) (booked : Booked exchange task recorded late)
    (shown : exchange.Shows upd)
    (new : (task.knownOrderIds ++ upd.moments.filterMap TaskMoment.insertedId).Nodup) :
    ∃ recorded' more,
      Booked exchange (task.processWaitUpdate addTurnover upd) recorded' (late ++ more) ∧
      (task.processWaitUpdate addTurnover upd).knownOrderIds =
        task.knownOrderIds ++ upd.moments.filterMap TaskMoment.insertedId ∧
      (more = [] ↔ task.InTime upd) := by
  have ofShown : ∀ td ∈ task.shownTrades upd,
      td ∈ exchange.trades ∧ td.orderId ∈ task.knownOrderIds := by
    unfold ReportedTask.shownTrades
    intro td mem
    split at mem
    · cases mem
    · obtain ⟨hit, seen⟩ := mem_filter.mp mem
      obtain ⟨tradeId, -, isTrade⟩ := mem_filterMap.mp hit
      exact ⟨(shown.trades tradeId td isTrade).2, of_decide_eq_true seen⟩
  obtain ⟨recorded', more, post, seen, inTime⟩ :=
    booked.recordTrades addTurnover (task.shownTrades upd)
      (fun td mem => (ofShown td mem).1) fun td mem => (ofShown td mem).2
  rw [← ReportedTask.recordCommitTrades_eq] at post seen
  obtain ⟨fin, knownFinal⟩ := post.acts upd.moments shown.moments (seen ▸ new)
  exact ⟨recorded', more, fin, by rw [ReportedTask.processWaitUpdate, knownFinal, seen], inTime⟩

theorem run (upds : List TaskUpdate) (booked : Booked exchange task recorded late)
    (shown : ∀ upd ∈ upds, exchange.Shows upd)
    (new : (task.knownOrderIds ++ insertedIds upds).Nodup) :
    ∃ recorded' more,
      Booked exchange (task.run addTurnover upds) recorded' (late ++ more) ∧
      (more = [] ↔ task.RunsInTime addTurnover upds) := by
  induction upds generalizing task recorded late with
  | nil => exact ⟨recorded, [], by simpa [ReportedTask.run] using booked,
      by simp [ReportedTask.RunsInTime]⟩
  | cons upd upds ih =>
    have split : insertedIds (upd :: upds) =
        upd.moments.filterMap TaskMoment.insertedId ++ insertedIds upds := by
      simp [insertedIds]
    rw [split, ← append_assoc] at new
    obtain ⟨recorded', more, next, seen, inTime⟩ :=
      booked.processWaitUpdate addTurnover upd (shown upd mem_cons_self) (nodup_append.mp new).1
    obtain ⟨fin, later, post, restInTime⟩ := ih next
      (fun alt mem => shown alt (mem_cons_of_mem _ mem)) (seen ▸ new)
    rw [append_assoc] at post
    exact ⟨fin, more ++ later, post, by
      rw [append_eq_nil_iff, inTime, restInTime, ReportedTask.RunsInTime]⟩

/-- Every trade of the task's orders is recorded once they are all processed. -/
theorem orderVolume_recorded (booked : Booked exchange task recorded late)
    (processed : task.Processed exchange) {oid : String} (old : oid ∈ task.knownOrderIds) :
    orderVolume oid recorded = exchange.filled oid := by
  have perm : (recorded.filter fun td => td.orderId = oid).Perm
      (exchange.trades.filter fun td => td.orderId = oid) := by
    refine (perm_ext_iff_of_nodup (booked.recordedDistinct.of_map.filter _)
      (exchange.distinct.of_map.filter _)).mpr fun td => ?_
    rw [mem_filter, mem_filter]
    refine and_congr_left fun own => ⟨booked.real td, fun real => ?_⟩
    have seen := processed.traded td real (by rw [of_decide_eq_true own]; exact old)
    rw [booked.seen] at seen
    obtain ⟨alt, mem, same⟩ := mem_map.mp seen
    rwa [← inj_on_of_nodup_map exchange.distinct (booked.real alt mem) real same]
  exact (perm.map Trade.volume).sum_eq

/-- The totals of a task that is through with its orders are those of the exchange when no trade
came late, and only then if trades have positive volumes. -/
theorem agrees_iff (booked : Booked exchange task recorded late)
    (processed : task.Processed exchange) :
    (late = [] → task.Agrees exchange) ∧
      ((∀ td ∈ exchange.trades, 0 < td.volume) → task.Agrees exchange → late = []) := by
  have untrk : ∀ oid, oid ∉ task.trackedOrders := by simp [processed.ended]
  refine ⟨fun none => ?_, fun pos agr => ?_⟩
  · subst none
    have full : ∀ ord ∈ task.report.orders,
        ord.filledVolume = exchange.filled ord.orderId := fun ord mem => by
      rw [(booked.reports ord mem).ended (untrk _), orderVolume_nil, add_zero]
    refine ⟨full, fun ord mem => ?_, ?_⟩
    · rw [full ord mem, (booked.reports ord mem).left (untrk _) (by simp)]
      omega
    · calc task.report.filledVolume
          = tradedVolume recorded := booked.total
        _ = (task.knownOrderIds.map fun oid => orderVolume oid recorded).sum :=
            (sum_orderVolume booked.knownDistinct recorded booked.known).symm
        _ = (task.knownOrderIds.map exchange.filled).sum := by
            rw [map_congr_left fun oid seen => booked.orderVolume_recorded processed seen]
        _ = (task.report.orders.map fun ord => exchange.filled ord.orderId).sum := by
            rw [← booked.orders, map_map]
            rfl
        _ = (task.report.orders.map TargetPosTaskOrderReport.filledVolume).sum := by
            rw [map_congr_left full]
  · rw [eq_nil_iff_forall_not_mem]
    intro td isLate
    have isRecorded := booked.lateRecorded isLate
    have seen := booked.known td isRecorded
    rw [← booked.orders] at seen
    obtain ⟨ord, mem, own⟩ := mem_map.mp seen
    have fin := (booked.reports ord mem).ended (untrk _)
    rw [agr.filled ord mem] at fin
    have more := orderVolume_pos ord.orderId (fun alt isLate =>
      pos alt (booked.real alt (booked.lateRecorded isLate))) isLate own.symm
    omega

end Booked

namespace ReportedTask

/-- A run whose orders have all ended and whose trades were all recorded reports the totals of the
exchange when no trade is first shown after the end of its order was recorded, and only then if
trades have positive volumes. -/
theorem run_agrees_iff (addTurnover : AddTurnover) (exchange : Exchange) (accountId : AccountId)
    (updates : List TaskUpdate) (shown : ∀ update ∈ updates, exchange.Shows update)
    (fresh : (insertedIds updates).Nodup)
    (processed : (run addTurnover { accountId } updates).Processed exchange) :
    (RunsInTime addTurnover { accountId } updates →
        (run addTurnover { accountId } updates).Agrees exchange) ∧
      ((∀ trade ∈ exchange.trades, 0 < trade.volume) →
        (run addTurnover { accountId } updates).Agrees exchange →
        RunsInTime addTurnover { accountId } updates) := by
  obtain ⟨recorded, late, booked, inTime⟩ :=
    (booked_new exchange accountId).run addTurnover updates shown
      (by simpa using fresh)
  rw [nil_append] at booked
  obtain ⟨fits, needed⟩ := booked.agrees_iff processed
  exact ⟨fun timely => fits (inTime.mpr timely),
    fun pos agr => inTime.mp (needed pos agr)⟩

instance (task : ReportedTask) (update : TaskUpdate) : Decidable (task.InTime update) :=
  inferInstanceAs (Decidable (∀ trade ∈ task.shownTrades update,
    trade.tradeId ∉ task.seenTradeIds → trade.orderId ∈ task.trackedOrders))

/-- The sum of exact numbers. -/
def exactTurnover : AddTurnover
  | .finite total, .finite price, volume => .finite (total + price * volume)
  | _, _, _ => .nan

/-- An order of five, filled by one trade. -/
def filledOnce : Exchange where
  requested _ := 5
  trades := [⟨"trade-1", "wait-order-1", some .buy, some .open_, 5, .finite 100, 0⟩]
  distinct := by decide

def insertion : TaskUpdate where
  commit := none
  trades _ := none
  moments := [.inserted 1 "wait-order-1" ⟨.buy, .open_, 5, .finite 100⟩]

def filledOrder (orderId : String) : Option OrderEnd :=
  if orderId = "wait-order-1" then some ⟨"wait-order-1", 5, 0, "FINISHED", "", .filled⟩ else none

def onlyTrade (tradeId : TradeId) : Option Trade :=
  if tradeId = "trade-1" then
    some ⟨"trade-1", "wait-order-1", some .buy, some .open_, 5, .finite 100, 0⟩
  else none

/-- The trade and the end of the order in one commit. -/
def together : List TaskUpdate :=
  [insertion, ⟨some [.trade "sim" "trade-1", .order "sim" "wait-order-1"], onlyTrade,
    [.prune filledOrder]⟩]

/-- The end of the order, and the trade in the commit after it. -/
def tradeAfterEnd : List TaskUpdate :=
  [insertion, ⟨some [.order "sim" "wait-order-1"], fun _ => none, [.prune filledOrder]⟩,
    ⟨some [.trade "sim" "trade-1"], onlyTrade, []⟩]

theorem shows_insertion : filledOnce.Shows insertion where
  trades _ _ isTrade := by cases isTrade
  moments moment member := by
    rw [mem_singleton.mp member]
    rfl

theorem shows_filledOrder : filledOnce.ShowsIn (.prune filledOrder) := by
  intro oid ord isEnd _
  unfold filledOrder at isEnd
  split at isEnd
  · rename_i same
    cases isEnd
    subst same
    exact ⟨rfl, rfl, by decide⟩
  · cases isEnd

theorem shows_onlyTrade (tradeId : TradeId) (td : Trade) (isTrade : onlyTrade tradeId = some td) :
    td.tradeId = tradeId ∧ td ∈ filledOnce.trades := by
  unfold onlyTrade at isTrade
  split at isTrade
  · rename_i same
    cases isTrade
    exact ⟨same.symm, mem_singleton.mpr rfl⟩
  · cases isTrade

theorem run_agrees_iff_together :
    (run exactTurnover { accountId := "sim" } together).Agrees filledOnce := by
  refine (run_agrees_iff exactTurnover filledOnce "sim" together (fun upd mem => ?_)
    (by decide) ⟨by decide, by decide⟩).1 ⟨by decide, by decide, trivial⟩
  simp only [together, mem_cons, not_mem_nil, or_false] at mem
  rcases mem with rfl | rfl
  · exact shows_insertion
  · refine ⟨shows_onlyTrade, fun moment mem => ?_⟩
    rw [mem_singleton.mp mem]
    exact shows_filledOrder

/-- The volume of a trade that is shown after the end of its order is counted twice. -/
theorem not_agrees_tradeAfterEnd :
    ¬ ∀ (exchange : Exchange) (accountId : AccountId) (updates : List TaskUpdate),
      (∀ update ∈ updates, exchange.Shows update) → (insertedIds updates).Nodup →
      (run exactTurnover { accountId } updates).Processed exchange →
      (run exactTurnover { accountId } updates).Agrees exchange := by
  intro agr
  have shown : ∀ update ∈ tradeAfterEnd, filledOnce.Shows update := by
    intro update mem
    simp only [tradeAfterEnd, mem_cons, not_mem_nil, or_false] at mem
    rcases mem with rfl | rfl | rfl
    · exact shows_insertion
    · refine ⟨fun _ _ isTrade => (by cases isTrade), fun moment mem => ?_⟩
      rw [mem_singleton.mp mem]
      exact shows_filledOrder
    · exact ⟨shows_onlyTrade, fun _ mem => (by cases mem)⟩
  have totals := agr filledOnce "sim" tradeAfterEnd shown (by decide) ⟨by decide, by decide⟩
  exact absurd totals.total (by decide)

end ReportedTask

end Tqsdk
