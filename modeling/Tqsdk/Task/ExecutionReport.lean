import Tqsdk.Task.TargetPos

/-!
# The execution report of a target position task

`target_pos/report.rs`, with the parts of `target_pos/machine.rs` that write it: the orders a task
submits and cancels, the trades that a commit brings, and the orders that are found to have ended.
Both the trades and the end of an order write the volumes of its report.
-/

namespace Tqsdk

def TradeDirection.asStr : TradeDirection → String
  | .buy => "BUY"
  | .sell => "SELL"

def TradeOffset.asStr : TradeOffset → String
  | .open_ => "OPEN"
  | .close => "CLOSE"
  | .closeToday => "CLOSETODAY"

/-- What the report reads of an `Order`. -/
structure OrderEnd where
  orderId : String
  volumeOrigin : Int
  volumeLeft : Int
  status : String
  lastMsg : String
  lifecycle : OrderLifecycle
  deriving DecidableEq

structure Trade where
  tradeId : String
  orderId : String
  direction : Option TradeDirection
  offset : Option TradeOffset
  volume : Int
  price : F64
  tradeDateTime : Int
  deriving DecidableEq

inductive TargetPosTaskExecutionEvent
  | insertOrder (requestSeq : Nat) (orderId : String) (direction : TradeDirection)
      (offset : TradeOffset) (volume : Int) (limitPrice : F64)
  | cancelOrder (orderId : String)
  | orderFinished (orderId status : String) (filledVolume remainingVolume : Int) (lastMsg : String)
  | trade (tradeId orderId direction offset : String) (volume : Int) (price : F64)
      (tradeDateTime : Int)
  | targetReached (requestSeq : Nat) (targetVolume : Int)
  deriving DecidableEq

structure TargetPosTaskTradeFill where
  tradeId : String
  orderId : String
  direction : String
  offset : String
  volume : Int
  price : F64
  tradeDateTime : Int
  deriving DecidableEq

def TargetPosTaskTradeFill.ofTrade (trade : Trade) : TargetPosTaskTradeFill where
  tradeId := trade.tradeId
  orderId := trade.orderId
  direction := (trade.direction.map TradeDirection.asStr).getD ""
  offset := (trade.offset.map TradeOffset.asStr).getD ""
  volume := trade.volume
  price := trade.price
  tradeDateTime := trade.tradeDateTime

structure TargetPosTaskOrderReport where
  requestSeq : Nat
  orderId : String
  direction : TradeDirection
  offset : TradeOffset
  requestedVolume : Int
  limitPrice : F64
  cancelRequested : Bool
  status : Option String
  filledVolume : Int
  remainingVolume : Int
  lastMsg : Option String
  tradeCount : Nat
  filledTurnover : F64
  deriving DecidableEq

structure TargetPosTaskExecutionReport where
  events : List TargetPosTaskExecutionEvent := []
  trades : List TargetPosTaskTradeFill := []
  orders : List TargetPosTaskOrderReport := []
  submittedOrderCount : Nat := 0
  cancelRequestCount : Nat := 0
  finishedOrderCount : Nat := 0
  filledVolume : Int := 0
  filledTurnover : F64 := .finite 0
  lastReachedTarget : Option (Nat × Int) := none
  deriving DecidableEq

/-! ## Writing the report -/

/-- `order_report_mut`: the first report of the order is changed, if there is one. -/
def changeOrderReport (orderId : String)
    (change : TargetPosTaskOrderReport → TargetPosTaskOrderReport) :
    List TargetPosTaskOrderReport → List TargetPosTaskOrderReport
  | [] => []
  | order :: orders =>
    if order.orderId = orderId then change order :: orders
    else order :: changeOrderReport orderId change orders

/-- The sum `total + price * volume as f64`. -/
abbrev AddTurnover := F64 → F64 → Int → F64

namespace TargetPosTaskOrderReport

def finish (order : TargetPosTaskOrderReport) (ended : OrderEnd) : TargetPosTaskOrderReport :=
  { order with
    status := some ended.status
    filledVolume := ended.volumeOrigin - ended.volumeLeft
    remainingVolume := ended.volumeLeft
    lastMsg := some ended.lastMsg }

def fill (addTurnover : AddTurnover) (order : TargetPosTaskOrderReport)
    (fill : TargetPosTaskTradeFill) : TargetPosTaskOrderReport :=
  { order with
    tradeCount := order.tradeCount + 1
    filledVolume := order.filledVolume + fill.volume
    remainingVolume := max (order.requestedVolume - (order.filledVolume + fill.volume)) 0
    filledTurnover := addTurnover order.filledTurnover fill.price fill.volume }

end TargetPosTaskOrderReport

namespace TargetPosTaskExecutionReport

variable (report : TargetPosTaskExecutionReport)

def recordInsertOrder (requestSeq : Nat) (orderId : String) (desired : DesiredOrder) :
    TargetPosTaskExecutionReport :=
  { report with
    submittedOrderCount := report.submittedOrderCount + 1
    orders := report.orders ++
      [{ requestSeq, orderId
         direction := desired.direction
         offset := desired.offset
         requestedVolume := desired.volume
         limitPrice := desired.limitPrice
         cancelRequested := false
         status := none
         filledVolume := 0
         remainingVolume := desired.volume
         lastMsg := none
         tradeCount := 0
         filledTurnover := .finite 0 }]
    events := report.events ++ [.insertOrder requestSeq orderId desired.direction desired.offset
      desired.volume desired.limitPrice] }

def recordCancelOrder (orderId : String) : TargetPosTaskExecutionReport :=
  { report with
    cancelRequestCount := report.cancelRequestCount + 1
    orders := changeOrderReport orderId (fun order => { order with cancelRequested := true })
      report.orders
    events := report.events ++ [.cancelOrder orderId] }

def recordOrderFinished (order : OrderEnd) : TargetPosTaskExecutionReport :=
  { report with
    finishedOrderCount := report.finishedOrderCount + 1
    orders := changeOrderReport order.orderId (·.finish order) report.orders
    events := report.events ++ [.orderFinished order.orderId order.status
      (order.volumeOrigin - order.volumeLeft) order.volumeLeft order.lastMsg] }

def recordTargetReached (requestSeq : Nat) (targetVolume : Int) : TargetPosTaskExecutionReport :=
  { report with
    lastReachedTarget := some (requestSeq, targetVolume)
    events := report.events ++ [.targetReached requestSeq targetVolume] }

def recordTrade (addTurnover : AddTurnover) (report : TargetPosTaskExecutionReport)
    (trade : Trade) : TargetPosTaskExecutionReport :=
  let fill := TargetPosTaskTradeFill.ofTrade trade
  { report with
    filledVolume := report.filledVolume + fill.volume
    filledTurnover := addTurnover report.filledTurnover fill.price fill.volume
    orders := changeOrderReport fill.orderId (·.fill addTurnover fill) report.orders
    events := report.events ++ [.trade fill.tradeId fill.orderId fill.direction fill.offset
      fill.volume fill.price fill.tradeDateTime]
    trades := report.trades ++ [fill] }

end TargetPosTaskExecutionReport

/-! ## The task -/

/-- The fields of `TargetPosTaskState` that go with the report, and the account of the task. -/
structure ReportedTask where
  accountId : AccountId
  trackedOrders : List String := []
  knownOrderIds : List String := []
  cancelRequestedOrderIds : List String := []
  seenTradeIds : List String := []
  report : TargetPosTaskExecutionReport := {}
  deriving DecidableEq

namespace ReportedTask

variable (task : ReportedTask)

/-- The trades of the account among the objects that a commit changed. -/
def hitTradeIds (objectHits : List ObjectKey) : List TradeId :=
  objectHits.filterMap fun
    | .trade accountId tradeId => if accountId = task.accountId then some tradeId else none
    | _ => none

def recordTradeOnce (addTurnover : AddTurnover) (task : ReportedTask) (trade : Trade) :
    ReportedTask :=
  if trade.tradeId ∈ task.seenTradeIds then task
  else
    { task with
      seenTradeIds := task.seenTradeIds ++ [trade.tradeId]
      report := task.report.recordTrade addTurnover trade }

/-- One turn of the loop of `record_commit_trades`. -/
def recordHit (addTurnover : AddTurnover) (knownOrderIds : List String)
    (trades : TradeId → Option Trade) (task : ReportedTask) (tradeId : TradeId) : ReportedTask :=
  match trades tradeId with
  | none => task
  | some trade =>
    if trade.orderId ∉ knownOrderIds then task else task.recordTradeOnce addTurnover trade

def recordCommitTrades (addTurnover : AddTurnover) (task : ReportedTask)
    (commit : Option (List ObjectKey)) (trades : TradeId → Option Trade) : ReportedTask :=
  match commit with
  | none => task
  | some objectHits =>
    let tradeIds := task.hitTradeIds objectHits
    if tradeIds.isEmpty then task
    else if task.knownOrderIds.isEmpty then task
    else tradeIds.foldl (recordHit addTurnover task.knownOrderIds trades) task

def pruneTerminalOrders (orders : String → Option OrderEnd) : ReportedTask :=
  let finishedOrders := task.trackedOrders.filterMap fun orderId =>
    (orders orderId).filter fun order => order.lifecycle.isTerminal
  if finishedOrders.isEmpty then task
  else
    let finishedOrderIds := finishedOrders.map OrderEnd.orderId
    { task with
      report := finishedOrders.foldl TargetPosTaskExecutionReport.recordOrderFinished task.report
      trackedOrders := task.trackedOrders.filter (!finishedOrderIds.contains ·)
      cancelRequestedOrderIds :=
        task.cancelRequestedOrderIds.filter (!finishedOrderIds.contains ·) }

/-- `track_order`, then `record_insert_order`. -/
def inserted (requestSeq : Nat) (orderId : String) (desired : DesiredOrder) : ReportedTask :=
  { task with
    knownOrderIds := task.knownOrderIds ++ [orderId]
    trackedOrders := task.trackedOrders ++ [orderId]
    report := task.report.recordInsertOrder requestSeq orderId desired }

/-- An order whose cancellation was sent. -/
def cancelSent (orderId : String) : ReportedTask :=
  { task with
    cancelRequestedOrderIds := task.cancelRequestedOrderIds ++ [orderId]
    report := task.report.recordCancelOrder orderId }

def reached (requestSeq : Nat) (targetVolume : Int) : ReportedTask :=
  { task with report := task.report.recordTargetReached requestSeq targetVolume }

end ReportedTask

/-! ## Runs -/

/-- What a task does in an update once the trades of the commit are recorded. -/
inductive TaskMoment
  | prune (orders : String → Option OrderEnd)
  | inserted (requestSeq : Nat) (orderId : String) (desired : DesiredOrder)
  | cancelSent (orderId : String)
  | reached (requestSeq : Nat) (targetVolume : Int)

/-- A call of `process_wait_update`: the last commit of the `TqApi`, the trades it shows, and what
the task then does. -/
structure TaskUpdate where
  commit : Option (List ObjectKey)
  trades : TradeId → Option Trade
  moments : List TaskMoment

namespace ReportedTask

def act (task : ReportedTask) : TaskMoment → ReportedTask
  | .prune orders => task.pruneTerminalOrders orders
  | .inserted requestSeq orderId desired => task.inserted requestSeq orderId desired
  | .cancelSent orderId => task.cancelSent orderId
  | .reached requestSeq targetVolume => task.reached requestSeq targetVolume

def processWaitUpdate (addTurnover : AddTurnover) (task : ReportedTask) (update : TaskUpdate) :
    ReportedTask :=
  update.moments.foldl act (task.recordCommitTrades addTurnover update.commit update.trades)

def run (addTurnover : AddTurnover) (task : ReportedTask) (updates : List TaskUpdate) :
    ReportedTask :=
  updates.foldl (processWaitUpdate addTurnover) task

end ReportedTask

end Tqsdk
