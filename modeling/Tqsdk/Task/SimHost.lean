import Tqsdk.Runtime.Outbound
import Tqsdk.Task.Sim

/-!
# The simulated account behind a task host

`process_host_orders_with_guard` of `sim.rs`: the outbound orders of a task host are drained,
applied to the simulator one after the other and published in the trade state of the host.

The trade state of the account is kept as tables of records here instead of documents: the
simulator publishes every record with all its fields, so that the patch replaces it.  An order
passes the lifecycle check of the runtime on its way into the tables, which also writes the
lifecycle that it infers from the other fields.
-/

namespace Tqsdk

/-! ## Outbound requests -/

/-- What `from_outbound` tells apart: the document of a transport frame, if it parses, and
requests of other kinds. -/
inductive OutboundRequest
  | text (payload : Option Value)
  | binary (payload : Option Value)
  | other
  deriving DecidableEq

/-- `Value::as_f64`, where an integer stands for itself. -/
def Value.asF64 : Value → Option ℚ
  | .number (.posInt n) => some n
  | .number (.negInt n) => some n
  | .number (.float value) => some value
  | _ => none

def TradeDirection.fromProtocolStr : String → Option TradeDirection
  | "BUY" => some .buy
  | "SELL" => some .sell
  | _ => none

def TradeOffset.fromProtocolStr : String → Option TradeOffset
  | "OPEN" => some .open_
  | "CLOSE" => some .close
  | "CLOSETODAY" => some .closeToday
  | _ => none

def TradePriceType.fromProtocolStr : String → Option TradePriceType
  | "ANY" => some .any
  | "LIMIT" => some .limit
  | "BEST" => some .best
  | "FIVELEVEL" => some .fiveLevel
  | _ => none

/-- `ok_or`. -/
def orInvalid {α : Type} (value : Option α) (message : String) : Except TaskError α :=
  match value with
  | some value => .ok value
  | none => .error (.invalidState message)

def requiredString (payload : Value) (key : String) : Except TaskError String :=
  orInvalid ((payload.get key).bind Value.asStr) "sim payload missing string field"

def requiredI64 (payload : Value) (key : String) : Except TaskError Int :=
  orInvalid ((payload.get key).bind Value.asI64) "sim payload missing integer field"

/-- The part of `from_outbound` for a payload that asks for an order. -/
def TqSimOrderRequest.fromPayload (payload : Value) : Except TaskError TqSimOrderRequest := do
  let exchangeId ← requiredString payload "exchange_id"
  let instrumentId ← requiredString payload "instrument_id"
  let direction ← orInvalid (TradeDirection.fromProtocolStr (← requiredString payload "direction"))
    "sim order direction is invalid"
  let offset ← orInvalid (TradeOffset.fromProtocolStr (← requiredString payload "offset"))
    "sim order offset is invalid"
  let priceType ← orInvalid
    (TradePriceType.fromProtocolStr (← requiredString payload "price_type"))
    "sim order price type is invalid"
  let limitPrice := (payload.get "limit_price").bind Value.asF64
  return {
    orderId := ← requiredString payload "order_id"
    symbol := exchangeId ++ "." ++ instrumentId
    direction := direction
    offset := offset
    volume := ← requiredI64 payload "volume"
    priceType := priceType
    limitPrice := limitPrice }

def asksForOrder (payload : Value) : Bool :=
  (payload.get "aid").bind Value.asStr == some "insert_order"

def TqSimOrderRequest.fromOutbound (request : OutboundRequest) :
    Except TaskError (Option TqSimOrderRequest) :=
  let decode (payload : Value) : Except TaskError (Option TqSimOrderRequest) :=
    if asksForOrder payload then (fromPayload payload).map some else .ok none
  match request with
  | .text none => .error (.invalidState "sim received invalid text payload")
  | .binary none => .error (.invalidState "sim received invalid binary payload")
  | .text (some payload) | .binary (some payload) => decode payload
  | .other => .ok none

/-- The request is an `insert_order`, whether its fields can be read or not. -/
def OutboundRequest.isInsertOrder : OutboundRequest → Bool
  | .text (some payload) | .binary (some payload) => asksForOrder payload
  | _ => false

/-! ## The trade state of the account -/

structure SimTradeState where
  account : Option SimAccount := none
  orders : List (String × SimOrderSnapshot) := []
  trades : List (String × SimTrade) := []
  positions : List (String × SimPosition) := []
  deriving DecidableEq

/-- Records are stored under their keys, a later one over an earlier one. -/
def storeAll {α : Type} (key : α → String) (records : List α) (table : List (String × α)) :
    List (String × α) :=
  records.foldl (fun table record => OrdMap.insert (key record) record table) table

/-- `infer_from_order_value_ignoring_lifecycle` on the document of an order; the simulator gives
no `is_error`. -/
def SimOrderSnapshot.inferredLifecycle (order : SimOrderSnapshot) : Option OrderLifecycle :=
  OrderLifecycle.infer (some order.status) (some order.isDead) none (some order.volumeOrigin)
    (some order.volumeLeft) (some order.lastMsg)

/-- The turn of `normalize_order_lifecycle_mutations` for a published order. -/
def SimTradeState.normalizeOrder (trade : SimTradeState) (accountId : AccountId)
    (order : SimOrderSnapshot) : Except ContractError SimOrderSnapshot :=
  match order.inferredLifecycle with
  | none => .ok order
  | some next =>
    match OrdMap.get? order.orderId trade.orders with
    | none => .ok { order with lifecycle := next }
    | some current =>
      if current.lifecycle.canTransitionTo next then .ok { order with lifecycle := next }
      else .error (lifecycleTransitionError accountId order.orderId current.lifecycle next)

def SimTradeState.normalizeOrders (trade : SimTradeState) (accountId : AccountId) :
    List (String × SimOrderSnapshot) → Except ContractError (List SimOrderSnapshot)
  | [] => .ok []
  | (_, order) :: rest => do
      let order ← trade.normalizeOrder accountId order
      let rest ← trade.normalizeOrders accountId rest
      return order :: rest

/-- `ingest_trade_report`.  The orders of a report are collected by their id before they are
checked, so only the last one of an id counts. -/
def SimTradeState.ingestTradeReport (trade : SimTradeState) (accountId : AccountId)
    (report : TqSimStepReport) : Except TaskError SimTradeState :=
  if report.isEmpty then .ok trade
  else
    match trade.normalizeOrders accountId
        (storeAll SimOrderSnapshot.orderId report.orders []) with
    | .error error => .error (.core error)
    | .ok orders => .ok
        { account := report.account.or trade.account
          orders := storeAll SimOrderSnapshot.orderId orders trade.orders
          trades := storeAll SimTrade.tradeId report.trades trade.trades
          positions := storeAll SimPosition.symbol report.positions trade.positions }

/-! ## The host -/

structure SimHost where
  runtime : OutboundState OutboundRequest
  trade : SimTradeState

/-- The host once `drain_dispatches` has taken the queue. -/
def SimHost.drained (host : SimHost) : SimHost :=
  { host with runtime := { host.runtime with outbound := [] } }

def SimHost.recordCommandStatus (host : SimHost) (commandId : CommandId) (status : CommandStatus)
    (detail : Option Value) : Except TaskError SimHost :=
  match host.runtime.records.recordCommandStatus commandId status detail .replayStep with
  | .error error => .error (.core error)
  | .ok (records, commit) => .ok { host with
      runtime := { host.runtime with
        records := records
        recorded := if commit.isSome then host.runtime.recorded ++ [(commandId, status)]
          else host.runtime.recorded } }

/-- The loop over `terminal_statuses`. -/
def SimHost.recordAll : List (CommandId × CommandStatus) → SimHost → SimHost × Option TaskError
  | [], host => (host, none)
  | (commandId, status) :: rest, host =>
    match host.recordCommandStatus commandId status none with
    | .error error => (host, some error)
    | .ok host => recordAll rest host

/-- A guard answers a call with an error or lets the order pass.  It may remember the calls that
were made before. -/
abbrev Guard := List (String × TradeOffset) → Option TaskError

/-- The simulator and its host inside `process_host_orders_with_guard`: `calls` are those of the
guard, and `applied` gives `command_ids` and `terminal_statuses`. -/
structure SimBatch where
  sim : TqSim
  host : SimHost
  calls : List (String × TradeOffset) := []
  report : TqSimStepReport := {}
  applied : List (OutboundDispatch OutboundRequest × SimOrderOutcome) := []

namespace SimBatch

def terminalStatuses (batch : SimBatch) : List (CommandId × CommandStatus) :=
  batch.applied.filterMap fun entry =>
    entry.2.commandStatus.map fun status => (entry.1.commandId, status)

section Process

-- `display` gives the text of an error
variable (display : TaskError → String) (guard : Guard)

/-- One turn of the loop; the error is the one that is returned at once. -/
def turn (batch : SimBatch) (dispatch : OutboundDispatch OutboundRequest) :
    SimBatch × Option TaskError :=
  match TqSimOrderRequest.fromOutbound dispatch.request with
  | .error error => (batch, some error)
  | .ok none => (batch, none)
  | .ok (some request) =>
    let request := batch.sim.resolveOrderRequest request
    let batch := { batch with calls := batch.calls ++ [(request.symbol, request.offset)] }
    match guard batch.calls with
    | some error =>
      match batch.host.recordCommandStatus dispatch.commandId .rejected
          (some (.object [("reason", .string (display error))])) with
      | .error error => (batch, some error)
      | .ok host => ({ batch with host := host }, some error)
    | none =>
      match batch.host.recordCommandStatus dispatch.commandId .sent none with
      | .error error => (batch, some error)
      | .ok host =>
        let batch := { batch with host := host }
        match batch.sim.applyOrder
            ⟨request, some dispatch.commandId, true, batch.sim.currentTimeNs, none⟩ with
        | .error error => (batch, some error)
        | .ok (sim, outcome) =>
          ({ batch with
              sim := sim
              report := batch.report.extend (sim.reportFromOutcomes [outcome])
              applied := batch.applied ++ [(dispatch, outcome)] }, none)

def loop : List (OutboundDispatch OutboundRequest) → SimBatch → SimBatch × Option TaskError
  | [], batch => (batch, none)
  | dispatch :: rest, batch =>
    match turn display guard batch dispatch with
    | (batch, none) => loop rest batch
    | (batch, some error) => (batch, some error)

/-- The report is published once all orders are applied. -/
def publish (batch : SimBatch) : SimBatch × Except TaskError TqSimStepReport :=
  match batch.host.trade.ingestTradeReport batch.sim.accountId batch.report with
  | .error error => (batch, .error error)
  | .ok trade =>
    match SimHost.recordAll batch.terminalStatuses { batch.host with trade := trade } with
    | (host, none) => ({ batch with host := host }, .ok batch.report)
    | (host, some error) => ({ batch with host := host }, .error error)

end Process

end SimBatch

/-- `process_host_orders_with_guard`, with the simulator and the host that it leaves. -/
def TqSim.processHostOrdersWithGuard (display : TaskError → String) (guard : Guard) (sim : TqSim)
    (host : SimHost) : SimBatch × Except TaskError TqSimStepReport :=
  -- the queue is taken before any of its requests is looked at
  match host.runtime.records.ledger.drain host.runtime.outbound with
  | .error error => ({ sim := sim, host := host.drained }, .error (.core error))
  | .ok dispatches =>
    match SimBatch.loop display guard dispatches { sim := sim, host := host.drained } with
    | (batch, some error) => (batch, .error error)
    | (batch, none) => batch.publish

end Tqsdk
