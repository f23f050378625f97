import Tqsdk.Runtime.CommandLedger
import Tqsdk.Task.TargetPos

/-!
# The simulated account

`sim.rs` of `tqsdk-task`: a futures account that matches orders against the latest quotes.

Money and prices are rationals, so the arithmetic is exact; a quote may hold prices that are not
finite.  A hash map is a key-ordered map here.  The one place where the source acts on the
entries of a hash map one after another, `match_pending_for_symbol`, takes the order of its
visit as a parameter.

The symbol of an order or a trade stands for the exchange and the instrument that the source
splits it into.
-/

namespace Tqsdk

open OrdMap

inductive TradePriceType
  | limit | any | best | fiveLevel
  deriving DecidableEq

/-- A limit price that is not finite stands as `none`: `validate_request` refuses both. -/
structure TqSimOrderRequest where
  orderId : String
  symbol : String
  direction : TradeDirection
  offset : TradeOffset
  volume : Int
  priceType : TradePriceType
  limitPrice : Option ℚ
  deriving DecidableEq

/-- An `Order` as the simulator fills it. -/
structure SimOrderSnapshot where
  seqno : Nat
  userId : String
  orderId : String
  exchangeOrderId : String
  symbol : String
  direction : TradeDirection
  offset : TradeOffset
  volumeOrigin : Int
  volumeLeft : Int
  limitPrice : ℚ
  priceType : TradePriceType
  volumeCondition : String
  timeCondition : String
  insertDateTime : Int
  lastMsg : String
  status : String
  lifecycle : OrderLifecycle
  isDead : Bool
  tradePrice : ℚ
  deriving DecidableEq

structure SimTrade where
  seqno : Nat
  userId : String
  orderId : String
  tradeId : String
  exchangeTradeId : String
  symbol : String
  direction : TradeDirection
  offset : TradeOffset
  price : ℚ
  volume : Int
  tradeDateTime : Int
  commission : ℚ
  deriving DecidableEq

structure SimOrder where
  request : TqSimOrderRequest
  commandId : Option Nat
  alive : Bool
  insertedAtNs : Int
  snapshot : Option SimOrderSnapshot
  deriving DecidableEq

/-- The fields of a `Position` from which the source derives those of its two sides. -/
structure SimPosition where
  userId : String
  symbol : String
  pos : Int
  margin : ℚ
  lastPrice : F64
  avgPrice : ℚ
  openCost : ℚ
  floatProfit : ℚ
  marketValue : ℚ
  deriving DecidableEq

structure SimAccount where
  userId : String
  preBalance : ℚ
  balance : ℚ
  available : ℚ
  floatProfit : ℚ
  closeProfit : ℚ
  margin : ℚ
  commission : ℚ
  riskRatio : ℚ
  marketValue : ℚ
  deriving DecidableEq

structure SimOrderOutcome where
  commandId : Option Nat
  order : SimOrderSnapshot
  trade : Option SimTrade
  position : Option SimPosition
  commandStatus : Option CommandStatus
  deriving DecidableEq

structure TqSimStepReport where
  account : Option SimAccount := none
  orders : List SimOrderSnapshot := []
  trades : List SimTrade := []
  positions : List SimPosition := []
  deriving DecidableEq

inductive MatchDecision
  | fill | keepAlive | cancelNoCounterparty
  deriving DecidableEq

/-- `closeProfitBySymbol` is not in the source: it keeps the part of `close_profit` that each
symbol has realised. -/
structure TqSim where
  accountId : String
  initBalance : ℚ
  balance : ℚ
  commission : ℚ := 0
  closeProfit : ℚ := 0
  marginBySymbol : List (String × ℚ) := []
  commissionBySymbol : List (String × ℚ) := []
  contractMultiplierBySymbol : List (String × ℚ) := []
  executionSymbolByStrategySymbol : List (String × String) := []
  quotes : List (String × Quote) := []
  orders : List (String × SimOrder) := []
  positions : List (String × Int) := []
  nonzeroPositionCount : Nat := 0
  avgPriceBySymbol : List (String × ℚ) := []
  trades : List (String × SimTrade) := []
  nextSeq : Nat := 1
  nextTradeSeq : Nat := 1
  currentTimeNs : Int := 0
  closeProfitBySymbol : List (String × ℚ) := []
  deriving DecidableEq

/-! ## Arithmetic of one fill -/

def signedPositionDelta (direction : TradeDirection) (offset : TradeOffset) (volume : Int) :
    Int :=
  match direction, offset with
  | .buy, _ => volume
  | .sell, _ => -volume

def profitForNet (net : Int) (avgPrice : ℚ) (lastPrice : F64) (multiplier : ℚ) : ℚ :=
  match lastPrice.value? with
  | none => 0
  | some last =>
    if net = 0 then 0
    else if net > 0 then (last - avgPrice) * (net.natAbs : ℚ) * multiplier
    else (avgPrice - last) * (net.natAbs : ℚ) * multiplier

def marketValue (net : Int) (lastPrice : F64) (multiplier : ℚ) : ℚ :=
  match lastPrice.value? with
  | none => 0
  | some last => if net = 0 then 0 else last * (net.natAbs : ℚ) * multiplier

def closeProfitForDelta (previous delta : Int) (avgPrice tradePrice multiplier : ℚ) : ℚ :=
  if previous = 0 ∨ delta = 0 ∨ previous.sign = delta.sign then 0
  else
    let closedVolume : Int := min previous.natAbs delta.natAbs
    profitForNet (previous.sign * closedVolume) avgPrice (.finite tradePrice) multiplier

def updateAveragePrice (prices : List (String × ℚ)) (symbol : String) (previous delta : Int)
    (previousAvg tradePrice : ℚ) : List (String × ℚ) :=
  let next := previous + delta
  if next = 0 then OrdMap.erase symbol prices
  else if previous = 0 ∨ previous.sign = delta.sign then
    let previousVolume : ℚ := previous.natAbs
    let deltaVolume : ℚ := delta.natAbs
    OrdMap.insert symbol
      ((previousAvg * previousVolume + tradePrice * deltaVolume) / (previousVolume + deltaVolume))
      prices
  else if next.sign = previous.sign then OrdMap.insert symbol previousAvg prices
  else OrdMap.insert symbol tradePrice prices

def updateNonzeroPositionCount (count : Nat) (previous next : Int) : Nat :=
  if previous = 0 ∧ next ≠ 0 then count + 1
  else if previous ≠ 0 ∧ next = 0 then count - 1
  else count

/-- The sum of an amount over the positions, which are kept in a hash map: when `next_seq` has the
given value the map visits them in some order, and the additions of `f64` are made in that order.
The positions of one process change with that number only. -/
class PositionSums where
  total : Nat → List (String × Int) → (String × Int → ℚ) → ℚ

namespace TqSim

variable (sim : TqSim)

/-! ## Reading the account -/

def marginFor (symbol : String) : ℚ := (get? symbol sim.marginBySymbol).getD 0

def commissionFor (symbol : String) : ℚ := (get? symbol sim.commissionBySymbol).getD 0

def contractMultiplierFor (symbol : String) : ℚ :=
  (get? symbol sim.contractMultiplierBySymbol).getD 1

/-- `self.positions.get(symbol).copied().unwrap_or_default()`. -/
def net (symbol : String) : Int := (get? symbol sim.positions).getD 0

def marginOf (entry : String × Int) : ℚ := sim.marginFor entry.1 * (entry.2.natAbs : ℚ)

def marginTotal [PositionSums] : ℚ :=
  PositionSums.total sim.nextSeq sim.positions sim.marginOf

def floatProfitFor (symbol : String) : ℚ :=
  match get? symbol sim.avgPriceBySymbol, get? symbol sim.quotes with
  | some avgPrice, some quote =>
    profitForNet (sim.net symbol) avgPrice quote.lastPrice (sim.contractMultiplierFor symbol)
  | _, _ => 0

def floatProfitTotal [PositionSums] : ℚ :=
  PositionSums.total sim.nextSeq sim.positions fun entry => sim.floatProfitFor entry.1

def marketValueOf (entry : String × Int) : ℚ :=
  let lastPrice := ((get? entry.1 sim.quotes).map Quote.lastPrice).getD (.finite 0)
  marketValue entry.2 lastPrice (sim.contractMultiplierFor entry.1)

def marketValueTotal [PositionSums] : ℚ :=
  PositionSums.total sim.nextSeq sim.positions sim.marketValueOf

def accountSnapshot [PositionSums] : SimAccount where
  userId := sim.accountId
  preBalance := sim.initBalance
  balance := sim.balance
  available := sim.balance - sim.marginTotal
  floatProfit := sim.floatProfitTotal
  closeProfit := sim.closeProfit
  margin := sim.marginTotal
  commission := sim.commission
  riskRatio := if sim.balance > 0 then sim.marginTotal / sim.balance else 0
  marketValue := sim.marketValueTotal

def executionSymbolFor (symbol : String) : String :=
  (get? symbol sim.executionSymbolByStrategySymbol).getD symbol

def positionSnapshotFor (reportSymbol stateSymbol : String) : SimPosition :=
  let net := sim.net stateSymbol
  let avgPrice := (get? stateSymbol sim.avgPriceBySymbol).getD 0
  let lastPrice :=
    (((get? stateSymbol sim.quotes).or (get? reportSymbol sim.quotes)).map
      Quote.lastPrice).getD (.finite 0)
  let multiplier := sim.contractMultiplierFor stateSymbol
  { userId := sim.accountId
    symbol := reportSymbol
    pos := net
    margin := sim.marginFor stateSymbol * (net.natAbs : ℚ)
    lastPrice := lastPrice
    avgPrice := avgPrice
    openCost := avgPrice * (net.natAbs : ℚ) * multiplier
    floatProfit := profitForNet net avgPrice lastPrice multiplier
    marketValue := marketValue net lastPrice multiplier }

def positionSnapshot (symbol : String) : SimPosition :=
  sim.positionSnapshotFor symbol (sim.executionSymbolFor symbol)

/-! ## Matching -/

def pretradeRejection [PositionSums] (request : TqSimOrderRequest) : Option String :=
  if request.offset = .open_ then
    let required := sim.marginFor request.symbol * (request.volume : ℚ) +
      sim.commissionFor request.symbol * (request.volume : ℚ)
    if sim.accountSnapshot.available < required then some "可用资金不足" else none
  else
    let current := sim.net request.symbol
    match request.direction with
    | .sell => if current < request.volume then some "多头持仓不足" else none
    | .buy => if -current < request.volume then some "空头持仓不足" else none

/-- The price and the volume of the other side of the book, if the price can be traded at. -/
def counterparty (quote : Quote) (direction : TradeDirection) : Option (ℚ × Int) :=
  let (price, volume) :=
    match direction with
    | .buy => (quote.askPrice1, quote.askVolume1)
    | .sell => (quote.bidPrice1, quote.bidVolume1)
  match price.value? with
  | none => none
  | some price => if price > 0 then some (price, volume) else none

def counterpartyPrice (request : TqSimOrderRequest) : Option ℚ :=
  match get? request.symbol sim.quotes with
  | none => none
  | some quote =>
    match counterparty quote request.direction with
    | none => none
    | some (price, volume) => if volume ≥ request.volume then some price else none

def matchDecision (request : TqSimOrderRequest) : MatchDecision :=
  match request.priceType with
  | .limit =>
    match get? request.symbol sim.quotes, request.limitPrice with
    | some quote, some limitPrice =>
      match counterparty quote request.direction with
      | none => .keepAlive
      | some (price, volume) =>
        let crosses :=
          match request.direction with
          | .buy => decide (limitPrice ≥ price)
          | .sell => decide (limitPrice ≤ price)
        if volume ≥ request.volume ∧ crosses = true then .fill else .keepAlive
    | _, _ => .keepAlive
  | .any | .best | .fiveLevel =>
    if (sim.counterpartyPrice request).isSome then .fill else .cancelNoCounterparty

def tradePrice (request : TqSimOrderRequest) : Except TaskError ℚ :=
  match request.priceType with
  | .limit =>
    match request.limitPrice with
    | some price => .ok price
    | none => .error (.invalidState "limit order missing limit price")
  | .any | .best | .fiveLevel =>
    match sim.counterpartyPrice request with
    | some price => .ok price
    | none => .error (.invalidState "market order missing counterparty price")

/-! ## Applying an order -/

def applyPositionDelta (request : TqSimOrderRequest) (tradePrice : ℚ) : TqSim :=
  let delta := signedPositionDelta request.direction request.offset request.volume
  let previous := sim.net request.symbol
  let previousAvg := (get? request.symbol sim.avgPriceBySymbol).getD tradePrice
  let closeProfit := closeProfitForDelta previous delta previousAvg tradePrice
    (sim.contractMultiplierFor request.symbol)
  { sim with
    closeProfit := sim.closeProfit + closeProfit
    balance := sim.balance + closeProfit
    positions := OrdMap.insert request.symbol (previous + delta) sim.positions
    nonzeroPositionCount :=
      updateNonzeroPositionCount sim.nonzeroPositionCount previous (previous + delta)
    avgPriceBySymbol := updateAveragePrice sim.avgPriceBySymbol request.symbol previous delta
      previousAvg tradePrice
    closeProfitBySymbol := OrdMap.insert request.symbol
      ((get? request.symbol sim.closeProfitBySymbol).getD 0 + closeProfit)
      sim.closeProfitBySymbol }

def timeCondition (priceType : TradePriceType) : String :=
  if priceType = .limit then "GFD" else "IOC"

/-- `alive_order` and `dead_order` with the number they take from `next_seq`. -/
def orderValue (request : TqSimOrderRequest) (seqno : Nat) (lifecycle : OrderLifecycle)
    (lastMsg : String) (volumeLeft : Int) (tradePrice : ℚ) (insertedAtNs : Int) :
    SimOrderSnapshot :=
  { seqno := seqno
    userId := sim.accountId
    orderId := request.orderId
    exchangeOrderId :=
      if lifecycle = .rejected then "" else "tqsim-exchange-" ++ request.orderId
    symbol := request.symbol
    direction := request.direction
    offset := request.offset
    volumeOrigin := request.volume
    volumeLeft := volumeLeft
    limitPrice := request.limitPrice.getD 0
    priceType := request.priceType
    volumeCondition := "ANY"
    timeCondition := timeCondition request.priceType
    insertDateTime := insertedAtNs
    lastMsg := lastMsg
    status := if lifecycle = .accepted then "ALIVE" else "FINISHED"
    lifecycle := lifecycle
    isDead := decide (lifecycle ≠ .accepted)
    tradePrice := tradePrice }

/-- `format!("tqsim-trade-{}", self.next_trade_seq())`. -/
def tradeId (tradeSeq : Nat) : String := "tqsim-trade-" ++ toString tradeSeq

def trade (request : TqSimOrderRequest) (seqno tradeSeq : Nat) (price commission : ℚ) :
    SimTrade :=
  { seqno := seqno
    userId := sim.accountId
    orderId := request.orderId
    tradeId := tradeId tradeSeq
    exchangeTradeId := "tqsim-exchange-trade-" ++ request.orderId
    symbol := request.symbol
    direction := request.direction
    offset := request.offset
    price := price
    volume := request.volume
    tradeDateTime := sim.currentTimeNs
    commission := commission }

/-- An order that ends or rests without a trade: it takes one number and is stored. -/
def storeOrder (order : SimOrder) (lifecycle : OrderLifecycle) (lastMsg : String)
    (commandStatus : Option CommandStatus) : TqSim × SimOrderOutcome :=
  let value := sim.orderValue order.request sim.nextSeq lifecycle lastMsg order.request.volume 0
    order.insertedAtNs
  ({ sim with
      nextSeq := sim.nextSeq + 1
      orders := OrdMap.insert order.request.orderId
        { order with alive := decide (lifecycle = .accepted), snapshot := some value }
        sim.orders },
    ⟨order.commandId, value, none, none, commandStatus⟩)

/-- The branch `MatchDecision::Fill`. -/
def fillOrder (order : SimOrder) (tradePrice : ℚ) : TqSim × SimOrderOutcome :=
  let request := order.request
  let commission := sim.commissionFor request.symbol * (request.volume : ℚ)
  let paid := { sim with
    balance := sim.balance - commission
    commission := sim.commission + commission }
  let moved := paid.applyPositionDelta request tradePrice
  let position := moved.positionSnapshot request.symbol
  let value := moved.orderValue request moved.nextSeq .filled "" 0 tradePrice order.insertedAtNs
  let trade := moved.trade request (moved.nextSeq + 1) moved.nextTradeSeq tradePrice commission
  ({ moved with
      nextSeq := moved.nextSeq + 2
      nextTradeSeq := moved.nextTradeSeq + 1
      orders := OrdMap.insert request.orderId
        { order with alive := false, snapshot := some value } moved.orders
      trades := OrdMap.insert trade.tradeId trade moved.trades },
    ⟨order.commandId, value, some trade, some position, some .completed⟩)

def applyOrder [PositionSums] (order : SimOrder) : Except TaskError (TqSim × SimOrderOutcome) :=
  let request := order.request
  let decision := sim.matchDecision request
  match sim.pretradeRejection request with
  | some reason => .ok (sim.storeOrder order .rejected reason (some .rejected))
  | none =>
    match decision with
    | .fill =>
      match sim.tradePrice request with
      | .error error => .error error
      | .ok tradePrice => .ok (sim.fillOrder order tradePrice)
    | .keepAlive => .ok (sim.storeOrder order .accepted "" none)
    | .cancelNoCounterparty =>
      .ok (sim.storeOrder order .cancelled "市价单没有对手盘" (some .cancelled))

/-! ## Reports -/

def strategySymbolsOf (executionSymbol : String) : List String :=
  (sim.executionSymbolByStrategySymbol.filter fun entry => entry.2 = executionSymbol).map
    Prod.fst

/-- `push_position_with_aliases`; the aliases are sorted, as the map is. -/
def positionWithAliases (position : SimPosition) : List SimPosition :=
  position :: (sim.strategySymbolsOf position.symbol).map fun strategySymbol =>
    sim.positionSnapshotFor strategySymbol position.symbol

def reportFromOutcomes [PositionSums] (outcomes : List SimOrderOutcome) : TqSimStepReport :=
  let orders := outcomes.map SimOrderOutcome.order
  let trades := outcomes.filterMap SimOrderOutcome.trade
  let positions := (outcomes.filterMap SimOrderOutcome.position).flatMap sim.positionWithAliases
  { account :=
      if orders.isEmpty && trades.isEmpty && positions.isEmpty then none
      else some sim.accountSnapshot
    orders := orders
    trades := trades
    positions := positions }

def nonzeroSymbolsSnapshotReport [PositionSums] (symbols : List String) : TqSimStepReport :=
  let positions := (symbols.dedup.map sim.positionSnapshot).filter fun position =>
    decide (position.pos ≠ 0)
  if positions.isEmpty then {}
  else { account := some sim.accountSnapshot, positions := positions }

end TqSim

def TqSimStepReport.isEmpty (report : TqSimStepReport) : Bool :=
  report.account.isNone && report.orders.isEmpty && report.trades.isEmpty &&
    report.positions.isEmpty

def TqSimStepReport.extend (report other : TqSimStepReport) : TqSimStepReport :=
  { account := other.account.or report.account
    orders := report.orders ++ other.orders
    trades := report.trades ++ other.trades
    positions := report.positions ++ other.positions }

namespace TqSim

variable (sim : TqSim)

/-! ## Quotes -/

def insertIfAbsent (symbol : String) (value : Option ℚ) (table : List (String × ℚ)) :
    List (String × ℚ) :=
  match value with
  | none => table
  | some value => if (get? symbol table).isSome then table
      else OrdMap.insert symbol value table

def nonnegative (value : F64) : Option ℚ :=
  value.value?.filter fun value => decide (value ≥ 0)

def applyQuoteMetadata (symbol : String) (quote : Quote) : TqSim :=
  { sim with
    marginBySymbol := insertIfAbsent symbol (nonnegative quote.margin) sim.marginBySymbol
    commissionBySymbol :=
      insertIfAbsent symbol (nonnegative quote.commission) sim.commissionBySymbol
    contractMultiplierBySymbol :=
      insertIfAbsent symbol (if quote.volumeMultiple > 0 then some quote.volumeMultiple else none)
        sim.contractMultiplierBySymbol }

def updateExecutionSymbolAliasFromQuote (symbol : String) (quote : Quote) :
    TqSim × Option String :=
  let underlying := String.ofList (OrderLifecycle.trim quote.underlyingSymbol.toList)
  if underlying = "" then (sim, get? symbol sim.executionSymbolByStrategySymbol)
  else if underlying = symbol then
    ({ sim with executionSymbolByStrategySymbol :=
        OrdMap.erase symbol sim.executionSymbolByStrategySymbol }, none)
  else
    ({ sim with executionSymbolByStrategySymbol :=
        OrdMap.insert symbol underlying sim.executionSymbolByStrategySymbol }, some underlying)

def recordQuote (symbol : String) (quote : Quote) : TqSim :=
  let sim := sim.applyQuoteMetadata symbol quote
  { sim with quotes := OrdMap.insert symbol quote sim.quotes }

/-- The alive orders of a symbol, which the source visits in the order of its hash map. -/
def pendingFor (symbol : String) : List SimOrder :=
  (sim.orders.map Prod.snd).filter fun order => order.alive && order.request.symbol == symbol

/-- The loop of `match_pending_for_symbol` over the pending orders. -/
def matchPending [PositionSums] : List SimOrder → TqSim → TqSim × List SimOrderOutcome
  | [], sim => (sim, [])
  | order :: pending, sim =>
    if sim.matchDecision order.request = .fill then
      match sim.applyOrder order with
      | .ok (sim, outcome) =>
        let (sim, outcomes) := matchPending pending sim
        (sim, outcome :: outcomes)
      | .error _ => matchPending pending sim
    else matchPending pending sim

def matchPendingForSymbol [PositionSums] (visit : List SimOrder → List SimOrder)
    (symbol : String) : TqSim × TqSimStepReport :=
  let (sim, outcomes) := matchPending (visit (sim.pendingFor symbol)) sim
  (sim, sim.reportFromOutcomes outcomes)

def hasNonzeroPosition (symbol : String) : Bool := decide (sim.net symbol ≠ 0)

/-- The first half of `update_quote_ref_inner`: the quote is recorded under its own symbol and
under the symbol that orders are executed in. -/
def quoted (symbol : String) (quote : Quote) : TqSim × Option String :=
  let (sim, executionSymbol) := sim.updateExecutionSymbolAliasFromQuote symbol quote
  let sim := sim.recordQuote symbol quote
  (match executionSymbol with
    | none => sim
    | some executionSymbol => sim.recordQuote executionSymbol quote, executionSymbol)

/-- The second half: the pending orders are matched against the quote. -/
def settleQuote [PositionSums] (visit : List SimOrder → List SimOrder) (symbol : String)
    (executionSymbol : Option String) : TqSim × TqSimStepReport :=
  if sim.orders.isEmpty && sim.nonzeroPositionCount == 0 then (sim, {})
  else if sim.orders.isEmpty && !sim.hasNonzeroPosition symbol &&
      executionSymbol.all fun executionSymbol => !sim.hasNonzeroPosition executionSymbol then
    (sim, {})
  else
    let (sim, report) := sim.matchPendingForSymbol visit symbol
    let (sim, report) :=
      match executionSymbol with
      | none => (sim, report)
      | some executionSymbol =>
        let (sim, later) := sim.matchPendingForSymbol visit executionSymbol
        (sim, report.extend later)
    if report.isEmpty then
      (sim, sim.nonzeroSymbolsSnapshotReport (symbol :: executionSymbol.toList))
    else (sim, report)

def updateQuoteRefInner [PositionSums] (visit : List SimOrder → List SimOrder)
    (symbol : String) (quote : Quote) : TqSim × TqSimStepReport :=
  let (sim, executionSymbol) := sim.quoted symbol quote
  sim.settleQuote visit symbol executionSymbol

/-- `update_quote_at`, and `update_quote` without an event time. -/
def updateQuoteAt [PositionSums] (visit : List SimOrder → List SimOrder) (symbol : String)
    (quote : Quote) (eventTimeNs : Option Int) : TqSim × TqSimStepReport :=
  updateQuoteRefInner { sim with currentTimeNs := eventTimeNs.getD sim.currentTimeNs } visit
    symbol quote

/-! ## Inserting an order -/

def resolveOrderRequest (request : TqSimOrderRequest) : TqSimOrderRequest :=
  match get? request.symbol sim.executionSymbolByStrategySymbol with
  | some executionSymbol => { request with symbol := executionSymbol }
  | none => request

def validateRequest (request : TqSimOrderRequest) : Except TaskError Unit :=
  if OrderLifecycle.trim request.orderId.toList = [] then
    .error (.invalidState "sim order id must not be empty")
  else if OrderLifecycle.trim request.symbol.toList = [] then
    .error (.invalidState "sim order symbol must not be empty")
  else if request.volume ≤ 0 then .error (.invalidState "sim order volume must be positive")
  else if request.priceType = .limit ∧ request.limitPrice = none then
    .error (.invalidState "sim limit price must be finite")
  else .ok ()

def insertOrder [PositionSums] (request : TqSimOrderRequest) (commandId : Option Nat) :
    Except TaskError (TqSim × TqSimStepReport) :=
  let request := sim.resolveOrderRequest request
  match validateRequest request with
  | .error error => .error error
  | .ok () =>
    match sim.applyOrder ⟨request, commandId, true, sim.currentTimeNs, none⟩ with
    | .error error => .error error
    | .ok (sim, outcome) => .ok (sim, sim.reportFromOutcomes [outcome])

/-! ## Settings -/

def defaultInitBalance : ℚ := 10000000

def withAccount (accountId : String) (initBalance : F64) : TqSim :=
  let initBalance := initBalance.value?.getD defaultInitBalance
  { accountId := accountId, initBalance := initBalance, balance := initBalance }

def setMargin (symbol : String) (marginPerLot : F64) : TqSim :=
  match nonnegative marginPerLot with
  | none => sim
  | some margin =>
    { sim with marginBySymbol := OrdMap.insert symbol margin sim.marginBySymbol }

def setCommission (symbol : String) (commissionPerLot : F64) : TqSim :=
  match nonnegative commissionPerLot with
  | none => sim
  | some commission =>
    { sim with commissionBySymbol := OrdMap.insert symbol commission sim.commissionBySymbol }

def setContractMultiplier (symbol : String) (multiplier : F64) : TqSim :=
  match multiplier.value?.filter fun value => decide (value > 0) with
  | none => sim
  | some multiplier =>
    { sim with contractMultiplierBySymbol :=
        OrdMap.insert symbol multiplier sim.contractMultiplierBySymbol }

end TqSim

/-! ## Runs -/

/-- The calls that change a simulator; `update_quote` is an update without an event time. -/
inductive TqSimCall
  | setMargin (symbol : String) (marginPerLot : F64)
  | setCommission (symbol : String) (commissionPerLot : F64)
  | setContractMultiplier (symbol : String) (multiplier : F64)
  | updateQuote (symbol : String) (quote : Quote) (eventTimeNs : Option Int)
  | insertOrder (request : TqSimOrderRequest) (commandId : Option Nat)

/-- The state after a call that visits the pending orders as `visit` does.  An order that is
refused leaves the state as it is. -/
def TqSim.execute [PositionSums] (visit : List SimOrder → List SimOrder) (sim : TqSim) :
    TqSimCall → TqSim
  | .setMargin symbol marginPerLot => sim.setMargin symbol marginPerLot
  | .setCommission symbol commissionPerLot => sim.setCommission symbol commissionPerLot
  | .setContractMultiplier symbol multiplier => sim.setContractMultiplier symbol multiplier
  | .updateQuote symbol quote eventTimeNs =>
    (sim.updateQuoteAt visit symbol quote eventTimeNs).1
  | .insertOrder request commandId =>
    match sim.insertOrder request commandId with
    | .ok (sim, _) => sim
    | .error _ => sim

/-- What one call may do: a hash map visits all its entries, in some order. -/
def TqSim.Step [PositionSums] (call : TqSimCall) (sim sim' : TqSim) : Prop :=
  ∃ visit : List SimOrder → List SimOrder,
    (∀ pending, (visit pending).Perm pending) ∧ sim' = sim.execute visit call

theorem TqSim.step_execute [PositionSums] (call : TqSimCall) (sim : TqSim) :
    Step call sim (sim.execute id call) :=
  ⟨id, fun _ => .refl _, rfl⟩

/-- The states that a sequence of calls may lead to from a new account, by steps that keep to
`allowed`. -/
inductive TqSim.Run [PositionSums] (allowed : TqSimCall → TqSim → TqSim → Prop)
    (accountId : String) (initBalance : F64) : List TqSimCall → TqSim → Prop
  | start : Run allowed accountId initBalance [] (withAccount accountId initBalance)
  | call {calls : List TqSimCall} {sim sim' : TqSim} {call : TqSimCall}
      (before : Run allowed accountId initBalance calls sim) (step : Step call sim sim')
      (keeps : allowed call sim sim') : Run allowed accountId initBalance (calls ++ [call]) sim'

/-- The sums when the amounts are exact, whatever the order. -/
instance exactSums : PositionSums where
  total _ positions amount := (positions.map amount).sum

end Tqsdk
