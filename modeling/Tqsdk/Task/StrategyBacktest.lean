import Tqsdk.Lib.Int64
import Tqsdk.Lib.Table
import Tqsdk.Task.ReplayMutations
import Tqsdk.Task.Sim

/-!
# The local strategy backtest

`StrategyBacktest::next` of `backtest.rs`, up to the commit of the step.  All events of one
timestamp form a step.  Each gives the simulated exchange a quote; the state tree receives the
mutations of the events and then, for each symbol, what the last of these quotes changes
against the quote published before.

The sum and the difference of two `f64` are parameters.  The simulated exchange records each quote
under its symbol and under the contract that its orders are executed in; the orders that it then
matches change none of its quotes and are left to the rest of the host.  The universe changes of a
step are what `ingest_universe_batches_at` returned.
-/

namespace Tqsdk

/-- `TaskError`, with the variant a K-line without a price tick ends in. -/
inductive BacktestError
  | task (error : TaskError)
  | unsupported (message : String)

structure F64Arith where
  add : F64 → F64 → F64
  sub : F64 → F64 → F64

structure ReplayStepQuote where
  quote : ReplayQuote
  datetimeNs : Option Int

/-! ## Quotes of ticks and K-lines -/

def quoteFromTick (tick : ReplayTick) : ReplayQuote :=
  { ReplayQuote.default with
    lastPrice := tick.lastPrice
    average := tick.average
    highest := tick.highest
    lowest := tick.lowest
    askPrice1 := tick.askPrice1
    askVolume1 := tick.askVolume1
    bidPrice1 := tick.bidPrice1
    bidVolume1 := tick.bidVolume1
    volume := tick.volume
    amount := tick.amount
    openInterest := tick.openInterest }


def quoteFromKlineCheckpoint (arith : F64Arith) (row : ReplayKline) (price priceTick : F64) :
    ReplayQuote :=
  { ReplayQuote.default with
    datetime := i64ToString row.datetime
    lastPrice := price
    highest := row.high
    lowest := row.low
    openPrice := row.openPrice
    close := row.close
    askPrice1 := arith.add price priceTick
    askVolume1 := I64.maximum
    bidPrice1 := arith.sub price priceTick
    bidVolume1 := I64.maximum
    volume := row.volume
    openInterest := row.closeOi
    priceTick := priceTick }

def klineQuoteCheckpoints (arith : F64Arith) (row : ReplayKline) (priceTick : F64) :
    List ReplayQuote :=
  [row.openPrice, row.high, row.low, row.close].map fun price =>
    quoteFromKlineCheckpoint arith row price priceTick

def quoteWithReplayUnderlying (quote : ReplayQuote) (underlyingSymbol : Option Symbol) :
    ReplayQuote :=
  match underlyingSymbol with
  | none => quote
  | some underlying =>
    if quote.underlyingSymbol.isEmpty then { quote with underlyingSymbol := underlying }
    else quote

/-! ## The fields that changed -/

def quoteDatetimeValue (quote : ReplayStepQuote) : Option String :=
  match quote.datetimeNs with
  | some datetimeNs => some (i64ToString datetimeNs)
  | none => if quote.quote.datetime.isEmpty then none else some quote.quote.datetime

def quoteDatetimeMatches (previous : Option ReplayStepQuote) (quote : ReplayStepQuote) : Bool :=
  match previous with
  | none => false
  | some previous =>
    match previous.datetimeNs, quote.datetimeNs with
    | some previousNs, some currentNs => previousNs == currentNs
    | none, none =>
      !quote.quote.datetime.isEmpty && previous.quote.datetime == quote.quote.datetime
    | some previousNs, none =>
      !quote.quote.datetime.isEmpty && i64ToString previousNs == quote.quote.datetime
    | none, some currentNs =>
      !previous.quote.datetime.isEmpty && previous.quote.datetime == i64ToString currentNs

def pushDatetimeIfChanged (previous : Option ReplayStepQuote) (quote : ReplayStepQuote) :
    List FieldMutation :=
  if quoteDatetimeMatches previous quote then []
  else pushField "datetime" ((quoteDatetimeValue quote).map .string)

def pushStringIfChanged (previous : Option String) (key current : String) :
    List FieldMutation :=
  if current.isEmpty || previous == some current then [] else [⟨key, .string current⟩]

def pushF64IfChanged (previous : Option F64) (key : String) (current : F64) :
    List FieldMutation :=
  match current.toJson with
  | none => []
  | some number =>
    if previous.any fun previous => previous.toJson.isSome && previous.eq current then []
    else [⟨key, number⟩]

def pushI64IfChanged (previous : Option Int) (key : String) (current : Int) :
    List FieldMutation :=
  if current == 0 || previous == some current then [] else [⟨key, .ofI64 current⟩]

def quoteStateFieldsSince (previous : Option ReplayStepQuote) (quote : ReplayStepQuote) :
    List FieldMutation :=
  let data := quote.quote
  let previousQuote := previous.map ReplayStepQuote.quote
  pushF64IfChanged (previousQuote.map (·.amount)) "amount" data.amount ++
    pushF64IfChanged (previousQuote.map (·.askPrice1)) "ask_price1" data.askPrice1 ++
    pushI64IfChanged (previousQuote.map (·.askVolume1)) "ask_volume1" data.askVolume1 ++
    pushF64IfChanged (previousQuote.map (·.average)) "average" data.average ++
    pushF64IfChanged (previousQuote.map (·.bidPrice1)) "bid_price1" data.bidPrice1 ++
    pushI64IfChanged (previousQuote.map (·.bidVolume1)) "bid_volume1" data.bidVolume1 ++
    pushF64IfChanged (previousQuote.map (·.close)) "close" data.close ++
    pushF64IfChanged (previousQuote.map (·.commission)) "commission" data.commission ++
    pushDatetimeIfChanged previous quote ++
    pushStringIfChanged (previousQuote.map (·.exchangeId)) "exchange_id" data.exchangeId ++
    pushF64IfChanged (previousQuote.map (·.highest)) "highest" data.highest ++
    pushStringIfChanged (previousQuote.map (·.insClass)) "ins_class" data.insClass ++
    pushStringIfChanged (previousQuote.map (·.instrumentId)) "instrument_id"
      data.instrumentId ++
    pushStringIfChanged (previousQuote.map (·.instrumentName)) "instrument_name"
      data.instrumentName ++
    pushF64IfChanged (previousQuote.map (·.lastPrice)) "last_price" data.lastPrice ++
    pushF64IfChanged (previousQuote.map (·.lowest)) "lowest" data.lowest ++
    pushF64IfChanged (previousQuote.map (·.margin)) "margin" data.margin ++
    pushI64IfChanged (previousQuote.map (·.maxLimitOrderVolume)) "max_limit_order_volume"
      data.maxLimitOrderVolume ++
    pushI64IfChanged (previousQuote.map (·.maxMarketOrderVolume)) "max_market_order_volume"
      data.maxMarketOrderVolume ++
    pushI64IfChanged (previousQuote.map (·.minLimitOrderVolume)) "min_limit_order_volume"
      data.minLimitOrderVolume ++
    pushI64IfChanged (previousQuote.map (·.minMarketOrderVolume)) "min_market_order_volume"
      data.minMarketOrderVolume ++
    pushF64IfChanged (previousQuote.map (·.openPrice)) "open" data.openPrice ++
    pushI64IfChanged (previousQuote.map (·.openInterest)) "open_interest" data.openInterest ++
    pushI64IfChanged (previousQuote.map (·.openLimit)) "open_limit" data.openLimit ++
    pushI64IfChanged (previousQuote.map (·.priceDecs)) "price_decs" data.priceDecs ++
    pushF64IfChanged (previousQuote.map (·.priceTick)) "price_tick" data.priceTick ++
    pushStringIfChanged (previousQuote.map (·.productId)) "product_id" data.productId ++
    pushF64IfChanged (previousQuote.map (·.strikePrice)) "strike_price" data.strikePrice ++
    pushStringIfChanged (previousQuote.map (·.underlyingSymbol)) "underlying_symbol"
      data.underlyingSymbol ++
    pushI64IfChanged (previousQuote.map (·.volume)) "volume" data.volume ++
    pushI64IfChanged (previousQuote.map (·.volumeMultiple)) "volume_multiple"
      data.volumeMultiple

/-- `quote_state_fields`: all fields of a quote. -/
def quoteStateFields (quote : ReplayStepQuote) : List FieldMutation :=
  quoteStateFieldsSince none quote

/-! ## The backtest -/

/-- `ReplayUniverseBatch`, with its changes in their JSON form. -/
structure ReplayUniverseBatch where
  sessionId : ReplaySessionId
  effectiveNs : Int
  changes : Value

def ReplayUniverseBatch.intoNormalizedMutation (batch : ReplayUniverseBatch) :
    NormalizedMutation where
  path := ["replay", batch.sessionId, "universe"]
  object := none
  fields := [⟨"changes", batch.changes⟩, ⟨"effective_ns", .ofI64 batch.effectiveNs⟩]
  source := .replayStep

/-- `StrategyBacktest`, with the state of its strategy's host. -/
structure StrategyBacktest where
  replay : List (Except BacktestError ReplayMarketEvent)
  pendingEvent : Option ReplayMarketEvent
  store : StateStore
  sim : TqSim
  klines : List ReplayKlineSpec
  priceTicks : List (Symbol × F64)
  quoteMetadataPriceTicks : List (Symbol × F64)
  lastReplayQuotes : List (Symbol × ReplayStepQuote)
  tickSubscriptions : TickSubscriptions
  defaultPriceTick : Option F64

structure ReplayStepBatch where
  marketMutations : List NormalizedMutation := []
  replayMutations : List NormalizedMutation := []
  latestQuotes : List (Symbol × ReplayStepQuote) := []

namespace StrategyBacktest

variable (backtest : StrategyBacktest)

def priceTick (symbol : Symbol) : Except BacktestError F64 :=
  match ((OrdMap.get? symbol backtest.priceTicks).or
      (OrdMap.get? symbol backtest.quoteMetadataPriceTicks)).or backtest.defaultPriceTick with
  | some priceTick => .ok priceTick
  | none => .error (.unsupported ("StrategyBacktest kline event requires price_tick(symbol, " ++
      "tick), replayed quote price_tick metadata, or default_price_tick(tick)"))

/-- The first positive price tick of a symbol is kept. -/
def rememberQuoteMetadata (symbol : Symbol) (quote : ReplayQuote) : StrategyBacktest :=
  if quote.priceTick.value?.any (0 < ·) &&
      (OrdMap.get? symbol backtest.quoteMetadataPriceTicks).isNone then
    { backtest with
      quoteMetadataPriceTicks :=
        OrdMap.insert symbol quote.priceTick backtest.quoteMetadataPriceTicks }
  else backtest

/-- `ingest_quote`: the simulated exchange takes the quote at once, the step keeps the last
one of each symbol. -/
def ingestQuote (symbol : Symbol) (batch : ReplayStepBatch) (quote : ReplayStepQuote) :
    StrategyBacktest × ReplayStepBatch :=
  let backtest := backtest.rememberQuoteMetadata symbol quote.quote
  ({ backtest with sim := (backtest.sim.quoted symbol quote.quote.toQuote).1 },
    { batch with
      latestQuotes := Table.upsert symbol quote (fun _ => quote) batch.latestQuotes })

/-- The quotes of one event, in order. -/
def ingestQuotes (symbol : Symbol) (batch : ReplayStepBatch) (quotes : List ReplayStepQuote) :
    StrategyBacktest × ReplayStepBatch :=
  quotes.foldl (fun (backtest, batch) quote => backtest.ingestQuote symbol batch quote)
    (backtest, batch)

def ingestReplayEvent (arith : F64Arith) (event : ReplayMarketEvent) (batch : ReplayStepBatch) :
    StrategyBacktest × Except BacktestError ReplayStepBatch :=
  let (tickSubscriptions, mutations) :=
    backtestMarketMutations event backtest.klines backtest.tickSubscriptions
  let backtest := { backtest with tickSubscriptions := tickSubscriptions }
  let batch := { batch with marketMutations := batch.marketMutations ++ mutations }
  let ingest (quotes : List ReplayStepQuote) :=
    let (backtest, batch) := backtest.ingestQuotes event.symbol batch quotes
    (backtest, Except.ok batch)
  match event.payload with
  | .quote quote => ingest [⟨quoteWithReplayUnderlying quote event.underlyingSymbol, none⟩]
  | .tick tick =>
    ingest [⟨quoteWithReplayUnderlying (quoteFromTick tick) event.underlyingSymbol,
      some tick.datetime⟩]
  | .kline _ row =>
    match backtest.priceTick event.symbol with
    | .error error => (backtest, .error error)
    | .ok priceTick =>
      ingest ((klineQuoteCheckpoints arith row priceTick).map fun quote =>
        ⟨quoteWithReplayUnderlying quote event.underlyingSymbol, none⟩)

/-- The loop of `next`: the events up to the first one of another time, which is put aside. -/
def ingestEventsAt (arith : F64Arith) (eventTimeNs : Int) : StrategyBacktest →
    List (Except BacktestError ReplayMarketEvent) → ReplayStepBatch →
    StrategyBacktest × Except BacktestError ReplayStepBatch
  | backtest, [], batch => ({ backtest with replay := [] }, .ok batch)
  | backtest, .error error :: replay, _ => ({ backtest with replay := replay }, .error error)
  | backtest, .ok event :: replay, batch =>
    if event.eventTimeNs ≠ eventTimeNs then
      ({ backtest with replay := replay, pendingEvent := some event }, .ok batch)
    else
      match backtest.ingestReplayEvent arith event batch with
      | (backtest, .error error) => ({ backtest with replay := replay }, .error error)
      | (backtest, .ok batch) => ingestEventsAt arith eventTimeNs backtest replay batch

/-- `next_replay_event`. -/
def nextReplayEvent : StrategyBacktest × Except BacktestError (Option ReplayMarketEvent) :=
  match backtest.pendingEvent with
  | some event => ({ backtest with pendingEvent := none }, .ok (some event))
  | none =>
    match backtest.replay with
    | [] => (backtest, .ok none)
    | .error error :: replay => ({ backtest with replay := replay }, .error error)
    | .ok event :: replay => ({ backtest with replay := replay }, .ok (some event))

/-- `next` up to the batch of the step; `none` at the end of the stream. -/
def collectStep (arith : F64Arith)
    (universeAt : Int → Except BacktestError (List ReplayUniverseBatch)) :
    StrategyBacktest × Except BacktestError (Option ReplayStepBatch) :=
  match backtest.nextReplayEvent with
  | (backtest, .error error) => (backtest, .error error)
  | (backtest, .ok none) => (backtest, .ok none)
  | (backtest, .ok (some event)) =>
    match universeAt event.eventTimeNs with
    | .error error => (backtest, .error error)
    | .ok batches =>
      let batch : ReplayStepBatch :=
        { replayMutations := batches.map ReplayUniverseBatch.intoNormalizedMutation }
      match backtest.ingestReplayEvent arith event batch with
      | (backtest, .error error) => (backtest, .error error)
      | (ingested, .ok batch) =>
        let (backtest, batch) :=
          ingestEventsAt arith event.eventTimeNs ingested backtest.replay batch
        (backtest, batch.map some)

/-- `quote_fields_for_replay_batch`, with the published quotes after it. -/
def quoteFieldsForReplayBatch : List (Symbol × ReplayStepQuote) →
    List (Symbol × ReplayStepQuote) → List (Symbol × ReplayStepQuote) × QuoteFields
  | last, [] => (last, [])
  | last, (symbol, quote) :: quotes =>
    let fields := quoteStateFieldsSince (OrdMap.get? symbol last) quote
    let (last, others) := quoteFieldsForReplayBatch (OrdMap.insert symbol quote last) quotes
    (last, if fields.isEmpty then others else (symbol, fields) :: others)

def ingestReplayBatch (batch : ReplayStepBatch) :
    StrategyBacktest × Except BacktestError Unit :=
  let (last, quoteFields) :=
    quoteFieldsForReplayBatch backtest.lastReplayQuotes batch.latestQuotes
  let backtest := { backtest with lastReplayQuotes := last }
  match ingestPresortedReplayMarketMutations backtest.store batch.marketMutations
      batch.replayMutations quoteFields with
  | .error error => (backtest, .error (.task (.core error)))
  | .ok (store, _) => ({ backtest with store := store }, .ok ())

/-- `StrategyBacktest::next`, with the batch of the step it ran. -/
def next (arith : F64Arith)
    (universeAt : Int → Except BacktestError (List ReplayUniverseBatch)) :
    StrategyBacktest × Except BacktestError (Option ReplayStepBatch) :=
  match backtest.collectStep arith universeAt with
  | (backtest, .error error) => (backtest, .error error)
  | (backtest, .ok none) => (backtest, .ok none)
  | (backtest, .ok (some batch)) =>
    match backtest.ingestReplayBatch batch with
    | (backtest, .error error) => (backtest, .error error)
    | (backtest, .ok ()) => (backtest, .ok (some batch))

end StrategyBacktest

end Tqsdk
