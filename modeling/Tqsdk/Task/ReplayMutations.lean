import Tqsdk.Runtime.Handle
import Tqsdk.Task.Planner

/-!
# The mutations of a replayed market event

`replay_runtime.rs`: what a local backtest writes into the state tree for the quotes, K-lines
and ticks of its replay stream.  The rows of a K-line and of a tick go to their series, a quote
is written at its own path, and a row of a continuous contract names its underlying there.
-/

namespace Tqsdk

/-- The fields of a quote that a backtest reads or publishes. -/
structure ReplayQuote extends Quote where
  amount : F64
  average : F64
  close : F64
  datetime : String
  highest : F64
  insClass : String
  instrumentId : String
  instrumentName : String
  lowest : F64
  maxLimitOrderVolume : Int
  maxMarketOrderVolume : Int
  minLimitOrderVolume : Int
  minMarketOrderVolume : Int
  openPrice : F64
  openInterest : Int
  openLimit : Int
  priceDecs : Int
  priceTick : F64
  productId : String
  strikePrice : F64
  volume : Int
  deriving DecidableEq

/-- `Quote::default()`, the derived one: a price is zero there, not `NaN`. -/
def ReplayQuote.default : ReplayQuote where
  exchangeId := ""
  askPrice1 := .finite 0
  bidPrice1 := .finite 0
  lastPrice := .finite 0
  askVolume1 := 0
  bidVolume1 := 0
  margin := .finite 0
  commission := .finite 0
  volumeMultiple := 0
  underlyingSymbol := ""
  amount := .finite 0
  average := .finite 0
  close := .finite 0
  datetime := ""
  highest := .finite 0
  insClass := ""
  instrumentId := ""
  instrumentName := ""
  lowest := .finite 0
  maxLimitOrderVolume := 0
  maxMarketOrderVolume := 0
  minLimitOrderVolume := 0
  minMarketOrderVolume := 0
  openPrice := .finite 0
  openInterest := 0
  openLimit := 0
  priceDecs := 0
  priceTick := .finite 0
  productId := ""
  strikePrice := .finite 0
  volume := 0

structure ReplayKline where
  id : Int
  datetime : Int
  openPrice : F64
  high : F64
  low : F64
  close : F64
  volume : Int
  openOi : Int
  closeOi : Int

/-- A tick with the first level of its book, the only one that is published. -/
structure ReplayTick where
  id : Int
  datetime : Int
  lastPrice : F64
  average : F64
  highest : F64
  lowest : F64
  askPrice1 : F64
  askVolume1 : Int
  bidPrice1 : F64
  bidVolume1 : Int
  volume : Int
  amount : F64
  openInterest : Int

inductive ReplayMarketPayload
  | quote (quote : ReplayQuote)
  | kline (durationNs : Int) (row : ReplayKline)
  | tick (tick : ReplayTick)

structure ReplayMarketEvent where
  symbol : Symbol
  eventTimeNs : Int
  underlyingSymbol : Option Symbol
  payload : ReplayMarketPayload

structure ReplayKlineSpec where
  symbol : Symbol
  durationNs : Int
  viewWidth : Nat

/-! ## Fields -/

/-- `Number::from_f64`: a number that is not finite has no JSON form. -/
def F64.toJson : F64 → Option Value
  | .finite value => some (.number (.float value))
  | _ => none

/-- What `push_i64_if_nonzero` writes. -/
def nonzeroJson (value : Int) : Option Value :=
  if value = 0 then none else some (.ofI64 value)

/-- What `push_string_if_present` writes. -/
def presentJson (value : String) : Option Value :=
  if value.isEmpty then none else some (.string value)

/-- The field, if there is a value to write. -/
def pushField (key : String) (value : Option Value) : List FieldMutation :=
  (value.map fun value => ⟨key, value⟩).toList

def pushStringIfPresent (key value : String) : List FieldMutation :=
  pushField key (presentJson value)

def pushF64IfFinite (key : String) (value : F64) : List FieldMutation :=
  pushField key value.toJson

def pushI64IfNonzero (key : String) (value : Int) : List FieldMutation :=
  pushField key (nonzeroJson value)

/-- `market_mutation`: nothing for no fields, and the fields in the order of their names. -/
def marketMutation (path : StatePath) (object : Option ObjectKey)
    (fields : List FieldMutation) : Option NormalizedMutation :=
  if fields.isEmpty then none
  else some ⟨path, object, sortFieldMutations fields, .marketDiff⟩

/-! ## Quotes -/

/-- `effective_underlying_symbol`. -/
def effectiveUnderlyingSymbol (quote : ReplayQuote) (underlyingSymbol : Option Symbol) : Symbol :=
  if quote.underlyingSymbol.isEmpty then underlyingSymbol.getD "" else quote.underlyingSymbol

def quoteFields (quote : ReplayQuote) (underlyingSymbol : Option Symbol) : List FieldMutation :=
  pushStringIfPresent "datetime" quote.datetime ++
    pushF64IfFinite "last_price" quote.lastPrice ++
    pushF64IfFinite "ask_price1" quote.askPrice1 ++
    pushI64IfNonzero "ask_volume1" quote.askVolume1 ++
    pushF64IfFinite "bid_price1" quote.bidPrice1 ++
    pushI64IfNonzero "bid_volume1" quote.bidVolume1 ++
    pushStringIfPresent "underlying_symbol" (effectiveUnderlyingSymbol quote underlyingSymbol)

def replayQuoteMutation (symbol : Symbol) (fields : List FieldMutation) :
    Option NormalizedMutation :=
  marketMutation ["quotes", symbol] (some (.quote symbol)) fields

def quoteMutations (symbol : Symbol) (quote : ReplayQuote)
    (underlyingSymbol : Option Symbol) : List NormalizedMutation :=
  (replayQuoteMutation symbol (quoteFields quote underlyingSymbol)).toList

def pushUnderlyingSymbolMutation (symbol : Symbol) (underlyingSymbol : Option Symbol) :
    List NormalizedMutation :=
  match underlyingSymbol.filter fun value => !value.isEmpty with
  | none => []
  | some underlying =>
    (replayQuoteMutation symbol [⟨"underlying_symbol", .string underlying⟩]).toList

/-! ## Series -/

/-- `i64::to_string`. -/
def i64ToString (value : Int) : String := toString value

def sanitizeChartToken (raw : String) : String :=
  raw.map fun ch => if ch.isAlphanum then ch else '_'

def klineChartId (symbol : Symbol) (durationNs : Int) (viewWidth : Nat) : ChartId :=
  "wait-kline-" ++ sanitizeChartToken symbol ++ "-" ++ i64ToString durationNs ++ "-" ++
    toString viewWidth

def tickChartId (symbol : Symbol) (viewWidth : Nat) : ChartId :=
  "wait-tick-" ++ sanitizeChartToken symbol ++ "-" ++ toString viewWidth

def pushChartBoundsMutation (chartId : ChartId) (leftId rightId : Int) :
    List NormalizedMutation :=
  (marketMutation ["charts", chartId] (some (.chart chartId))
    [⟨"left_id", .ofI64 leftId⟩, ⟨"right_id", .ofI64 rightId⟩]).toList

def klineFields (row : ReplayKline) : List FieldMutation :=
  [⟨"id", .ofI64 row.id⟩, ⟨"datetime", .ofI64 row.datetime⟩] ++
    pushF64IfFinite "open" row.openPrice ++
    pushF64IfFinite "high" row.high ++
    pushF64IfFinite "low" row.low ++
    pushF64IfFinite "close" row.close ++
    pushI64IfNonzero "volume" row.volume ++
    pushI64IfNonzero "open_oi" row.openOi ++
    pushI64IfNonzero "close_oi" row.closeOi

def tickFields (row : ReplayTick) : List FieldMutation :=
  [⟨"id", .ofI64 row.id⟩, ⟨"datetime", .ofI64 row.datetime⟩] ++
    pushF64IfFinite "last_price" row.lastPrice ++
    pushF64IfFinite "average" row.average ++
    pushF64IfFinite "highest" row.highest ++
    pushF64IfFinite "lowest" row.lowest ++
    pushF64IfFinite "ask_price1" row.askPrice1 ++
    pushI64IfNonzero "ask_volume1" row.askVolume1 ++
    pushF64IfFinite "bid_price1" row.bidPrice1 ++
    pushI64IfNonzero "bid_volume1" row.bidVolume1 ++
    pushI64IfNonzero "volume" row.volume ++
    pushF64IfFinite "amount" row.amount ++
    pushI64IfNonzero "open_interest" row.openInterest

def klineMutations (symbol : Symbol) (durationNs : Int) (row : ReplayKline)
    (klines : List ReplayKlineSpec) (underlyingSymbol : Option Symbol) :
    List NormalizedMutation :=
  let specs := klines.filter fun spec => spec.symbol == symbol && spec.durationNs == durationNs
  specs.flatMap (fun spec =>
      pushChartBoundsMutation (klineChartId symbol durationNs spec.viewWidth) row.id row.id) ++
    (marketMutation
      ["klines", symbol, i64ToString durationNs, "data", i64ToString row.id]
      (some (.kline ⟨symbol, [], durationNs, 0, none⟩ row.id)) (klineFields row)).toList ++
    pushUnderlyingSymbolMutation symbol underlyingSymbol

/-- `BacktestTickWindowState`: the ids of the retained rows, the oldest first.  The set of
`retained_ids` holds the same ids. -/
structure BacktestTickWindowState where
  rowIds : List Int := []

namespace BacktestTickWindowState

variable (window : BacktestTickWindowState)

/-- The window after one more row, and the rows that left it. -/
def push (id : Int) (capacity : Nat) : BacktestTickWindowState × List Int :=
  let rowIds := if id ∈ window.rowIds then window.rowIds else window.rowIds ++ [id]
  let excess := rowIds.length - max capacity 1
  (⟨rowIds.drop excess⟩, rowIds.take excess)

def rightId : Int := window.rowIds.getLastD 0

def leftId (viewWidth : Nat) : Int :=
  (window.rowIds.drop (window.rowIds.length - max viewWidth 1)).headD 0

end BacktestTickWindowState

structure BacktestTickChart where
  viewWidth : Nat
  chartId : ChartId

structure BacktestTickSubscription where
  charts : List BacktestTickChart
  maxViewWidth : Nat
  window : BacktestTickWindowState

/-- `backtest_tick_mutations` of a subscribed symbol, with its window after the tick. -/
def backtestTickMutations (symbol : Symbol) (tick : ReplayTick)
    (underlyingSymbol : Option Symbol) (subscription : BacktestTickSubscription) :
    BacktestTickSubscription × List NormalizedMutation :=
  let (window, evicted) := subscription.window.push tick.id subscription.maxViewWidth
  ({ subscription with window := window },
    subscription.charts.flatMap (fun chart =>
      pushChartBoundsMutation chart.chartId (window.leftId chart.viewWidth) window.rightId) ++
    pushUnderlyingSymbolMutation symbol underlyingSymbol ++
    (marketMutation ["ticks", symbol, "data"] none
      (evicted.map fun id => ⟨i64ToString id, .null⟩)).toList ++
    (marketMutation ["ticks", symbol, "data", i64ToString tick.id]
      (some (.tick symbol tick.id)) (tickFields tick)).toList)

/-- The tick subscriptions of a backtest, one for each subscribed symbol. -/
abbrev TickSubscriptions := List (Symbol × BacktestTickSubscription)

/-- `backtest_market_mutations`; a tick without a subscription writes nothing. -/
def backtestMarketMutations (event : ReplayMarketEvent) (klines : List ReplayKlineSpec)
    (subscriptions : TickSubscriptions) : TickSubscriptions × List NormalizedMutation :=
  match event.payload with
  | .quote quote => (subscriptions, quoteMutations event.symbol quote event.underlyingSymbol)
  | .kline durationNs row =>
    (subscriptions, klineMutations event.symbol durationNs row klines event.underlyingSymbol)
  | .tick tick =>
    match OrdMap.get? event.symbol subscriptions with
    | none => (subscriptions, [])
    | some subscription =>
      let (subscription, mutations) :=
        backtestTickMutations event.symbol tick event.underlyingSymbol subscription
      (OrdMap.insert event.symbol subscription subscriptions, mutations)

/-! ## Publishing -/

/-- The quote fields of a step, by symbol. -/
abbrev QuoteFields := List (Symbol × List FieldMutation)

/-- `quote_field_mutations`: several quotes are written in the order of their symbols. -/
def quoteFieldMutations (quoteFields : QuoteFields) : List NormalizedMutation :=
  match quoteFields with
  | [] => []
  | [(symbol, fields)] => (replayQuoteMutation symbol fields).toList
  | quoteFields =>
    let latestBySymbol := quoteFields.foldl
      (fun latest entry =>
        if entry.2.isEmpty then latest else OrdMap.insert entry.1 entry.2 latest) []
    latestBySymbol.filterMap fun entry => replayQuoteMutation entry.1 entry.2

/-- `ingest_presorted_replay_market_mutations`, with the sources of the two ingest calls
checked by `RuntimeHandle::ingest_presorted_…` left out: both lists are built here. -/
def ingestPresortedReplayMarketMutations (store : StateStore)
    (marketMutations replayMutations : List NormalizedMutation) (quoteFields : QuoteFields) :
    Except ContractError (StateStore × Option CommitResult) :=
  let marketMutations := marketMutations ++ quoteFieldMutations quoteFields
  if marketMutations.isEmpty && replayMutations.isEmpty then .ok (store, none)
  else if replayMutations.isEmpty then
    RuntimeHandle.applyUnderCommitGate store marketMutations [.market] [] .replayStep
  else
    let mutations := replayMutations ++ marketMutations
    let domains :=
      (if mutations.any fun mutation => mutation.source == .replayStep then [.replay] else []) ++
        (if mutations.any fun mutation => mutation.source == .marketDiff then [.market] else [])
    RuntimeHandle.applyUnderCommitGate store mutations domains [] .replayStep

end Tqsdk
