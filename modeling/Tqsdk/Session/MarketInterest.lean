import Tqsdk.State.Mutation

/-!
# Market interest

`client/market_interest.rs` of the session and `adapter/market.rs` of the core.  Leases are
counted in a registry; the first lease of a symbol or a chart and the last one submit a market
command, which the adapter turns into requests at once: it keeps the sets of everything that is
wanted and sends a whole set each time.
-/

namespace Tqsdk

/-! ## Commands and requests -/

structure MarketChartCommand where
  chartId : String
  symbols : List Symbol
  durationNs : Int
  viewWidth : Nat
  leftKlineId : Option Int := none
  focusDatetimeNs : Option Int := none
  focusPosition : Option Nat := none
  deriving DecidableEq

inductive MarketCommand
  | subscribeQuotes (symbols : List Symbol)
  | unsubscribeQuotes (symbols : List Symbol)
  | setChart (chart : MarketChartCommand)
  | cancelChart (chartId : String)
  | subscribeTradingStatus (symbols : List Symbol)
  | unsubscribeTradingStatus (symbols : List Symbol)
  deriving DecidableEq

structure DiffSetChartRequest where
  chartId : String
  insList : String
  duration : Int
  viewWidth : Nat
  leftKlineId : Option Int := none
  focusDatetime : Option Int := none
  focusPosition : Option Nat := none
  deriving DecidableEq

inductive DiffProtocolMessage
  | subscribeQuote (insList : String)
  | subscribeTradingStatus (insList : String)
  | setChart (request : DiffSetChartRequest)
  | peekMessage
  deriving DecidableEq

def joinSymbolList (symbols : List String) : String := ",".intercalate symbols

/-- `build_chart_message`. -/
def buildChartMessage (chart : MarketChartCommand) (cancel : Bool) : DiffSetChartRequest :=
  let request : DiffSetChartRequest :=
    { chartId := chart.chartId
      insList := if cancel then "" else joinSymbolList chart.symbols
      duration := chart.durationNs
      viewWidth := chart.viewWidth }
  if cancel then request
  else
    match chart.leftKlineId, chart.focusDatetimeNs, chart.focusPosition with
    | some leftKlineId, _, _ => { request with leftKlineId := some leftKlineId }
    | none, some focusDatetime, some focusPosition =>
      { request with focusDatetime := some focusDatetime, focusPosition := some focusPosition }
    | none, _, _ => request

def validateChartRequest (chart : MarketChartCommand) : Except ContractError Unit :=
  if chart.chartId.isEmpty then .error (.validation "chart_id must not be empty")
  else if chart.symbols.isEmpty then
    .error (.validation "set_chart requires at least one symbol")
  else if chart.focusDatetimeNs.isSome != chart.focusPosition.isSome then
    .error (.validation "focus_datetime_ns and focus_position must be provided together")
  else .ok ()

/-! ## The adapter -/

/-- `BTreeSet<String>`. -/
abbrev SymbolSet := List (String × Unit)

def joinSymbols (symbols : SymbolSet) : String := joinSymbolList (symbols.map Prod.fst)

def extendSymbols (target : SymbolSet) (symbols : List Symbol) : SymbolSet :=
  symbols.foldl (fun target symbol => OrdMap.insert symbol () target) target

def removeSymbols (target : SymbolSet) (symbols : List Symbol) : SymbolSet :=
  symbols.foldl (fun target symbol => OrdMap.erase symbol target) target

structure MarketAdapter where
  quoteSubscriptions : SymbolSet := []
  tradingStatusSubscriptions : SymbolSet := []
  charts : List (String × MarketChartCommand) := []
  deriving DecidableEq

def requestWithPeek (message : DiffProtocolMessage) : List DiffProtocolMessage :=
  [message, .peekMessage]

namespace MarketAdapter

/-- `encode` of a market command. -/
def encode (adapter : MarketAdapter) :
    MarketCommand → MarketAdapter × Except ContractError (List DiffProtocolMessage)
  | .subscribeQuotes symbols =>
    let quotes := extendSymbols adapter.quoteSubscriptions symbols
    ({ adapter with quoteSubscriptions := quotes },
      .ok (requestWithPeek (.subscribeQuote (joinSymbols quotes))))
  | .unsubscribeQuotes symbols =>
    let quotes := removeSymbols adapter.quoteSubscriptions symbols
    ({ adapter with quoteSubscriptions := quotes },
      .ok (requestWithPeek (.subscribeQuote (joinSymbols quotes))))
  | .setChart chart =>
    match validateChartRequest chart with
    | .error error => (adapter, .error error)
    | .ok () =>
      ({ adapter with charts := OrdMap.insert chart.chartId chart adapter.charts },
        .ok (requestWithPeek (.setChart (buildChartMessage chart false))))
  | .cancelChart chartId =>
    match OrdMap.get? chartId adapter.charts with
    | none => (adapter, .error (.validation ("unknown chart_id for cancel_chart: " ++ chartId)))
    | some chart =>
      ({ adapter with charts := OrdMap.erase chartId adapter.charts },
        .ok (requestWithPeek (.setChart (buildChartMessage chart true))))
  | .subscribeTradingStatus symbols =>
    let statuses := extendSymbols adapter.tradingStatusSubscriptions symbols
    ({ adapter with tradingStatusSubscriptions := statuses },
      .ok (requestWithPeek (.subscribeTradingStatus (joinSymbols statuses))))
  | .unsubscribeTradingStatus symbols =>
    let statuses := removeSymbols adapter.tradingStatusSubscriptions symbols
    ({ adapter with tradingStatusSubscriptions := statuses },
      .ok (requestWithPeek (.subscribeTradingStatus (joinSymbols statuses))))

def recoveryCommands (adapter : MarketAdapter) : List MarketCommand :=
  (if adapter.quoteSubscriptions.isEmpty then []
    else [.subscribeQuotes (adapter.quoteSubscriptions.map Prod.fst)]) ++
  (if adapter.tradingStatusSubscriptions.isEmpty then []
    else [.subscribeTradingStatus (adapter.tradingStatusSubscriptions.map Prod.fst)]) ++
  adapter.charts.map fun entry => .setChart entry.2

end MarketAdapter

/-! ## The registry -/

structure ChartInterest where
  command : MarketChartCommand
  refs : Nat
  deriving DecidableEq

/-- `BTreeMap<Symbol, usize>`. -/
abbrev SymbolCounts := List (Symbol × Nat)

def acquireSymbols : SymbolCounts → List Symbol → SymbolCounts × List Symbol
  | counts, [] => (counts, [])
  | counts, symbol :: symbols =>
    let count := (OrdMap.get? symbol counts).getD 0
    let (counts, changed) := acquireSymbols (OrdMap.insert symbol (count + 1) counts) symbols
    (counts, if count = 0 then symbol :: changed else changed)

def releaseSymbols : SymbolCounts → List Symbol → SymbolCounts × List Symbol
  | counts, [] => (counts, [])
  | counts, symbol :: symbols =>
    match OrdMap.get? symbol counts with
    | none => releaseSymbols counts symbols
    | some count =>
      if count - 1 = 0 then
        let (counts, changed) := releaseSymbols (OrdMap.erase symbol counts) symbols
        (counts, symbol :: changed)
      else releaseSymbols (OrdMap.insert symbol (count - 1) counts) symbols

structure MarketInterestRegistry where
  quoteCounts : SymbolCounts := []
  tradingStatusCounts : SymbolCounts := []
  charts : List (String × ChartInterest) := []

/-- `SessionFacadeError::InvalidState`, or the core's error. -/
inductive SessionFacadeError
  | invalidState (message : String)
  | core (error : ContractError)

namespace MarketInterestRegistry

/-- The registry with the chart acquired, and whether its command is to be submitted. -/
def acquireChart (registry : MarketInterestRegistry) (command : MarketChartCommand) :
    Except SessionFacadeError (MarketInterestRegistry × Bool) :=
  match OrdMap.get? command.chartId registry.charts with
  | some existing =>
    if existing.command ≠ command then
      .error (.invalidState "chart interest already registered with different parameters")
    else
      let shared : ChartInterest := { existing with refs := existing.refs + 1 }
      .ok ({ registry with
        charts := OrdMap.insert command.chartId shared registry.charts }, false)
  | none =>
    .ok ({ registry with
      charts := OrdMap.insert command.chartId ⟨command, 1⟩ registry.charts }, true)

/-- The registry with the chart released, and whether that was its last lease. -/
def releaseChart (registry : MarketInterestRegistry) (chartId : String) :
    MarketInterestRegistry × Bool :=
  match OrdMap.get? chartId registry.charts with
  | none => (registry, false)
  | some existing =>
    let left : ChartInterest := { existing with refs := existing.refs - 1 }
    if left.refs > 0 then
      ({ registry with charts := OrdMap.insert chartId left registry.charts }, false)
    else ({ registry with charts := OrdMap.erase chartId registry.charts }, true)

end MarketInterestRegistry

end Tqsdk
