import Tqsdk.Lib.Writes
import Tqsdk.Session.MarketInterest

/-!
# Leases, flushes and reconnects

The market side of a session client as a machine: lease holders acquire and release, the io task
flushes the outbound queue request by request and rebuilds the connection, and the two are
interleaved between any two sends and between any two commands of a recovery.  A market server
keeps what it was last told and forgets it with its connection.
-/

namespace Tqsdk

/-! ## The server -/

structure MarketServer where
  quotes : String := ""
  tradingStatus : String := ""
  charts : List (String × DiffSetChartRequest) := []
  deriving DecidableEq

/-- What a market request replaces at the server. -/
inductive MarketPart
  | quotes
  | tradingStatus
  | chart (chartId : String)
  deriving DecidableEq

inductive MarketValue
  | list (insList : String)
  | chart (request : Option DiffSetChartRequest)
  deriving DecidableEq

namespace MarketServer

/-- One market request; an empty `ins_list` removes the chart. -/
def receiveMessage (server : MarketServer) : DiffProtocolMessage → MarketServer
  | .subscribeQuote insList => { server with quotes := insList }
  | .subscribeTradingStatus insList => { server with tradingStatus := insList }
  | .setChart request =>
    if request.insList = "" then
      { server with charts := OrdMap.erase request.chartId server.charts }
    else { server with charts := OrdMap.insert request.chartId request server.charts }
  | .peekMessage => server

def part (server : MarketServer) : MarketPart → MarketValue
  | .quotes => .list server.quotes
  | .tradingStatus => .list server.tradingStatus
  | .chart chartId => .chart (OrdMap.get? chartId server.charts)

end MarketServer

def DiffProtocolMessage.writes : DiffProtocolMessage → Option (MarketPart × MarketValue)
  | .subscribeQuote insList => some (.quotes, .list insList)
  | .subscribeTradingStatus insList => some (.tradingStatus, .list insList)
  | .setChart request =>
    some (.chart request.chartId, .chart (if request.insList = "" then none else some request))
  | .peekMessage => none

/-! ## The session -/

/-- A queued outbound request: a market one, or one of another domain. -/
inductive SessionRequest
  | market (message : DiffProtocolMessage)
  | other
  deriving DecidableEq

namespace SessionRequest

def writes : SessionRequest → Option (MarketPart × MarketValue)
  | .market message => message.writes
  | .other => none

def isMarket : SessionRequest → Bool
  | .market _ => true
  | .other => false

end SessionRequest

def MarketServer.receive (server : MarketServer) : SessionRequest → MarketServer
  | .market message => server.receiveMessage message
  | .other => server

/-- Where the io task stands.  `recovers` says that a transport error of this flush is answered
by a recovery; `dropped` are the requests that a failed flush had drained and not sent. -/
inductive SessionIoPhase
  | idle
  | flushing (rest : List SessionRequest) (recovers : Bool)
  | recovering (dropped : List SessionRequest) (flushAfter : Bool)
  | resubmitting (rest : List MarketCommand) (flushAfter : Bool)

/-- The two lists a server keeps. -/
inductive SymbolInterest
  | quotes
  | tradingStatus
  deriving DecidableEq

/-- The interest registry, the adapter, the open leases, the outbound queue and the connection.
A lease is named by its position; a closed one holds nothing. -/
structure MarketSession where
  interests : MarketInterestRegistry := {}
  adapter : MarketAdapter := {}
  quoteLeases : List (List Symbol) := []
  tradingStatusLeases : List (List Symbol) := []
  chartLeases : List (Option MarketChartCommand) := []
  outbound : List SessionRequest := []
  phase : SessionIoPhase := .idle
  server : Option MarketServer := none

namespace SymbolInterest

def subscribe : SymbolInterest → List Symbol → MarketCommand
  | .quotes => .subscribeQuotes
  | .tradingStatus => .subscribeTradingStatus

def unsubscribe : SymbolInterest → List Symbol → MarketCommand
  | .quotes => .unsubscribeQuotes
  | .tradingStatus => .unsubscribeTradingStatus

end SymbolInterest

namespace MarketInterestRegistry

def counts (registry : MarketInterestRegistry) : SymbolInterest → SymbolCounts
  | .quotes => registry.quoteCounts
  | .tradingStatus => registry.tradingStatusCounts

def setCounts (registry : MarketInterestRegistry) (counts : SymbolCounts) :
    SymbolInterest → MarketInterestRegistry
  | .quotes => { registry with quoteCounts := counts }
  | .tradingStatus => { registry with tradingStatusCounts := counts }

end MarketInterestRegistry

def MarketAdapter.subscriptions (adapter : MarketAdapter) : SymbolInterest → SymbolSet
  | .quotes => adapter.quoteSubscriptions
  | .tradingStatus => adapter.tradingStatusSubscriptions

namespace MarketSession

variable (session : MarketSession)

def leases : SymbolInterest → List (List Symbol)
  | .quotes => session.quoteLeases
  | .tradingStatus => session.tradingStatusLeases

def setLeases (leases : List (List Symbol)) :
    SymbolInterest → MarketSession
  | .quotes => { session with quoteLeases := leases }
  | .tradingStatus => { session with tradingStatusLeases := leases }

def setCounts (session : MarketSession) (interest : SymbolInterest) (counts : SymbolCounts) :
    MarketSession :=
  { session with interests := session.interests.setCounts counts interest }

/-- `submit_market_command`. -/
def submitMarketCommand (command : MarketCommand) :
    MarketSession × Except SessionFacadeError Unit :=
  match session.adapter.encode command with
  | (adapter, .ok messages) =>
    ({ session with
      adapter := adapter
      outbound := session.outbound ++ messages.map .market }, .ok ())
  | (adapter, .error error) => ({ session with adapter := adapter }, .error (.core error))

/-! ### Symbol leases -/

def ensureSymbols (interest : SymbolInterest) (session : MarketSession) (symbols : List Symbol) :
    MarketSession × Except SessionFacadeError Unit :=
  if symbols.isEmpty then
    (session, .error (.invalidState "market interest requires at least one symbol"))
  else
    let acquired := acquireSymbols (session.interests.counts interest) symbols
    let session := session.setCounts interest acquired.1
    let leased (session : MarketSession) :=
      session.setLeases (session.leases interest ++ [symbols]) interest
    if acquired.2.isEmpty then (leased session, .ok ())
    else
      match session.submitMarketCommand (interest.subscribe acquired.2) with
      | (session, .ok ()) => (leased session, .ok ())
      | (session, .error error) =>
        (session.setCounts interest
          (releaseSymbols (session.interests.counts interest) symbols).1, .error error)

def ensureQuotes := ensureSymbols .quotes

def ensureTradingStatus := ensureSymbols .tradingStatus

/-- `release_quotes` and `release_trading_status` of the client. -/
def releaseInterest (interest : SymbolInterest) (session : MarketSession)
    (symbols : List Symbol) : MarketSession × Except SessionFacadeError Unit :=
  let released := Tqsdk.releaseSymbols (session.interests.counts interest) symbols
  let session := session.setCounts interest released.1
  if released.2.isEmpty then (session, .ok ())
  else session.submitMarketCommand (interest.unsubscribe released.2)

/-- `MarketQuoteLease::release_symbols`. -/
def releaseSymbols (lease : Nat) (requested : List Symbol) :
    MarketSession × Except SessionFacadeError Unit :=
  match session.quoteLeases[lease]? with
  | none => (session, .ok ())
  | some held =>
    let release := held.filter fun symbol => requested.contains symbol
    let kept := held.filter fun symbol => !requested.contains symbol
    let session := { session with quoteLeases := session.quoteLeases.set lease kept }
    if release.isEmpty then (session, .ok ()) else session.releaseInterest .quotes release

def closeSymbols (interest : SymbolInterest) (session : MarketSession) (lease : Nat) :
    MarketSession × Except SessionFacadeError Unit :=
  match (session.leases interest)[lease]? with
  | none => (session, .ok ())
  | some held =>
    (session.setLeases ((session.leases interest).set lease []) interest).releaseInterest
      interest held

/-- `MarketQuoteLease::close`. -/
def closeQuotes := closeSymbols .quotes

/-- `MarketTradingStatusLease::close`. -/
def closeTradingStatus := closeSymbols .tradingStatus

/-! ### Chart leases -/

def ensureChart (command : MarketChartCommand) : MarketSession × Except SessionFacadeError Unit :=
  match session.interests.acquireChart command with
  | .error error => (session, .error error)
  | .ok (interests, shouldSubmit) =>
    let session := { session with interests := interests }
    let leased (session : MarketSession) :=
      { session with chartLeases := session.chartLeases ++ [some command] }
    if shouldSubmit then
      match session.submitMarketCommand (.setChart command) with
      | (session, .ok ()) => (leased session, .ok ())
      | (session, .error error) =>
        ({ session with interests := (session.interests.releaseChart command.chartId).1 },
          .error error)
    else (leased session, .ok ())

/-- The checks of `MarketChartLease::update`. -/
def updatableChart (lease : Nat) (command : MarketChartCommand) :
    Except SessionFacadeError ChartInterest :=
  match session.chartLeases[lease]?.join with
  | none => .error (.invalidState "chart update requires the active lease's chart_id")
  | some held =>
    if command.chartId ≠ held.chartId then
      .error (.invalidState "chart update requires the active lease's chart_id")
    else
      match OrdMap.get? held.chartId session.interests.charts with
      | none => .error (.invalidState "chart lease is not registered")
      | some interest =>
        if interest.refs ≠ 1 then
          .error (.invalidState "cannot update a shared chart lease")
        else .ok interest

/-- `MarketChartLease::update`. -/
def updateChart (lease : Nat) (command : MarketChartCommand) :
    MarketSession × Except SessionFacadeError Unit :=
  match session.updatableChart lease command with
  | .error error => (session, .error error)
  | .ok interest =>
    if interest.command = command then (session, .ok ())
    else
      match session.submitMarketCommand (.setChart command) with
      | (session, .error error) => (session, .error error)
      | (session, .ok ()) =>
        let moved : ChartInterest := { interest with command := command }
        ({ session with
          interests := { session.interests with
            charts := OrdMap.insert command.chartId moved session.interests.charts }
          chartLeases := session.chartLeases.set lease (some command) }, .ok ())

/-- `MarketChartLease::close`. -/
def closeChart (lease : Nat) : MarketSession × Except SessionFacadeError Unit :=
  match session.chartLeases[lease]?.join with
  | none => (session, .ok ())
  | some held =>
    let released := session.interests.releaseChart held.chartId
    let session := { session with
      interests := released.1
      chartLeases := session.chartLeases.set lease none }
    if released.2 then session.submitMarketCommand (.cancelChart held.chartId)
    else (session, .ok ())

end MarketSession

/-- A chart command that the adapter accepts and the server takes for a removal. -/
def MarketCommand.namesNothing : MarketCommand → Bool
  | .setChart chart =>
    match validateChartRequest chart with
    | .ok () => joinSymbolList chart.symbols = ""
    | .error _ => false
  | _ => false

/-! ## Steps -/

inductive MarketSessionEvent
  | ensureQuotes (symbols : List Symbol)
  | ensureTradingStatus (symbols : List Symbol)
  | ensureChart (command : MarketChartCommand)
  | updateChart (lease : Nat) (command : MarketChartCommand)
  | releaseSymbols (lease : Nat) (requested : List Symbol)
  | closeQuotes (lease : Nat)
  | closeTradingStatus (lease : Nat)
  | closeChart (lease : Nat)
  | submitOther (requests : Nat)
  | establish
  | flushOutbound (recovers : Bool)
  | sent
  | refused (transport : Bool)
  | flushed
  | reconnect
  | connects
  | connectFails
  | resubmit
  | recovered

namespace MarketSession

variable (session : MarketSession)

/-- What the io task does next; the lease operations and submissions leave it alone. -/
def stepIo : MarketSessionEvent → MarketSession
  | .establish =>
    match session.phase, session.server with
    | .idle, none => { session with server := some {} }
    | _, _ => session
  | .flushOutbound recovers =>
    match session.phase, session.server with
    | .idle, some _ =>
      { session with outbound := [], phase := .flushing session.outbound recovers }
    | _, _ => session
  | .sent =>
    match session.phase with
    | .flushing (request :: rest) recovers =>
      { session with
        server := session.server.map fun server => server.receive request
        phase := .flushing rest recovers }
    | _ => session
  | .refused transport =>
    match session.phase with
    | .flushing (request :: rest) recovers =>
      -- the drained batch is gone with the request that failed
      { session with
        phase := if transport && recovers then .recovering (request :: rest) true else .idle }
    | _ => session
  | .flushed =>
    match session.phase with
    | .flushing [] _ => { session with phase := .idle }
    | _ => session
  | .reconnect =>
    match session.phase, session.server with
    | .idle, some _ => { session with phase := .recovering [] false }
    | _, _ => session
  | .connects =>
    match session.phase with
    | .recovering _ flushAfter =>
      { session with phase := .resubmitting session.adapter.recoveryCommands flushAfter }
    | _ => session
  | .connectFails =>
    match session.phase with
    | .recovering _ _ => { session with phase := .idle }
    | _ => session
  | .resubmit =>
    match session.phase with
    | .resubmitting (command :: rest) flushAfter =>
      match session.submitMarketCommand command with
      | (session, .ok ()) => { session with phase := .resubmitting rest flushAfter }
      | (session, .error _) => { session with phase := .idle }
    | _ => session
  | .recovered =>
    match session.phase with
    | .resubmitting [] true =>
      { session with
        server := some {}
        outbound := []
        phase := .flushing session.outbound false }
    | .resubmitting [] false => { session with server := some {}, phase := .idle }
    | _ => session
  | _ => session

def step : MarketSessionEvent → MarketSession
  | .ensureQuotes symbols => (session.ensureQuotes symbols).1
  | .ensureTradingStatus symbols => (session.ensureTradingStatus symbols).1
  | .ensureChart command => (session.ensureChart command).1
  | .updateChart lease command => (session.updateChart lease command).1
  | .releaseSymbols lease requested => (session.releaseSymbols lease requested).1
  | .closeQuotes lease => (session.closeQuotes lease).1
  | .closeTradingStatus lease => (session.closeTradingStatus lease).1
  | .closeChart lease => (session.closeChart lease).1
  | .submitOther requests =>
    { session with outbound := session.outbound ++ List.replicate requests .other }
  | event => session.stepIo event

/-! ### The command of a lease operation -/

def unsubscribed (interest : SymbolInterest) (symbols : List Symbol) : Option MarketCommand :=
  let released := (Tqsdk.releaseSymbols (session.interests.counts interest) symbols).2
  if released.isEmpty then none else some (interest.unsubscribe released)

def subscribed (interest : SymbolInterest) (symbols : List Symbol) : Option MarketCommand :=
  let acquired := (acquireSymbols (session.interests.counts interest) symbols).2
  if acquired.isEmpty then none else some (interest.subscribe acquired)

/-- The market command that a lease operation submits. -/
def leaseCommand : MarketSessionEvent → Option MarketCommand
  | .ensureQuotes symbols => session.subscribed .quotes symbols
  | .ensureTradingStatus symbols => session.subscribed .tradingStatus symbols
  | .ensureChart command =>
    match session.interests.acquireChart command with
    | .ok (_, true) => some (.setChart command)
    | _ => none
  | .updateChart lease command =>
    match session.updatableChart lease command with
    | .ok interest => if interest.command = command then none else some (.setChart command)
    | .error _ => none
  | .releaseSymbols lease requested =>
    session.quoteLeases[lease]?.bind fun held =>
      session.unsubscribed .quotes (held.filter fun symbol => requested.contains symbol)
  | .closeQuotes lease => session.quoteLeases[lease]?.bind (session.unsubscribed .quotes)
  | .closeTradingStatus lease =>
    session.tradingStatusLeases[lease]?.bind (session.unsubscribed .tradingStatus)
  | .closeChart lease =>
    session.chartLeases[lease]?.join.bind fun held =>
      if (session.interests.releaseChart held.chartId).2 then some (.cancelChart held.chartId)
      else none
  | _ => none

def run (events : List MarketSessionEvent) : MarketSession :=
  events.foldl step session

/-! ## What the open leases hold -/

def wantedSymbols (interest : SymbolInterest) : SymbolSet :=
  extendSymbols [] (session.leases interest).flatten

/-- The open leases of a chart, each with the command it requested last. -/
def openCharts (chartId : String) : List MarketChartCommand :=
  (session.chartLeases.filterMap id).filter fun command => command.chartId = chartId

def wantedChart (chartId : String) : Option DiffSetChartRequest :=
  (session.openCharts chartId).head?.map fun command => buildChartMessage command false

/-- The connection, while no recovery is rebuilding it. -/
def connected : Option MarketServer :=
  match session.phase with
  | .idle | .flushing _ _ => session.server
  | .recovering _ _ | .resubmitting _ _ => none

/-- The requests still to be sent on the connection. -/
def queued : List SessionRequest :=
  match session.phase with
  | .flushing rest _ => rest ++ session.outbound
  | _ => session.outbound

/-- The server has exactly what the open leases hold. -/
structure SubscribedAt (session : MarketSession) (server : MarketServer) : Prop where
  quotes : server.quotes = joinSymbols (session.wantedSymbols .quotes)
  tradingStatus : server.tradingStatus = joinSymbols (session.wantedSymbols .tradingStatus)
  charts : ∀ chartId, OrdMap.get? chartId server.charts = session.wantedChart chartId

/-- Connected with no market request queued, the server has what the leases hold. -/
def Subscribed : Prop :=
  ∀ server, session.connected = some server →
    (session.queued.all fun request => !request.isMarket) = true → session.SubscribedAt server

end MarketSession

end Tqsdk
