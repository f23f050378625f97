import Tqsdk.Adapter.Common
import Tqsdk.Relay.Interests
import Tqsdk.Relay.MarketCache

/-!
# The relay engine

Commands and market events enter, frames for clients come out.  A frame carries the `data` of its
`rtn_data` message.  What the engine keeps for its metrics, its bootstrap queue and its record of
upstream subscriptions does not reach a frame and is left out.
-/

namespace Tqsdk

inductive MarketUpdate
  | quote (symbol : String) (quote : CachedQuote)
  | ticks (symbol : String) (lastId : Int) (rows : List RelayTickRow)
  | kline (symbol : String) (durationNs : Int) (row : RelayKlineRow)
  | binding (primary : String) (durationNs : Int) (secondary : String)
      (primaryId secondaryId : Int)
  | chart (chartId insList : String) (durationNs : Int) (viewWidth : Nat) (leftId rightId : Int)
  | chartDeleted (chartId : String)
  deriving DecidableEq

structure DownstreamFrame where
  clientId : ClientId
  data : List MarketUpdate
  deriving DecidableEq

structure KlineSourceKey where
  durationNs : Int
  symbol : String
  deriving DecidableEq

namespace KlineSourceKey

def fields (key : KlineSourceKey) : Int ×ₗ String := toLex (key.durationNs, key.symbol)

theorem fields_injective : Function.Injective fields := by
  rintro ⟨dur, sym⟩ ⟨durationNs', symbol'⟩ same
  simpa [fields] using same

instance : LinearOrder KlineSourceKey := LinearOrder.lift' fields fields_injective

end KlineSourceKey

structure RelayEngine where
  cache : MarketCache
  interests : InterestRegistry
  klines : List (KlineSourceKey × KlineSynthesis)
  completedKlines : List (KlineSourceKey × List RelayKlineRow)
  persistedOfficialKlines : List (KlineSourceKey × List RelayKlineRow)
  officialKlineSources : List KlineSourceKey

namespace RelayEngine

def maxDownstreamTickViewWidth : Nat := 10000

def newMemoryOnly (sizes : EntrySizes) (tickCapacity klineCapacity : Nat)
    (limits : MarketCacheLimits) : RelayEngine :=
  ⟨.withLimits sizes tickCapacity klineCapacity limits, .empty, [], [], [], []⟩

variable (engine : RelayEngine)

def completedRows (key : KlineSourceKey) : List RelayKlineRow :=
  (OrdMap.get? key engine.completedKlines).getD []

def persistedRows (key : KlineSourceKey) : List RelayKlineRow :=
  (OrdMap.get? key engine.persistedOfficialKlines).getD []

/-! ## Frames -/

def chartUpdate (subscription : ChartSubscription) (source : SourceKey) (leftId rightId : Int) :
    MarketUpdate :=
  .chart subscription.chartId (",".intercalate subscription.symbols) source.durationNs
    source.viewWidth leftId rightId

def quoteFrames (symbol : String) : List DownstreamFrame :=
  match engine.cache.quote? symbol with
  | none => []
  | some quote =>
    (engine.interests.quoteClients symbol).map fun clientId => ⟨clientId, [.quote symbol quote]⟩

def cachedQuoteFramesForClient (clientId : ClientId) (symbols : List String) :
    List DownstreamFrame :=
  symbols.filterMap fun symbol =>
    (engine.cache.quote? symbol).map fun quote => ⟨clientId, [.quote symbol quote]⟩

/-- The first and last id that a tick chart of the width shows. -/
def tickWindowBounds (symbol : String) (viewWidth : Nat) : Int × Int :=
  let rows := (engine.cache.tickRing symbol).getD []
  let visible := min rows.length viewWidth
  if visible = 0 then (-1, -1)
  else
    ((rows[rows.length - visible]?).elim (-1) RelayTickRow.id,
      rows.getLast?.elim (-1) RelayTickRow.id)

def isPrimary (subscription : ChartSubscription) (symbol : String) : Bool :=
  subscription.symbols.head?.any fun primary => decide (primary = symbol)

/-- The tick itself goes once to each client, then every chart to its own. -/
def tickChartFrames (symbol : String) (row : RelayTickRow) : List DownstreamFrame :=
  let sources := (engine.interests.sourcesForSymbol symbol).filter (·.durationNs = 0)
  let clients := (sources.flatMap fun source =>
    (engine.interests.chartSubscriptions source).map (·.clientId))
  let charts := sources.flatMap fun source =>
    let bounds := engine.tickWindowBounds symbol source.viewWidth
    ((engine.interests.chartSubscriptions source).filter fun subscription =>
      isPrimary subscription symbol).map fun subscription =>
        (⟨subscription.clientId, [chartUpdate subscription source bounds.1 bounds.2]⟩ :
          DownstreamFrame)
  ((clients.insertionSort (· ≤ ·)).dedup.map fun clientId =>
    ⟨clientId, [.ticks symbol row.id [row]]⟩) ++ charts

/-- The data of the cached ticks that a chart of the width shows. -/
def tickRowsUpdate (symbol : String) (viewWidth : Nat) : MarketUpdate :=
  let rows := (engine.cache.tickRing symbol).getD []
  let shown := rows.drop (rows.length - viewWidth)
  match shown.getLast? with
  | none => .ticks symbol (-1) []
  | some last => .ticks symbol last.id shown

def replayCachedTickFrames (subscription : ChartSubscription) (source : SourceKey) :
    List DownstreamFrame :=
  let bounds := engine.tickWindowBounds (subscription.symbols.head?.getD "") source.viewWidth
  (subscription.symbols.map fun symbol =>
    (⟨subscription.clientId, [engine.tickRowsUpdate symbol source.viewWidth]⟩ :
      DownstreamFrame)) ++
  [⟨subscription.clientId, [chartUpdate subscription source bounds.1 bounds.2]⟩]

/-! ## K-lines -/

/-- Adds a completed bar, unless the last one has its id. -/
def recordRow (capacity : Nat) (rows : List RelayKlineRow) (row : RelayKlineRow) :
    List RelayKlineRow :=
  if rows.getLast?.any (·.id = row.id) then rows else trimRing capacity (rows ++ [row])

def recordCompletedKline (key : KlineSourceKey) (row : RelayKlineRow) : RelayEngine :=
  { engine with
    completedKlines := OrdMap.insert key
      (recordRow engine.cache.klineCapacity (engine.completedRows key) row)
      engine.completedKlines }

/-- Overwrites the row with the id, or adds the row and drops the oldest beyond the capacity. -/
def putOfficialRow (capacity : Nat) (rows : List RelayKlineRow) (row : RelayKlineRow) :
    List RelayKlineRow :=
  if hasRow RelayKlineRow.id rows row then overwriteRow RelayKlineRow.id row rows
  else trimRing capacity (rows ++ [row])

def recordPersistedOfficialKline (key : KlineSourceKey) (row : RelayKlineRow) : RelayEngine :=
  { engine with
    persistedOfficialKlines := OrdMap.insert key
      (putOfficialRow engine.cache.klineCapacity (engine.persistedRows key) row)
      engine.persistedOfficialKlines }

def completedKlineId (source : SourceKey) (symbol : String) (datetime : Int) : Option Int :=
  ((engine.completedRows ⟨source.durationNs, symbol⟩).find? (·.datetime = datetime)).map (·.id)

def bindingUpdates (source : SourceKey) (subscription : ChartSubscription)
    (completedSymbol : String) (completed : RelayKlineRow) : List MarketUpdate :=
  match subscription.symbols with
  | primary :: secondary :: others =>
    if completedSymbol = primary then
      (secondary :: others).filterMap fun other =>
        (engine.completedKlineId source other completed.datetime).map fun otherId =>
          .binding primary source.durationNs other completed.id otherId
    else if completedSymbol ∈ secondary :: others then
      (engine.completedKlineId source primary completed.datetime).toList.map fun primaryId =>
        .binding primary source.durationNs completedSymbol primaryId completed.id
    else []
  | _ => []

/-- The frames of one completed bar for one chart. -/
def completedFrames (source : SourceKey) (subscription : ChartSubscription) (symbol : String)
    (completed : RelayKlineRow) : List DownstreamFrame :=
  ⟨subscription.clientId, [.kline symbol source.durationNs completed]⟩ ::
  ((engine.bindingUpdates source subscription symbol completed).map fun update =>
    ⟨subscription.clientId, [update]⟩) ++
  if isPrimary subscription symbol then
    [⟨subscription.clientId, [chartUpdate subscription source completed.id completed.id]⟩]
  else []

/-- One completed bar for all charts of its symbol and duration. -/
def completeKline (key : KlineSourceKey) (sources : List SourceKey) (completed : RelayKlineRow) :
    RelayEngine × List DownstreamFrame :=
  let engine := engine.recordCompletedKline key completed
  (engine, sources.flatMap fun source =>
    (engine.interests.chartSubscriptions source).flatMap fun subscription =>
      engine.completedFrames source subscription key.symbol completed)

def completeKlines (engine : RelayEngine) (key : KlineSourceKey) (sources : List SourceKey) :
    List RelayKlineRow → RelayEngine × List DownstreamFrame
  | [] => (engine, [])
  | completed :: rest =>
    let first := engine.completeKline key sources completed
    let later := first.1.completeKlines key sources rest
    (later.1, first.2 ++ later.2)

def synthesisOf (key : KlineSourceKey) : KlineSynthesis :=
  (OrdMap.get? key engine.klines).getD (.new key.durationNs)

/-- One tick for the sources of one duration. -/
def klineFramesOf (symbol : String) (row : RelayTickRow) (durationNs : Int) :
    RelayEngine × List DownstreamFrame :=
  let key : KlineSourceKey := ⟨durationNs, symbol⟩
  if key ∈ engine.officialKlineSources then (engine, [])
  else
    let pushed := (engine.synthesisOf key).pushTick row
    { engine with
        klines := OrdMap.insert key pushed.1 engine.klines }.completeKlines key
      ((engine.interests.sourcesForSymbol symbol).filter (·.durationNs = durationNs)) pushed.2

def klineDurations (symbol : String) : List Int :=
  ((((engine.interests.sourcesForSymbol symbol).map (·.durationNs)).filter (0 < ·)).insertionSort
    (· ≤ ·)).dedup

def klineFrames (symbol : String) (row : RelayTickRow) : RelayEngine × List DownstreamFrame :=
  (engine.klineDurations symbol).foldl (fun state durationNs =>
    ((state.1.klineFramesOf symbol row durationNs).1,
      state.2 ++ (state.1.klineFramesOf symbol row durationNs).2)) (engine, [])

/-! ## Replay -/

/-- Restored official rows take the place of the synthesized ones. -/
def restoreOfficial (key : KlineSourceKey) : RelayEngine :=
  match OrdMap.get? key engine.persistedOfficialKlines with
  | none => engine
  | some rows =>
    { engine with
      officialKlineSources := engine.officialKlineSources.insert key
      klines := OrdMap.erase key engine.klines
      completedKlines := OrdMap.insert key rows engine.completedKlines }

/-- Make the synthesizer of a source from the cached ticks, when there is none; without ticks
nothing is replayed. -/
def rebuildSynthesis (key : KlineSourceKey) : Option RelayEngine :=
  if (OrdMap.get? key engine.klines).isSome then some engine
  else
    match (engine.cache.tickRing key.symbol).getD [] with
    | [] => none
    | first :: rest =>
      let pushed := (KlineSynthesis.new key.durationNs).pushTicks (first :: rest)
      let recorded := pushed.2.foldl (fun engine row => engine.recordCompletedKline key row) engine
      some { recorded with klines := OrdMap.insert key pushed.1 recorded.klines }

structure KlineReplay where
  engine : RelayEngine
  klineUpdates : List MarketUpdate
  bindingUpdates : List MarketUpdate
  lastPrimaryCompletedId : Option Int

def replaySymbol (subscription : ChartSubscription) (source : SourceKey) (replay : KlineReplay)
    (symbol : String) : KlineReplay :=
  let key : KlineSourceKey := ⟨source.durationNs, symbol⟩
  let restored := replay.engine.restoreOfficial key
  match restored.rebuildSynthesis key with
  | none => { replay with engine := restored }
  | some engine =>
    let rows := engine.completedRows key
    { engine
      klineUpdates := replay.klineUpdates ++ rows.map (.kline symbol source.durationNs)
      bindingUpdates := replay.bindingUpdates ++
        rows.flatMap (engine.bindingUpdates source subscription symbol)
      lastPrimaryCompletedId :=
        if isPrimary subscription symbol then
          (rows.getLast?.map (·.id)).or replay.lastPrimaryCompletedId
        else replay.lastPrimaryCompletedId }

def replayCachedKlineFrames (subscription : ChartSubscription) (source : SourceKey) :
    RelayEngine × List DownstreamFrame :=
  if source.durationNs ≤ 0 then (engine, [])
  else
    let replay := source.symbols.foldl (replaySymbol subscription source) ⟨engine, [], [], none⟩
    let updates := replay.klineUpdates ++ replay.bindingUpdates ++
      replay.lastPrimaryCompletedId.toList.map fun lastId =>
        chartUpdate subscription source lastId lastId
    (replay.engine, if updates = [] then [] else [⟨subscription.clientId, updates⟩])

def isActiveKey (key : KlineSourceKey) : Bool :=
  engine.interests.activeChartSources.any fun source =>
    decide (source.durationNs = key.durationNs ∧ key.symbol ∈ source.symbols)

/-- Forget the synthesis of sources that no chart shows. -/
def pruneInactiveKlineState : RelayEngine :=
  { engine with
    klines := engine.klines.filter fun entry => engine.isActiveKey entry.1
    completedKlines := engine.completedKlines.filter fun entry => engine.isActiveKey entry.1 }

/-! ## Operations -/

def setChart (engine : RelayEngine) (clientId : ClientId) (command : SetChartCommand) :
    RelayResult (RelayEngine × List DownstreamFrame) :=
  if command.symbols = [] then
    .ok ({ engine with
        interests :=
          engine.interests.removeChart clientId command.chartId }.pruneInactiveKlineState,
      [⟨clientId, [.chartDeleted command.chartId]⟩])
  else if command.durationNs = 0 ∧ command.symbols.length ≠ 1 then
    .error (.invalidProtocol "tick chart requires exactly one symbol")
  else if command.durationNs = 0 ∧ maxDownstreamTickViewWidth < command.viewWidth then
    .error (.invalidProtocol "tick chart view_width exceeds 10000")
  else
    let subscription : ChartSubscription :=
      ⟨clientId, command.chartId, preserveSymbolOrder command.symbols⟩
    let source := InterestRegistry.sourceOf command
    let engine := { engine with
      interests := engine.interests.setChart clientId command }.pruneInactiveKlineState
    if source.durationNs = 0 then
      .ok (engine, engine.replayCachedTickFrames subscription source)
    else .ok (engine.replayCachedKlineFrames subscription source)

def handleCommand (clientId : ClientId) :
    DownstreamCommand → RelayResult (RelayEngine × List DownstreamFrame)
  | .subscribeQuote symbols =>
    .ok ({ engine with interests := engine.interests.setQuotes clientId symbols },
      engine.cachedQuoteFramesForClient clientId symbols)
  | .setChart command => engine.setChart clientId command
  | .peekMessage => .ok (engine, [])

def ingestTick (symbol : String) (row : RelayTickRow) : RelayEngine × List DownstreamFrame :=
  let engine := { engine with cache := (engine.cache.pushTick symbol row).1 }
  let synthesized := engine.klineFrames symbol row
  (synthesized.1,
    engine.quoteFrames symbol ++ engine.tickChartFrames symbol row ++ synthesized.2)

/-- The time of a quote: a number, or a local date and time that the calendar reads. -/
def parseQuoteDatetimeNs (calendar : String → Option Int) (datetime : String) : Option Int :=
  if trimmed datetime = "" then none
  else (parseI64 (trimmed datetime)).or (calendar (trimmed datetime))

def quoteToSyntheticTick (calendar : String → Option Int) (quote : RelayQuote) :
    Option RelayTickRow :=
  (parseQuoteDatetimeNs calendar quote.datetime).bind fun datetime =>
    if quote.lastPrice.isFinite then
      some ⟨datetime, datetime, quote.lastPrice, quote.volume, quote.openInterest⟩
    else none

def ingestQuote (calendar : String → Option Int) (engine : RelayEngine) (symbol : String)
    (quote : RelayQuote) : RelayEngine × List DownstreamFrame :=
  let engine := { engine with cache := (engine.cache.pushQuote symbol quote).1 }
  match quoteToSyntheticTick calendar quote with
  | none => (engine, engine.quoteFrames symbol)
  | some row =>
    let synthesized := engine.klineFrames symbol row
    (synthesized.1, engine.quoteFrames symbol ++ synthesized.2)

/-- An official row for one source that shows its symbol and duration. -/
def ingestOfficialFor (key : KlineSourceKey) (row : RelayKlineRow)
    (state : RelayEngine × List DownstreamFrame) (source : SourceKey) :
    RelayEngine × List DownstreamFrame :=
  let engine := state.1
  ({ engine with
      officialKlineSources := engine.officialKlineSources.insert key
      klines := OrdMap.erase key engine.klines
      completedKlines := OrdMap.insert key
        (putOfficialRow engine.cache.klineCapacity (engine.completedRows key) row)
        engine.completedKlines },
    state.2 ++ (engine.interests.chartSubscriptions source).map fun subscription =>
      ⟨subscription.clientId, [.kline key.symbol key.durationNs row]⟩)

def ingestOfficialKline (symbol : String) (durationNs : Int) (row : RelayKlineRow) :
    RelayResult (RelayEngine × List DownstreamFrame) :=
  if durationNs ≤ 0 then
    .error (.invalidProtocol "official Kline duration must be positive")
  else
    let key : KlineSourceKey := ⟨durationNs, symbol⟩
    .ok (((engine.interests.sourcesForSymbol symbol).filter (·.durationNs = durationNs)).foldl
      (ingestOfficialFor key row) (engine.recordPersistedOfficialKline key row, []))

def restoreRollingTicks (symbol : String) (rows : List RelayTickRow) : RelayEngine :=
  { engine with
    cache := rows.foldl (fun cache row => (cache.pushTick symbol row).1) engine.cache }

def restoreOfficialRollingKlines (symbol : String) (durationNs : Int) (rows : List RelayKlineRow) :
    RelayResult RelayEngine :=
  if durationNs ≤ 0 then
    .error (.invalidProtocol "restored official Kline duration must be positive")
  else
    .ok (rows.foldl (fun engine row =>
      engine.recordPersistedOfficialKline ⟨durationNs, symbol⟩ row) engine)

def removeClient (engine : RelayEngine) (clientId : ClientId) : RelayEngine :=
  { engine with
    interests := engine.interests.removeClient clientId }.pruneInactiveKlineState

end RelayEngine

end Tqsdk
