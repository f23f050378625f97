import Mathlib.Data.List.MinMax
import Tqsdk.Data.MinuteKlineAggregator

/-!
# The replay of K-lines from history

`history_backtest_replay.rs`, for the sources of final K-lines: rows that the caller owns, and the
canonical minutes of a cache.  Each source is a cursor with its next event, and the least of these
is delivered.
-/

namespace Tqsdk

inductive ReplayError
  | invalidState (message : String)
  | external (error : DataError)
  deriving DecidableEq

/-! ## Events -/

/-- A `ReplayMarketEvent` with a K-line. -/
structure ReplayKlineEvent where
  source : String
  symbol : String
  receivedAtNs : Int
  eventTimeNs : Int
  underlyingSymbol : Option String
  durationNs : Int
  row : Kline
  deriving DecidableEq

def blank (text : String) : Bool := (OrderLifecycle.trim text.toList).isEmpty

namespace ReplayKlineEvent

/-- `ReplayMarketEvent::kline`, with the checks of `new_shared`. -/
def kline (source symbol : String) (receivedAtNs : Int) (eventTimeNs : Option Int)
    (durationNs : Int) (row : Kline) : Except ReplayError ReplayKlineEvent :=
  if durationNs ≤ 0 then .error (.invalidState "replay kline duration must be positive")
  else if blank source then
    .error (.invalidState "replay market event source must not be empty")
  else if blank symbol then
    .error (.invalidState "replay market event symbol must not be empty")
  else if receivedAtNs < 0 then
    .error (.invalidState "replay market event received_at_ns must be non-negative")
  else if eventTimeNs.any (· < 0) then
    .error (.invalidState "replay market event event_time_ns must be non-negative")
  else .ok ⟨source, symbol, receivedAtNs, eventTimeNs.getD receivedAtNs, none, durationNs, row⟩

def withUnderlyingSymbol (event : ReplayKlineEvent) (underlyingSymbol : String) :
    Except ReplayError ReplayKlineEvent :=
  if blank underlyingSymbol then
    .error (.invalidState "replay market event underlying_symbol must not be empty")
  else .ok { event with underlyingSymbol := some underlyingSymbol }

end ReplayKlineEvent

structure QueuedEvent where
  event : ReplayKlineEvent
  sourceRank : Nat
  rowId : Int
  sourceDatetimeNs : Int
  deriving DecidableEq

/-- The row that is shown when a bar opens. -/
def openingRow (row : Kline) : Kline :=
  { row with
    high := row.open_
    low := row.open_
    close := row.open_
    volume := 0
    closeOi := row.openOi }

def klineOpenEvent (source symbol : String) (durationNs : Int) (row : Kline) (sourceRank : Nat) :
    Except ReplayError QueuedEvent := do
  let event ← ReplayKlineEvent.kline source symbol row.datetime (some row.datetime) durationNs
    (openingRow row)
  return ⟨event, sourceRank, row.id, row.datetime⟩

def klineCloseEvent (source symbol : String) (durationNs closeTime : Int) (row : Kline)
    (sourceRank : Nat) : Except ReplayError QueuedEvent := do
  let event ← ReplayKlineEvent.kline source symbol closeTime (some closeTime) durationNs row
  return ⟨event, sourceRank, row.id, row.datetime⟩

def minuteKlineOpenEvent (symbol : String) (durationNs : Int) (row : Kline) :
    Except ReplayError QueuedEvent :=
  klineOpenEvent "history-cache-minute-kline-open" symbol durationNs row 2

def minuteKlineCloseEvent (symbol : String) (durationNs closeTime : Int) (row : Kline) :
    Except ReplayError QueuedEvent :=
  klineCloseEvent "history-cache-minute-kline-close" symbol durationNs closeTime row 3

def aggregatedMinuteKlineOpenEvent (symbol : String) (durationNs : Int) (row : Kline) :
    Except ReplayError QueuedEvent :=
  klineOpenEvent "history-cache-minute-kline-aggregate-open" symbol durationNs row 2

def aggregatedMinuteKlineUpdateEvent (symbol : String) (durationNs eventTimeNs : Int)
    (row : Kline) : Except ReplayError QueuedEvent :=
  klineCloseEvent "history-cache-minute-kline-aggregate-update" symbol durationNs eventTimeNs row 3

def nativeKlineOpenEvent (symbol : String) (durationNs : Int) (row : Kline) :
    Except ReplayError QueuedEvent :=
  klineOpenEvent "history-cache-native-kline-open" symbol durationNs row 2

def nativeKlineCloseEvent (symbol : String) (durationNs closeTime : Int) (row : Kline) :
    Except ReplayError QueuedEvent :=
  klineCloseEvent "history-cache-native-kline-close" symbol durationNs closeTime row 3

/-- The event, where it is due. -/
def onlyIf (due : Prop) [Decidable due] (event : Except ReplayError QueuedEvent) :
    Except ReplayError (List QueuedEvent) :=
  if due then event.map fun event => [event] else .ok []

/-- What `minute_kline_events` adds to the queue.  A row whose close is refused may leave its open
in the queue of the source; the stream is not read on after an error. -/
def minuteKlineEvents (symbol : String) (durationNs startNs endNs : Int) (row : Kline) :
    Except ReplayError (List QueuedEvent) := do
  let opened ← onlyIf (startNs ≤ row.datetime ∧ row.datetime < endNs)
    (minuteKlineOpenEvent symbol durationNs row)
  match I64.checked (row.datetime + minuteKlineDurationNs) with
  | none => .error (.invalidState "canonical minute kline close timestamp overflow")
  | some closeTime =>
    let closed ← onlyIf (startNs ≤ closeTime ∧ closeTime < endNs)
      (minuteKlineCloseEvent symbol durationNs closeTime row)
    return opened ++ closed

/-- What a row of a native source adds. -/
def nativeRowEvents (symbol : String) (durationNs startNs endNs : Int) (row : Kline) :
    Except ReplayError (List QueuedEvent) := do
  let opened ← onlyIf (startNs ≤ row.datetime ∧ row.datetime < endNs)
    (nativeKlineOpenEvent symbol durationNs row)
  match I64.checked (row.datetime + durationNs) with
  | none => return opened
  | some closeTime =>
    let closed ← onlyIf (startNs ≤ closeTime ∧ closeTime < endNs)
      (nativeKlineCloseEvent symbol durationNs closeTime row)
    return opened ++ closed

def QueuedEvent.sortKey (queued : QueuedEvent) : Int ×ₗ Nat ×ₗ Int ×ₗ Int :=
  toLex (queued.event.eventTimeNs, toLex (queued.sourceRank,
    toLex (queued.rowId, queued.event.receivedAtNs)))

def nativeKlineEvents (symbol : String) (durationNs startNs endNs : Int) (rows : List Kline) :
    Except ReplayError (List QueuedEvent) := do
  let events ← rows.mapM (nativeRowEvents symbol durationNs startNs endNs)
  return events.flatten.mergeSort fun left right => decide (left.sortKey ≤ right.sortKey)

/-! ## Sources -/

structure MinuteKlineUnderlyingSegment where
  startNs : Int
  endNs : Int
  underlyingSymbol : String
  deriving DecidableEq

inductive UnderlyingProjection
  | none
  | static (symbol : String)
  | segments (mapping : List MinuteKlineUnderlyingSegment)

/-- The segment that a timestamp lies in. -/
def segmentAt (segments : List MinuteKlineUnderlyingSegment) (timestampNs : Int) :
    Option MinuteKlineUnderlyingSegment :=
  segments.find? fun segment =>
    decide (segment.startNs ≤ timestampNs ∧ timestampNs < segment.endNs)

def UnderlyingProjection.resolve (projection : UnderlyingProjection) (sourceDatetimeNs : Int) :
    Except ReplayError (Option String) :=
  match projection with
  | .none => .ok Option.none
  | .static symbol => .ok (some symbol)
  | .segments mapping =>
    match segmentAt mapping sourceDatetimeNs with
    | some segment => .ok (some segment.underlyingSymbol)
    | Option.none =>
      .error (.invalidState "minute kline event is outside its continuous-underlying mapping")

/-- A minute source with the rows that its reader gives.  There is an aggregator when the duration
is more than a minute. -/
structure MinuteKlineProducer where
  rows : List Kline
  rangeStartNs : Int
  rangeEndNs : Int
  durationNs : Int
  aggregator : Option MinuteKlineAggregator
  pending : List QueuedEvent

inductive CursorProducer
  | nativeKline (events : List QueuedEvent)
  | minuteKline (producer : MinuteKlineProducer)

namespace MinuteKlineProducer

variable (producer : MinuteKlineProducer)

/-- The open of a bar that an update of the aggregator adds to the queue. -/
def openedEvents (symbol : String) (update : MinuteKlineAggregationUpdate) :
    Except ReplayError (List QueuedEvent) :=
  match update.opened with
  | none => .ok []
  | some opened =>
    onlyIf (producer.rangeStartNs ≤ opened.datetime ∧ opened.datetime < producer.rangeEndNs)
      (aggregatedMinuteKlineOpenEvent symbol producer.durationNs opened)

/-- What an update of the aggregator adds to the queue. -/
def aggregatedEvents (symbol : String) (update : MinuteKlineAggregationUpdate) :
    Except ReplayError (List QueuedEvent) := do
  let opened ← producer.openedEvents symbol update
  let updated ←
    onlyIf (producer.rangeStartNs ≤ update.eventTimeNs ∧ update.eventTimeNs < producer.rangeEndNs)
      (aggregatedMinuteKlineUpdateEvent symbol producer.durationNs update.eventTimeNs
        update.updated)
  return opened ++ updated

/-- What a row adds to the queue, and the aggregator after it. -/
def queueRow (symbol : String) (row : Kline) :
    Except ReplayError (Option MinuteKlineAggregator × List QueuedEvent) :=
  match producer.aggregator with
  | none => do
      let events ← minuteKlineEvents symbol producer.durationNs producer.rangeStartNs
        producer.rangeEndNs row
      return (none, events)
  | some aggregator =>
    match aggregator.update row with
    | .error error => .error (.external error)
    | .ok (aggregator, none) => .ok (some aggregator, [])
    | .ok (aggregator, some update) => do
        let events ← producer.aggregatedEvents symbol update
        return (some aggregator, events)

/-- The loop over the rows that are left. -/
def nextFrom (symbol : String) : List Kline → MinuteKlineProducer →
    Except ReplayError (Option QueuedEvent × MinuteKlineProducer)
  | [], producer =>
    match producer.pending with
    | event :: pending => .ok (some event, { producer with rows := [], pending })
    | [] => .ok (none, { producer with rows := [] })
  | row :: rows, producer =>
    match producer.pending with
    | event :: pending => .ok (some event, { producer with rows := row :: rows, pending })
    | [] => do
        let (aggregator, pending) ← producer.queueRow symbol row
        nextFrom symbol rows { producer with aggregator, pending }

end MinuteKlineProducer

def CursorProducer.nextEvent (symbol : String) :
    CursorProducer → Except ReplayError (Option QueuedEvent × CursorProducer)
  | .nativeKline [] => .ok (none, .nativeKline [])
  | .nativeKline (event :: events) => .ok (some event, .nativeKline events)
  | .minuteKline producer => do
      let (event, producer) ← MinuteKlineProducer.nextFrom symbol producer.rows producer
      return (event, .minuteKline producer)

/-! ## The stream -/

structure HistoryCursor where
  symbol : String
  underlyingProjection : UnderlyingProjection
  symbolRank : Nat
  producer : CursorProducer
  next : Option QueuedEvent

/-- A cursor whose next event is in the heap. -/
structure HeapItem where
  cursorIndex : Nat
  cursor : HistoryCursor
  queued : QueuedEvent

def HeapItem.key (item : HeapItem) : Int ×ₗ Nat ×ₗ Nat ×ₗ Int ×ₗ Nat :=
  toLex (item.queued.event.eventTimeNs, toLex (item.queued.sourceRank,
    toLex (item.cursor.symbolRank, toLex (item.queued.rowId, item.cursorIndex))))

/-- The heap has an item for each cursor with a next event and is read off the cursors. -/
structure HistoryBacktestReplayStream where
  cursors : List HistoryCursor
  refillCursor : Option Nat

def HistoryCursor.pushNextEvent (cursor : HistoryCursor) : Except ReplayError HistoryCursor :=
  match cursor.next with
  | some _ => .ok cursor
  | none => do
      let (next, producer) ← cursor.producer.nextEvent cursor.symbol
      return { cursor with producer, next }

namespace HistoryBacktestReplayStream

def heap (cursors : List HistoryCursor) : List HeapItem :=
  cursors.zipIdx.filterMap fun (cursor, cursorIndex) =>
    cursor.next.map fun queued => ⟨cursorIndex, cursor, queued⟩

def leastItem {κ : Type} [LinearOrder κ] (key : HeapItem → κ) (items : List HeapItem) :
    Option HeapItem := items.argmin key

def popLeast (cursors : List HistoryCursor) : Option HeapItem :=
  leastItem HeapItem.key (heap cursors)

def refill (stream : HistoryBacktestReplayStream) : Except ReplayError (List HistoryCursor) :=
  match stream.refillCursor with
  | none => .ok stream.cursors
  | some cursorIndex =>
    match stream.cursors[cursorIndex]? with
    | none => .ok stream.cursors
    | some cursor => do
        let cursor ← cursor.pushNextEvent
        return stream.cursors.set cursorIndex cursor

/-- The event with the underlying of its time. -/
def project (projection : UnderlyingProjection) (queued : QueuedEvent) :
    Except ReplayError ReplayKlineEvent := do
  match ← projection.resolve queued.sourceDatetimeNs with
  | some underlyingSymbol => queued.event.withUnderlyingSymbol underlyingSymbol
  | none => return queued.event

def nextEventSync (stream : HistoryBacktestReplayStream) :
    Except ReplayError (Option ReplayKlineEvent × HistoryBacktestReplayStream) := do
  let cursors ← stream.refill
  match popLeast cursors with
  | none => return (none, ⟨cursors, none⟩)
  | some item =>
    let event ← project item.cursor.underlyingProjection item.queued
    return (some event,
      ⟨cursors.set item.cursorIndex { item.cursor with next := none }, some item.cursorIndex⟩)

/-- The end of `new_projected_inner`: the cursors get their ranks and their first events. -/
def start (cursors : List HistoryCursor) : Except ReplayError HistoryBacktestReplayStream := do
  let symbols := (cursors.map HistoryCursor.symbol).dedup
  let ranked := cursors.map fun cursor =>
    { cursor with symbolRank := (symbols.filter (· < cursor.symbol)).length }
  let cursors ← ranked.mapM HistoryCursor.pushNextEvent
  return ⟨cursors, none⟩

end HistoryBacktestReplayStream

/-! ## Requests -/

structure HistoryBacktestNativeKlineSource where
  replaySymbol : String
  durationNs : Int
  rows : List Kline
  underlyingSegments : List MinuteKlineUnderlyingSegment

/-- A minute source, with the rows of its cache and the session hash of its snapshot. -/
structure HistoryBacktestMinuteKlineSource where
  cacheRows : List Kline
  snapshotSessionHash : String
  replaySymbol : String
  cacheSymbol : String
  startNs : Int
  endNs : Int
  durationNs : Int
  session : KlineSessionTemplate
  underlyingSegments : List MinuteKlineUnderlyingSegment

structure HistoryBacktestProjectedReplayRequest where
  startNs : Int
  endNs : Int
  nativeKlineSources : List HistoryBacktestNativeKlineSource
  minuteKlineSources : List HistoryBacktestMinuteKlineSource

def invalidReplay {α : Type} (message : String) : Except ReplayError α :=
  .error (.invalidState message)

def validateReplaySymbol (symbol : String) : Except ReplayError Unit :=
  if symbol.isEmpty then invalidReplay "history backtest replay symbol must not be empty"
  else .ok ()

def validateReplayKlineRequest (symbol : String) (durationNs : Int) : Except ReplayError Unit := do
  validateReplaySymbol symbol
  if durationNs ≤ 0 then invalidReplay "history backtest kline duration must be positive"
  else .ok ()

/-- The loop of `validate_minute_underlying_segments`. -/
def validateSegments (endNs : Int) :
    Int → List MinuteKlineUnderlyingSegment → Except ReplayError Unit
  | expectedStartNs, [] =>
    if expectedStartNs ≠ endNs then
      invalidReplay "minute kline underlying segments must cover the complete source range"
    else .ok ()
  | expectedStartNs, segment :: segments => do
      validateReplaySymbol segment.underlyingSymbol
      if segment.startNs ≠ expectedStartNs ∨ segment.endNs ≤ segment.startNs then
        invalidReplay "minute kline underlying segments must be contiguous and non-empty"
      else if endNs < segment.endNs then
        invalidReplay "minute kline underlying segment exceeds its source range"
      else validateSegments endNs segment.endNs segments

namespace HistoryBacktestMinuteKlineSource

variable (source : HistoryBacktestMinuteKlineSource)

def validateUnderlyingSegments : Except ReplayError Unit :=
  if source.underlyingSegments.isEmpty then
    if "KQ.m@".toList.isPrefixOf source.replaySymbol.toList then
      invalidReplay "continuous minute kline source requires complete underlying segments"
    else .ok ()
  else validateSegments source.endNs source.startNs source.underlyingSegments

/-- `validate_projected_minute_kline_source`. -/
def validate (requestStartNs requestEndNs : Int) : Except ReplayError Unit := do
  validateReplaySymbol source.replaySymbol
  validateReplaySymbol source.cacheSymbol
  if source.endNs ≤ source.startNs then
    invalidReplay "projected minute kline source start_ns must be less than end_ns"
  else if source.startNs < requestStartNs ∨ requestEndNs < source.endNs then
    invalidReplay "projected minute kline source must be inside replay request range"
  else if source.durationNs ≠ minuteKlineDurationNs ∧
      (source.durationNs ≤ minuteKlineDurationNs ∨
        source.durationNs % minuteKlineDurationNs ≠ 0) then
    invalidReplay
      "minute kline source duration must be 60 seconds or an integer multiple above it"
  else if source.snapshotSessionHash ≠ source.session.snapshotHash then
    invalidReplay "minute kline source session hash does not match its cache snapshot"
  else source.validateUnderlyingSegments

def aggregator : Except ReplayError (Option MinuteKlineAggregator) :=
  if minuteKlineDurationNs < source.durationNs then
    match MinuteKlineAggregator.new source.durationNs source.session with
    | .error error => .error (.external error)
    | .ok aggregator => .ok (some aggregator)
  else .ok none

def underlyingProjection : UnderlyingProjection :=
  if source.underlyingSegments.isEmpty then
    if source.replaySymbol ≠ source.cacheSymbol then .static source.cacheSymbol else .none
  else .segments source.underlyingSegments

/-- The rows that the reader of the cache gives. -/
def rows : List Kline :=
  source.cacheRows.filter fun row =>
    decide (source.startNs ≤ row.datetime ∧ row.datetime < source.endNs)

def cursor (requestStartNs requestEndNs : Int) : Except ReplayError HistoryCursor := do
  source.validate requestStartNs requestEndNs
  let aggregator ← source.aggregator
  .ok
    { symbol := source.replaySymbol
      underlyingProjection := source.underlyingProjection
      symbolRank := 0
      producer := .minuteKline
        ⟨source.rows, source.startNs, source.endNs, source.durationNs, aggregator, []⟩
      next := none }

end HistoryBacktestMinuteKlineSource

def HistoryBacktestNativeKlineSource.cursor (source : HistoryBacktestNativeKlineSource)
    (requestStartNs requestEndNs : Int) : Except ReplayError HistoryCursor := do
  validateReplayKlineRequest source.replaySymbol source.durationNs
  let events ← nativeKlineEvents source.replaySymbol source.durationNs requestStartNs requestEndNs
    source.rows
  .ok
    { symbol := source.replaySymbol
      underlyingProjection :=
        if source.underlyingSegments.isEmpty then .none
        else .segments source.underlyingSegments
      symbolRank := 0
      producer := .nativeKline events
      next := none }

/-- `new_projected_inner`, for the sources of final K-lines. -/
def HistoryBacktestReplayStream.newProjected (request : HistoryBacktestProjectedReplayRequest) :
    Except ReplayError HistoryBacktestReplayStream := do
  if request.endNs ≤ request.startNs then
    invalidReplay "history backtest replay end_ns must be greater than start_ns"
  else do
    let native ← request.nativeKlineSources.mapM (·.cursor request.startNs request.endNs)
    let minute ← request.minuteKlineSources.mapM (·.cursor request.startNs request.endNs)
    start (native ++ minute)

end Tqsdk
