import Tqsdk.Data.BarGrid
import Tqsdk.Data.MinuteCheckpoint

/-!
# Plans of history requests

`plan_request` and `FrozenBacktestHistoryPlanBasis::plan_range` of `backtest_history/planner.rs`.
Both choose the cache symbols and ranges that a request reads: the first from the metadata in the
cache, the second from what the first has kept.

`CacheMetadata` is what the metadata files of the cache answer, and `parseDate` the parser of
`%Y-%m-%d` dates, which gives days from the epoch on.
-/

namespace Tqsdk

structure BacktestHistoryTradingDay where
  date : String
  isTradingDay : Bool
  startNs : Int
  endNs : Int
  deriving DecidableEq

structure BacktestHistoryPhysicalSegment where
  physicalSymbol : String
  startNs : Int
  endNs : Int
  deriving DecidableEq

structure BacktestHistoryMetadataSnapshot where
  schemaVersion : Nat
  tradingDays : List BacktestHistoryTradingDay
  session : KlineSessionTemplate
  physicalSegments : List BacktestHistoryPhysicalSegment
  snapshotHash : String

structure CacheMetadata where
  resolveMinute : String → Int → Int → Except DataError (Option BacktestHistoryMetadataSnapshot)
  resolveBacktest : String → Int → Int → Except DataError (Option BacktestHistoryMetadataSnapshot)
  storedDaily : String → Except DataError (Option MinuteKlineCacheSnapshot)

inductive BacktestHistoryFinality
  | final
  | provisional (asOfNs : Int)
  deriving DecidableEq

structure ValidatedBacktestHistoryRequest where
  requestId : Nat
  symbol : String
  kind : BacktestHistoryKind
  durationNs : Option Int
  startNs : Int
  endNs : Int
  provisionalAsOfNs : Option Int
  deriving DecidableEq

structure PlannedSourceSlice where
  cacheSymbol : String
  range : Int × Int
  physicalRank : Nat
  deriving DecidableEq

structure FrozenBacktestHistoryPlanBasis where
  symbol : String
  kind : BacktestHistoryKind
  durationNs : Option Int
  baseSource : PlannedBaseSource
  session : KlineSessionTemplate
  tradingDays : Option (List BacktestHistoryTradingDay)
  minuteSnapshot : MinuteKlineCacheSnapshot
  snapshotHash : String
  sourceMappingSegments : List BacktestHistoryPhysicalSegment
  finality : BacktestHistoryFinality
  directNativeDaily : Bool

structure PlannedBacktestHistoryRequest where
  requestId : Nat
  symbol : String
  kind : BacktestHistoryKind
  durationNs : Option Int
  baseSource : PlannedBaseSource
  requestedRange : Int × Int
  effectiveEndNs : Int
  expandedSourceRange : Int × Int
  sourceSlices : List PlannedSourceSlice
  provenEmptyRanges : List (Int × Int)
  physicalSegments : List BacktestHistoryPhysicalSegment
  session : KlineSessionTemplate
  minuteSnapshot : MinuteKlineCacheSnapshot
  snapshotHash : String
  finality : BacktestHistoryFinality
  contextBasis : FrozenBacktestHistoryPlanBasis

/-! ## Segments -/

def startsWith (symbol text : String) : Bool := text.toList.isPrefixOf symbol.toList

def intersectSegment (requested : Int × Int) (segment : BacktestHistoryPhysicalSegment) :
    BacktestHistoryPhysicalSegment :=
  ⟨segment.physicalSymbol, max segment.startNs requested.1, min segment.endNs requested.2⟩

def intersectSegments (segments : List BacktestHistoryPhysicalSegment) (requested : Int × Int) :
    List BacktestHistoryPhysicalSegment :=
  (segments.map (intersectSegment requested)).filter fun segment =>
    decide (segment.startNs < segment.endNs)

/-- The loop of `segments_cover_range` from a cursor on. -/
def coverFrom (stop cursor : Int) : List BacktestHistoryPhysicalSegment → Bool
  | [] => false
  | segment :: rest =>
    if segment.endNs ≤ cursor ∨ stop ≤ segment.startNs then coverFrom stop cursor rest
    else if cursor < segment.startNs then false
    else
      let cursor := max cursor segment.endNs
      if stop ≤ cursor then true else coverFrom stop cursor rest

def segmentsCoverRange (segments : List BacktestHistoryPhysicalSegment) (requested : Int × Int) :
    Bool :=
  coverFrom requested.2 requested.1 segments

/-! ## Tick ranges -/

/-- The start of the trading day before the one of a timestamp, when the metadata has both. -/
def precedingTradingDayCycleStart (timestampNs : Int)
    (tradingDays : Option (List BacktestHistoryTradingDay)) : Except DataError (Option Int) := do
  match tradingDays with
  | none => return none
  | some tradingDays =>
    let (cycleStartNs, cycleEndNs) ← canonicalSessionCycleBounds timestampNs
    match tradingDays.find? fun day =>
        decide (cycleStartNs < day.startNs) && decide (day.startNs < cycleEndNs) with
    | none => return none
    | some current =>
      match tradingDays.reverse.find? fun day =>
          day.isTradingDay && decide (day.endNs ≤ current.startNs) with
      | none => return none
      | some previous =>
        let (startNs, _) ← canonicalSessionCycleBounds previous.startNs
        return some startNs

def warmupStart (startNs : Int) (durationNs : Option Int)
    (tradingDays : Option (List BacktestHistoryTradingDay)) : Except DataError (Option Int) :=
  match durationNs with
  | none => .ok none
  | some _ => precedingTradingDayCycleStart startNs tradingDays

/-- A tick at the end of a derived bar belongs to that bar. -/
def tickSourceEnd (endNs : Int) (durationNs : Option Int) (session : KlineSessionTemplate) :
    Except DataError Int :=
  match durationNs with
  | none => .ok endNs
  | some durationNs => do
      let endNs ← expandedBarEnd endNs durationNs session
      checkedOr (endNs + 1) "tick kline source end overflow"

def expandTickSourceRange (requested : Int × Int) (durationNs : Option Int)
    (session : KlineSessionTemplate) (tradingDays : Option (List BacktestHistoryTradingDay)) :
    Except DataError (Int × Int) := do
  let dayRange ← tradingDayRange (tradingDayForTimestampNs requested.1)
  let warmupStartNs ← warmupStart requested.1 durationNs tradingDays
  let endNs ← tickSourceEnd requested.2 durationNs session
  return (min (min (warmupStartNs.getD dayRange.startNs) dayRange.startNs) requested.1,
    max endNs requested.2)

/-- Weekdays without trading; a weekend belongs to the trading day that follows it. -/
def knownNonTradingTickRanges (parseDate : String → Except String Int)
    (tradingDays : List BacktestHistoryTradingDay) (requested : Int × Int) :
    Except DataError (List (Int × Int)) := do
  let ranges ← (tradingDays.filter fun day => !day.isTradingDay).mapM fun day => do
    match parseDate day.date with
    | .error error =>
      throw (.invalidResponse ("invalid trading calendar date " ++ day.date ++ ": " ++ error))
    | .ok date =>
      if isWeekend date then return none
      else
        let dayRange ← tradingDayRange date
        let range := (max dayRange.startNs requested.1, min dayRange.endNs requested.2)
        return if range.1 < range.2 then some range else none
  return Ranges.coalesce (Ranges.sort (ranges.filterMap id))

def subtractRange (range excluded : Int × Int) : List (Int × Int) :=
  let overlap := (max range.1 excluded.1, min range.2 excluded.2)
  if overlap.2 ≤ overlap.1 then [range]
  else (if range.1 < overlap.1 then [(range.1, overlap.1)] else []) ++
    (if overlap.2 < range.2 then [(overlap.2, range.2)] else [])

def excludeProvenEmptyTickRanges (slices : List PlannedSourceSlice)
    (provenEmptyRanges : List (Int × Int)) : List PlannedSourceSlice :=
  slices.flatMap fun slice =>
    (provenEmptyRanges.foldl (fun remaining empty =>
      remaining.flatMap fun range => subtractRange range empty) [slice.range]).map fun range =>
        ⟨slice.cacheSymbol, range, slice.physicalRank⟩

/-! ## Plans -/

def classifyRequest (request : ValidatedBacktestHistoryRequest) :
    Except DataError PlannedBaseSource :=
  match request.durationNs with
  | none => .ok .tick
  | some durationNs => classifyDuration durationNs

def validateSourcePolicy (request : ValidatedBacktestHistoryRequest) : Except DataError Unit := do
  let baseSource ← classifyRequest request
  if request.provisionalAsOfNs.isSome ∧ baseSource ≠ .tick ∧
      request.durationNs ≠ some minuteKlineDurationNs then
    .error (.validation
      "provisional_as_of_ns is supported only for Tick and Kline requests up to 60 seconds")
  else .ok ()

def isDirectNativeDailyCacheRequest (request : ValidatedBacktestHistoryRequest)
    (baseSource : PlannedBaseSource) : Bool :=
  decide (baseSource = .canonicalDaily) && decide (request.durationNs = some dailyKlineDurationNs)
    && !startsWith request.symbol "KQ.m@"

def widen (hull : Int × Int) (slice : PlannedSourceSlice) : Int × Int :=
  (min hull.1 slice.range.1, max hull.2 slice.range.2)

/-- The hull of the slices' ranges. -/
def hullOf (slices : List PlannedSourceSlice) (message : String) : Except DataError (Int × Int) :=
  match slices with
  | [] => .error (.invalidState message)
  | slice :: rest => .ok (rest.foldl widen slice.range)

def provenEmptyIn (parseDate : String → Except String Int) (baseSource : PlannedBaseSource)
    (tradingDays : Option (List BacktestHistoryTradingDay)) (range : Int × Int) :
    Except DataError (List (Int × Int)) :=
  if baseSource = .tick then knownNonTradingTickRanges parseDate (tradingDays.getD []) range
  else .ok []

/-- The part of both planners behind the slices: the hull, the holidays in it and the slices
without them. -/
def settleSlices (parseDate : String → Except String Int) (baseSource : PlannedBaseSource)
    (tradingDays : Option (List BacktestHistoryTradingDay)) (slices : List PlannedSourceSlice)
    (message : String) :
    Except DataError ((Int × Int) × List (Int × Int) × List PlannedSourceSlice) := do
  let expandedSourceRange ← hullOf slices message
  let provenEmptyRanges ← provenEmptyIn parseDate baseSource tradingDays expandedSourceRange
  let slices := if provenEmptyRanges.isEmpty then slices
    else excludeProvenEmptyTickRanges slices provenEmptyRanges
  return (expandedSourceRange, provenEmptyRanges, slices)

namespace FrozenBacktestHistoryPlanBasis

/-- The slice of one segment that is already cut to the requested range. -/
def sliceOf (segment : BacktestHistoryPhysicalSegment)
    (expanded : Except DataError (Int × Int)) (rank : Nat) :
    Except DataError PlannedSourceSlice := do
  let range ← expanded
  return ⟨segment.physicalSymbol, (max range.1 segment.startNs, min range.2 segment.endNs), rank⟩

def slices (basis : FrozenBacktestHistoryPlanBasis)
    (physicalSegments : List BacktestHistoryPhysicalSegment) (requested : Int × Int) :
    Except DataError (List PlannedSourceSlice) := do
  let durationNs := basis.durationNs.getD minuteKlineDurationNs
  match basis.baseSource with
  | .tick =>
    if startsWith basis.symbol "KQ.m@" then
      physicalSegments.zipIdx.mapM fun (segment, rank) =>
        sliceOf segment (expandTickSourceRange (segment.startNs, segment.endNs) basis.durationNs
          basis.session basis.tradingDays) rank
    else
      let range ← expandTickSourceRange requested basis.durationNs basis.session basis.tradingDays
      return [⟨basis.symbol, range, 0⟩]
  | .canonicalMinute =>
    if startsWith basis.symbol "KQ." then
      physicalSegments.zipIdx.mapM fun (segment, rank) =>
        sliceOf segment (expandMinuteSourceRange (segment.startNs, segment.endNs) durationNs
          basis.session) rank
    else
      let range ← expandMinuteSourceRange requested durationNs basis.session
      return [⟨basis.symbol, range, 0⟩]
  | .canonicalDaily => return [⟨basis.symbol, requested, 0⟩]

def segmentsFor (basis : FrozenBacktestHistoryPlanBasis) (requested : Int × Int) :
    List BacktestHistoryPhysicalSegment :=
  if basis.sourceMappingSegments.isEmpty ||
      (basis.directNativeDaily && !startsWith basis.symbol "KQ.m@") then
    [⟨basis.symbol, requested.1, requested.2⟩]
  else intersectSegments basis.sourceMappingSegments requested

/-- `plan_range`.  A source of minutes has a duration, so its `expect` holds. -/
def planRange (parseDate : String → Except String Int) (basis : FrozenBacktestHistoryPlanBasis)
    (requestId : Nat) (requested : Int × Int) :
    Except DataError PlannedBacktestHistoryRequest :=
  if requested.2 ≤ requested.1 then
    .error (.validation "context source range must have positive width")
  else do
    let physicalSegments := basis.segmentsFor requested
    if startsWith basis.symbol "KQ.m@" && physicalSegments.isEmpty then
      .error (.invalidState
        "frozen context metadata does not cover requested main-contract range")
    else do
      let slices ← basis.slices physicalSegments requested
      let (expandedSourceRange, provenEmptyRanges, slices) ← settleSlices parseDate
        basis.baseSource basis.tradingDays slices "context plan has no source slices"
      return ⟨requestId, basis.symbol, basis.kind, basis.durationNs, basis.baseSource, requested,
        requested.2, expandedSourceRange, slices, provenEmptyRanges, physicalSegments,
        basis.session, basis.minuteSnapshot, basis.snapshotHash, basis.finality, basis⟩

end FrozenBacktestHistoryPlanBasis

/-- The slice of one segment of the mapping, cut to the whole of the segment. -/
def mappedSlice (cacheSymbol : String) (segment : BacktestHistoryPhysicalSegment)
    (expanded : Except DataError (Int × Int)) (rank : Nat) (message : String) :
    Except DataError PlannedSourceSlice := do
  let expanded ← expanded
  let range := (max expanded.1 segment.startNs, min expanded.2 segment.endNs)
  if range.2 ≤ range.1 then .error (.invalidState message)
  else .ok ⟨cacheSymbol, range, rank⟩

/-- The segments of a mapping that meet the requested range. -/
def overlapping (segments : List BacktestHistoryPhysicalSegment) (requested : Int × Int) :
    List BacktestHistoryPhysicalSegment :=
  segments.filter fun segment =>
    decide (max segment.startNs requested.1 < min segment.endNs requested.2)

/-- `source_segments` of `plan_request`. -/
def sourceSegments (request : ValidatedBacktestHistoryRequest) (baseSource : PlannedBaseSource)
    (session : KlineSessionTemplate) (tradingDays : Option (List BacktestHistoryTradingDay))
    (mapping : List BacktestHistoryPhysicalSegment) (requested : Int × Int) :
    Except DataError (List PlannedSourceSlice) := do
  let durationNs := request.durationNs.getD minuteKlineDurationNs
  match baseSource with
  | .tick =>
    if startsWith request.symbol "KQ.m@" then
      (overlapping mapping requested).zipIdx.mapM fun (segment, rank) =>
        let part := intersectSegment requested segment
        mappedSlice segment.physicalSymbol segment (expandTickSourceRange
          (part.startNs, part.endNs) request.durationNs session tradingDays) rank
          "KQ.m physical segment cannot supply an expanded Tick source range"
    else
      let range ← expandTickSourceRange requested request.durationNs session tradingDays
      return [⟨request.symbol, range, 0⟩]
  | .canonicalMinute =>
    if !startsWith request.symbol "KQ." then
      (overlapping mapping requested).zipIdx.mapM fun (segment, rank) =>
        let part := intersectSegment requested segment
        mappedSlice request.symbol segment (expandMinuteSourceRange (part.startNs, part.endNs)
          durationNs session) rank
          "physical contract cannot supply expanded canonical-minute source range"
    else
      let range ← expandMinuteSourceRange requested durationNs session
      return [⟨request.symbol, range, 0⟩]
  | .canonicalDaily => return [⟨request.symbol, requested, 0⟩]

/-- A native daily series that is cached names its snapshot in its own header. -/
def CacheMetadata.cachedDaily (cache : CacheMetadata) (request : ValidatedBacktestHistoryRequest)
    (baseSource : PlannedBaseSource) : Except DataError (Option MinuteKlineCacheSnapshot) :=
  if isDirectNativeDailyCacheRequest request baseSource then cache.storedDaily request.symbol
  else .ok none

def CacheMetadata.resolve (cache : CacheMetadata) (request : ValidatedBacktestHistoryRequest)
    (baseSource : PlannedBaseSource) (effectiveEndNs : Int)
    (cachedDaily : Option MinuteKlineCacheSnapshot) :
    Except DataError (Option BacktestHistoryMetadataSnapshot) :=
  match baseSource with
  | .canonicalMinute => cache.resolveMinute request.symbol request.startNs effectiveEndNs
  | .tick => cache.resolveBacktest request.symbol request.startNs effectiveEndNs
  | .canonicalDaily =>
    if cachedDaily.isSome then .ok none
    else cache.resolveBacktest request.symbol request.startNs effectiveEndNs

def cstV1 : MinuteKlineCacheSnapshot := ⟨1, "cst-trading-day-v1", "cst-trading-day-v1"⟩

def KlineSessionTemplate.cstTradingDay : KlineSessionTemplate where
  snapshotHash := "cst-trading-day-v1"
  windows := []
  increasing := increasing_nil
  ordered := ordered_nil

/-- The session, calendar and mapping that a plan is made with. -/
structure PlanMetadata where
  session : KlineSessionTemplate
  tradingDays : Option (List BacktestHistoryTradingDay)
  minuteSnapshot : MinuteKlineCacheSnapshot
  snapshotHash : String
  physicalSegments : List BacktestHistoryPhysicalSegment
  sourceMappingSegments : List BacktestHistoryPhysicalSegment

/-- The metadata of a request, or the fallback of the trading day in CST. -/
def planMetadata (symbol : String) (requested : Int × Int)
    (cachedDaily : Option MinuteKlineCacheSnapshot) :
    Option BacktestHistoryMetadataSnapshot → Except DataError PlanMetadata
  | some snapshot => do
      let minuteSnapshot : MinuteKlineCacheSnapshot :=
        ⟨snapshot.schemaVersion, snapshot.snapshotHash, snapshot.session.snapshotHash⟩
      minuteSnapshot.validate
      return ⟨snapshot.session, some snapshot.tradingDays, minuteSnapshot, snapshot.snapshotHash,
        intersectSegments snapshot.physicalSegments requested, snapshot.physicalSegments⟩
  | none =>
    let physicalSegments := [⟨symbol, requested.1, requested.2⟩]
    let minuteSnapshot := cachedDaily.getD cstV1
    .ok ⟨.cstTradingDay, none, minuteSnapshot, minuteSnapshot.calendarHash, physicalSegments,
      physicalSegments⟩

def ValidatedBacktestHistoryRequest.effectiveEndNs (request : ValidatedBacktestHistoryRequest) :
    Int :=
  match request.provisionalAsOfNs with
  | none => request.endNs
  | some asOfNs => min request.endNs asOfNs

def ValidatedBacktestHistoryRequest.finality (request : ValidatedBacktestHistoryRequest) :
    BacktestHistoryFinality :=
  match request.provisionalAsOfNs with
  | none => .final
  | some asOfNs => .provisional asOfNs

def planRequest (parseDate : String → Except String Int) (cache : CacheMetadata)
    (request : ValidatedBacktestHistoryRequest) :
    Except DataError PlannedBacktestHistoryRequest := do
  validateSourcePolicy request
  let baseSource ← classifyRequest request
  let requested := (request.startNs, request.effectiveEndNs)
  if request.effectiveEndNs ≤ request.startNs then
    .error (.validation "provisional_as_of_ns leaves no queryable backtest history range")
  else do
    let cachedDaily ← cache.cachedDaily request baseSource
    let metadata ← cache.resolve request baseSource request.effectiveEndNs cachedDaily
    let isDirectNativeDaily := decide (baseSource = .canonicalDaily) &&
      !startsWith request.symbol "KQ.m@"
    if startsWith request.symbol "KQ.m@" && metadata.isNone then
      .error (.invalidState "KQ.m backtest history requires a persisted metadata sidecar")
    else do
      let known ← planMetadata request.symbol requested cachedDaily metadata
      let physicalMinuteRequest := decide (baseSource = .canonicalMinute) &&
        !startsWith request.symbol "KQ."
      if !isDirectNativeDaily && !physicalMinuteRequest &&
          !segmentsCoverRange known.physicalSegments requested then
        .error (.invalidState "backtest history metadata does not cover the requested range")
      else do
        let slices ← sourceSegments request baseSource known.session known.tradingDays
          known.sourceMappingSegments requested
        let (expandedSourceRange, provenEmptyRanges, slices) ← settleSlices parseDate baseSource
          known.tradingDays slices "backtest history plan has no source slices"
        return ⟨request.requestId, request.symbol, request.kind, request.durationNs, baseSource,
          (request.startNs, request.endNs), request.effectiveEndNs, expandedSourceRange, slices,
          provenEmptyRanges, known.physicalSegments, known.session, known.minuteSnapshot,
          known.snapshotHash, request.finality,
          ⟨request.symbol, request.kind, request.durationNs, baseSource, known.session,
            known.tradingDays, known.minuteSnapshot, known.snapshotHash,
            known.sourceMappingSegments, request.finality, isDirectNativeDaily⟩⟩

end Tqsdk
