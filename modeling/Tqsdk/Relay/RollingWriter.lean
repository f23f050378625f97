import Tqsdk.Data.RollingCache

/-!
# The writer of rolling views

The task of `rolling_writer.rs`: it keeps a ring of rows for every stream and replaces the view of
the stream after every row.  A ring is a list, the oldest row first.
-/

namespace Tqsdk

open HistoryContainer

inductive WriteIntent
  | sourceEpoch (epoch : Nat)
  | tick (symbol : String) (tick : Tick)
  | kline (symbol : String) (durationNs : Int) (row : StoredKline)

structure RollingWriterStatus where
  sourceEpoch : Nat
  durableRevision : Nat
  discontinuities : Nat
  degraded : Bool
  deriving DecidableEq

structure RollingWriter where
  rings : List (String × List Tick)
  klineRings : List ((String × Int) × List StoredKline)
  revision : Nat
  sourceEpoch : Nat
  status : RollingWriterStatus

def u64SaturatingSucc (value : Nat) : Nat := min (value + 1) (u64Bound - 1)

/-! ## Rings -/

section Rings

variable {R : Type} (id : R → Int)

def hasRow (ring : List R) (row : R) : Bool := ring.any fun existing => decide (id existing = id row)

/-- Overwrites the first row with the id of the new one. -/
def overwriteRow (row : R) : List R → List R
  | [] => []
  | existing :: ring =>
    if id existing = id row then row :: ring else existing :: overwriteRow row ring

/-- Drops rows from the front. -/
def trimRing (capacity : Nat) (ring : List R) : List R := ring.drop (ring.length - capacity)

end Rings

def isDiscontinuity (ring : List Tick) (tick : Tick) : Bool :=
  ring.getLast?.any fun last => decide (tick.id ≠ I64.saturated (last.id + 1))

def pushTick (capacity : Nat) (ring : List Tick) (tick : Tick) : List Tick :=
  trimRing capacity <|
    if hasRow Tick.id ring tick then overwriteRow Tick.id tick ring
    else if isDiscontinuity ring tick then [tick]
    else ring ++ [tick]

def pushKline (capacity : Nat) (ring : List StoredKline) (row : StoredKline) : List StoredKline :=
  trimRing capacity <|
    if hasRow StoredKline.id ring row then overwriteRow StoredKline.id row ring
    else ring ++ [row]

/-! ## The task -/

/-- What the writer works on. -/
structure RollingSystem where
  cache : RollingMarketCache
  wire : IndexWire RollingMarketCacheMetadata
  zstd : Option Zstd

/-- A writer behind an intent, and whether the write was accepted. -/
structure Processed where
  writer : RollingWriter
  files : RollingFiles
  persisted : Bool

namespace RollingSystem

variable (system : RollingSystem)

/-- The ring of a stream; one that cannot be restored starts empty. -/
def tickRing (writer : RollingWriter) (files : RollingFiles) (symbol : String) : List Tick :=
  match Table.get? symbol writer.rings with
  | some ring => ring
  | none =>
    match system.cache.loadTicks system.wire system.zstd files symbol with
    | .ok (some snapshot) => snapshot.rows
    | _ => []

def klineRing (writer : RollingWriter) (files : RollingFiles) (symbol : String)
    (durationNs : Int) : List StoredKline :=
  match Table.get? (symbol, durationNs) writer.klineRings with
  | some ring => ring
  | none =>
    match system.cache.loadKlines system.wire system.zstd files symbol durationNs with
    | .ok (some snapshot) => snapshot.rows
    | _ => []

def metadataAt (writer : RollingWriter) (revision : Nat) : RollingMarketCacheMetadata where
  formatVersion := rollingMarketCacheFormatVersion
  capacity := system.cache.capacity
  sessionHash := system.cache.sessionHash
  aggregationAlgorithmVersion := system.cache.aggregationAlgorithmVersion
  sourceEpoch := writer.sourceEpoch
  confirmedRevision := revision
  presentationRevision := revision
  officialAsOfNs := none

/-- The writer behind a write that was tried. -/
def persist (writer : RollingWriter) (files : RollingFiles)
    (written : Except DataError RollingFiles) : Processed :=
  match written with
  | .ok files =>
    ⟨{ writer with status := { writer.status with durableRevision := writer.revision } }, files,
      true⟩
  | .error _ =>
    ⟨{ writer with status := { writer.status with degraded := true } }, files, false⟩

def processTick (writer : RollingWriter) (files : RollingFiles) (symbol : String) (tick : Tick) :
    Processed :=
  let ring := system.tickRing writer files symbol
  let pushed := pushTick system.cache.capacity ring tick
  let revision := u64SaturatingSucc writer.revision
  let discontinuities :=
    if hasRow Tick.id ring tick = false ∧ isDiscontinuity ring tick
      then u64SaturatingSucc writer.status.discontinuities else writer.status.discontinuities
  persist { writer with
      rings := Table.upsert symbol pushed (fun _ => pushed) writer.rings
      revision := revision
      status := { writer.status with discontinuities := discontinuities } } files
    (system.cache.replaceTicks system.wire system.zstd files symbol
      (system.metadataAt writer revision) pushed)

def processKline (writer : RollingWriter) (files : RollingFiles) (symbol : String)
    (durationNs : Int) (row : StoredKline) : Processed :=
  let pushed := pushKline system.cache.capacity
    (system.klineRing writer files symbol durationNs) row
  let revision := u64SaturatingSucc writer.revision
  persist { writer with
      klineRings :=
        Table.upsert (symbol, durationNs) pushed (fun _ => pushed) writer.klineRings
      revision := revision } files
    (system.cache.replaceKlines system.wire system.zstd files symbol durationNs
      (system.metadataAt writer revision) pushed)

def process (writer : RollingWriter) (files : RollingFiles) : WriteIntent → Processed
  | .sourceEpoch epoch =>
    let sourceEpoch := max writer.sourceEpoch (max epoch 1)
    ⟨{ writer with
        sourceEpoch := sourceEpoch
        status := { writer.status with sourceEpoch := sourceEpoch } }, files, true⟩
  | .tick symbol tick => system.processTick writer files symbol tick
  | .kline symbol durationNs row => system.processKline writer files symbol durationNs row

/-! ## Start -/

def disappeared (symbol : String) : DataError :=
  .invalidState ("rolling cache entry disappeared during writer startup: " ++ symbol)

/-- The source epoch that the view of a stream was written in. -/
def storedEpoch (files : RollingFiles) : RollingStream → Except DataError Nat
  | (symbol, .tick) => do
      match ← system.cache.loadTicks system.wire system.zstd files symbol with
      | some snapshot => return snapshot.metadata.sourceEpoch
      | none => .error (disappeared symbol)
  | (symbol, .kline durationNs) => do
      match ← system.cache.loadKlines system.wire system.zstd files symbol durationNs with
      | some snapshot => return snapshot.metadata.sourceEpoch
      | none => .error (disappeared symbol)

/-- `rolling_cache_source_epoch_floor`. -/
def sourceEpochFloor (files : RollingFiles) : Except DataError Nat := do
  let epochs ← files.mapM fun entry => system.storedEpoch files entry.1
  return epochs.foldl max 0

/-- A writer that was started on the files of a cache root. -/
def start (files : RollingFiles) : Except DataError RollingWriter := do
  let floor ← system.sourceEpochFloor files
  return ⟨[], [], 0, max (u64SaturatingSucc floor) 1, ⟨0, 0, 0, false⟩⟩

end RollingSystem

end Tqsdk
