import Tqsdk.Data.ContainerCommits
import Tqsdk.Lib.Table

/-!
# The rolling market cache

`rolling_market_cache.rs`: every write replaces the whole view of a stream by a container with at
most one block.

The files of a cache root are a table by stream: the name of a file is made of the hexadecimal
symbol and of the kind, so two streams never share one.
-/

namespace Tqsdk

open List Result

open HistoryContainer

structure RollingMarketCacheMetadata where
  formatVersion : Nat
  capacity : Nat
  sessionHash : String
  aggregationAlgorithmVersion : Nat
  sourceEpoch : Nat
  confirmedRevision : Nat
  presentationRevision : Nat
  officialAsOfNs : Option Int
  deriving DecidableEq

inductive RollingMarketCacheKind
  | tick
  | kline (durationNs : Int)
  deriving DecidableEq

def RollingMarketCacheKind.seriesKind : RollingMarketCacheKind → Except DataError SeriesKind
  | .tick => .ok .tick
  | .kline durationNs =>
    if 0 < durationNs then .ok (.kline durationNs)
    else .error (.validation "rolling Kline duration must be positive")

/-- A cache that `open` accepted. -/
structure RollingMarketCache where
  capacity : Nat
  sessionHash : String
  aggregationAlgorithmVersion : Nat
  positive : 0 < capacity
  hashed : sessionHash ≠ "" ∧ sessionHash.utf8ByteSize ≤ 4096
  versioned : 0 < aggregationAlgorithmVersion

structure RollingMarketCacheSnapshot (R : Type) where
  metadata : RollingMarketCacheMetadata
  rows : List R

def rollingMarketCacheFormatVersion : Nat := 1

abbrev RollingStream := String × RollingMarketCacheKind

abbrev RollingFiles := List (RollingStream × List Nat)

def validateRollingSymbol (symbol : String) : Except DataError Unit :=
  if symbol = "" ∨ 4096 < symbol.utf8ByteSize then
    .error (.validation "rolling market cache symbol must be nonempty and bounded")
  else .ok ()

namespace RollingMarketCache

variable {R : Type}

variable (cache : RollingMarketCache)

def validateMetadata (metadata : RollingMarketCacheMetadata) : Except DataError Unit :=
  if metadata.formatVersion ≠ rollingMarketCacheFormatVersion ∨
      metadata.capacity ≠ cache.capacity ∨ metadata.sessionHash ≠ cache.sessionHash ∨
      metadata.aggregationAlgorithmVersion ≠ cache.aggregationAlgorithmVersion ∨
      metadata.presentationRevision < metadata.confirmedRevision then
    .error (.invalidState "incompatible rolling market cache metadata")
  else .ok ()

def finalityOf (kind : RollingMarketCacheKind) (metadata : RollingMarketCacheMetadata) :
    Finality :=
  match kind with
  | .tick => .unverified
  | .kline _ => .provisional (metadata.officialAsOfNs.getD 0)

/-- The index of a view in front of its commit. -/
def viewIndex (symbol : String) (kind : RollingMarketCacheKind) (seriesKind : SeriesKind)
    (metadata : RollingMarketCacheMetadata) (encoded : Option EncodedBlock) :
    Except DataError (Index RollingMarketCacheMetadata) :=
  let index := Index.new ⟨symbol, seriesKind, 1, none, 1⟩ [metadata]
  match encoded with
  | none => .ok index
  | some block =>
    let slice := block.slice 0
    match I64.checked (slice.lastNs + 1) with
    | none => .error (.validation "rolling market timestamp overflow")
    | some endNs => .ok { index with
        extents := [⟨slice.firstNs, endNs, "presentation", 0, finalityOf kind metadata, [slice]⟩] }

def encodeView (encode : List R → Except DataError EncodedBlock) (rows : List R) :
    Except DataError (Option EncodedBlock) :=
  match rows with
  | [] => .ok none
  | first :: rest => do
      let block ← encode (first :: rest)
      return some block

def replace (wire : IndexWire RollingMarketCacheMetadata)
    (encode : List R → Except DataError EncodedBlock) (files : RollingFiles) (symbol : String)
    (kind : RollingMarketCacheKind) (metadata : RollingMarketCacheMetadata) (rows : List R) :
    Except DataError RollingFiles := do
  validateRollingSymbol symbol
  cache.validateMetadata metadata
  if cache.capacity < rows.length then
    .error (.validation "rolling market cache write exceeds configured capacity")
  else do
    let seriesKind ← kind.seriesKind
    let encoded ← encodeView encode rows
    let index ← viewIndex symbol kind seriesKind metadata encoded
    let file ← writeNew wire index encoded.toList
    return Table.upsert (symbol, kind) file (fun _ => file) files

def readBlocks (read : Nat → Except DataError (List R)) (blocks : Nat) :
    Except DataError (List R) := do
  let parts ← (List.range blocks).mapM read
  return parts.flatten

def load (cache : RollingMarketCache) (wire : IndexWire RollingMarketCacheMetadata)
    (read : List Nat → Index RollingMarketCacheMetadata → Nat → Except DataError (List R))
    (files : RollingFiles) (symbol : String) (kind : RollingMarketCacheKind) :
    Except DataError (Option (RollingMarketCacheSnapshot R)) := do
  validateRollingSymbol symbol
  match Table.get? (symbol, kind) files with
  | none => return none
  | some file => do
      let seriesKind ← kind.seriesKind
      let index ← HistoryContainer.load wire file seriesKind
      match index.metadata with
      | [] => .error (.invalidState "rolling market cache lacks metadata")
      | [metadata] => do
          cache.validateMetadata metadata
          let rows ← readBlocks (read file index) index.blocks.length
          if cache.capacity < rows.length then
            .error (.invalidState "rolling market cache exceeds configured capacity")
          else .ok (some ⟨metadata, rows⟩)
      | _ => .error (.invalidState "rolling market cache has multiple metadata records")

def replaceTicks (wire : IndexWire RollingMarketCacheMetadata) (zstd : Option Zstd)
    (files : RollingFiles) (symbol : String) (metadata : RollingMarketCacheMetadata)
    (rows : List Tick) : Except DataError RollingFiles :=
  cache.replace wire (encodeTicks zstd) files symbol .tick metadata rows

def replaceKlines (wire : IndexWire RollingMarketCacheMetadata) (zstd : Option Zstd)
    (files : RollingFiles) (symbol : String) (durationNs : Int)
    (metadata : RollingMarketCacheMetadata) (rows : List StoredKline) :
    Except DataError RollingFiles :=
  cache.replace wire (encodeKlines zstd) files symbol (.kline durationNs) metadata rows

def loadTicks (wire : IndexWire RollingMarketCacheMetadata) (zstd : Option Zstd)
    (files : RollingFiles) (symbol : String) :
    Except DataError (Option (RollingMarketCacheSnapshot Tick)) :=
  cache.load wire (readTicks zstd) files symbol .tick

def loadKlines (wire : IndexWire RollingMarketCacheMetadata) (zstd : Option Zstd)
    (files : RollingFiles) (symbol : String) (durationNs : Int) :
    Except DataError (Option (RollingMarketCacheSnapshot StoredKline)) :=
  cache.load wire (readKlines zstd) files symbol (.kline durationNs)

/-! ## Views that are accepted -/

/-- An encoded block that an index of its own may name. -/
structure Sound (kind : SeriesKind) (encoded : EncodedBlock) : Prop where
  len : encoded.block.len = encoded.payload.length
  positive : 0 < encoded.payload.length
  small : encoded.payload.length ≤ maxBlockBytes
  rows : 0 < encoded.block.rows
  fewRows : encoded.block.rows < u64Bound
  times : encoded.block.firstNs ≤ encoded.block.lastNs
  decodedPositive : 0 < encoded.block.decodedLen
  decodedSmall : encoded.block.decodedLen ≤ maxBlockBytes
  plain : encoded.block.compression = .none → encoded.block.len = encoded.block.decodedLen
  stored : kind.stores encoded.block.codec = true
  klines : encoded.block.codec = .kline81 →
    encoded.block.rows * klineBytes = encoded.block.decodedLen
  ticks : encoded.block.codec = .tickXorV1 →
    tickValidLength encoded.block.rows encoded.block.decodedLen = true ∧
    (∃ low high, encoded.block.idBounds = some (low, high) ∧ low ≤ high) ∧
    encoded.block.tickOrderStrict ≠ none

theorem foldl_min_le (ids : List Int) (id : Int) : ids.foldl min id ≤ id := by
  induction ids generalizing id with
  | nil => exact le_rfl
  | cons next ids ih => exact (ih _).trans (min_le_left _ _)

theorem le_foldl_max (ids : List Int) (id : Int) : id ≤ ids.foldl max id := by
  induction ids generalizing id with
  | nil => exact le_rfl
  | cons next ids ih => exact (le_max_left _ _).trans (ih _)

theorem le_getLastD {α : Type} {time : α → Int} {hd : α} {rest : List α}
    (ord : (hd :: rest).Pairwise fun left right => time left ≤ time right) :
    time hd ≤ time (rest.getLastD hd) := by
  rcases eq_nil_or_concat rest with rfl | ⟨fst, last, rfl⟩
  · exact le_rfl
  · rw [concat_eq_append, getLastD_concat]
    exact (pairwise_cons.mp ord).1 last (by simp)

theorem getLastD_mem {α : Type} (hd : α) (rest : List α) :
    rest.getLastD hd ∈ hd :: rest := by
  rcases eq_nil_or_concat rest with rfl | ⟨fst, last, rfl⟩
  · exact mem_cons_self
  · rw [concat_eq_append, getLastD_concat]
    simp

theorem sound_of_encodeTicks {zstd : Option Zstd} {rows : List Tick} {encoded : EncodedBlock}
    (got : ∀ row ∈ rows, row.Stored) (ok : encodeTicks zstd rows = .ok encoded) :
    Sound .tick encoded := by
  obtain ⟨hd, rest, rfl, few, ord, rfl⟩ := encodeTicks_parts got ok
  obtain ⟨fine, small⟩ := tickPayload_valid few got
  have pos : 0 < (tickPayload hd rest).length := Nat.succ_pos _
  obtain ⟨packedPositive, shorter, raw⟩ := compress_length zstd (length_pos_iff.mp pos)
  constructor
  · rfl
  · exact packedPositive
  · exact shorter.trans small
  · exact Nat.succ_pos _
  · exact lt_of_le_of_lt few (by decide)
  · exact le_getLastD ord
  · exact pos
  · exact small
  · exact raw
  · rfl
  · exact nofun
  · exact fun _ => ⟨fine, ⟨_, _, rfl, (foldl_min_le _ _).trans (le_foldl_max _ _)⟩, nofun⟩

theorem sound_of_encodeKlines {zstd : Option Zstd} {rows : List StoredKline} {dur : Int}
    {encoded : EncodedBlock} (got : ∀ row ∈ rows, row.Stored)
    (ok : encodeKlines zstd rows = .ok encoded) : Sound (.kline dur) encoded := by
  obtain ⟨hd, rest, rfl, few, ord, rfl⟩ := encodeKlines_parts ok
  have size := StoredKline.length_flatMap_encode got
  have pos : 0 < ((hd :: rest).flatMap StoredKline.encode).length := by
    rw [size, length_cons]
    unfold klineBytes
    omega
  obtain ⟨packedPositive, shorter, raw⟩ := compress_length zstd (length_pos_iff.mp pos)
  rw [size] at pos shorter raw
  constructor
  · rfl
  · exact packedPositive
  · exact shorter.trans few
  · exact Nat.succ_pos _
  · refine lt_of_le_of_lt ?_ (show maxBlockBytes < u64Bound by decide)
    refine le_trans ?_ few
    exact Nat.le_mul_of_pos_right _ (by decide)
  · exact le_getLastD (ord.imp fun less => less.le)
  · exact pos
  · exact few
  · exact raw
  · rfl
  · exact fun _ => rfl
  · exact nofun

/-- The JSON of an index with one block of bounded names stays below the limit of an index. -/
def SmallIndexes (wire : IndexWire RollingMarketCacheMetadata) : Prop :=
  ∀ index : Index RollingMarketCacheMetadata, index.identity.symbol.utf8ByteSize ≤ 4096 →
    index.blocks.length ≤ 1 → index.extents.length ≤ 1 → index.totalSlices ≤ 1 →
    (∀ extent ∈ index.extents, extent.logicalPartition.utf8ByteSize ≤ 128) →
    index.metadata.length ≤ 1 →
    (∀ metadata ∈ index.metadata, metadata.sessionHash.utf8ByteSize ≤ 4096) →
    (wire.toBytes index).length ≤ maxIndexBytes

section View

variable {cache : RollingMarketCache} {symbol : String} {kind : RollingMarketCacheKind}
  {seriesKind : SeriesKind} {metadata : RollingMarketCacheMetadata} {encoded : EncodedBlock}

theorem validateRollingSymbol_eq_ok :
    validateRollingSymbol symbol = .ok () ↔ symbol ≠ "" ∧ symbol.utf8ByteSize ≤ 4096 := by
  unfold validateRollingSymbol
  split
  · rename_i bad
    refine ⟨nofun, fun good => ?_⟩
    rcases bad with emp | long
    · exact absurd emp good.1
    · exact absurd long (not_lt.mpr good.2)
  · rename_i good
    obtain ⟨nm, few⟩ := not_or.mp good
    exact ⟨fun _ => ⟨nm, not_lt.mp few⟩, fun _ => rfl⟩

theorem seriesKind_nonempty (ok : kind.seriesKind = .ok seriesKind) : ¬ seriesKind.Empty := by
  cases kind with
  | tick =>
    obtain rfl := Except.ok.inj ok
    exact id
  | kline dur =>
    simp only [RollingMarketCacheKind.seriesKind] at ok
    split_ifs at ok with pos
    obtain rfl := Except.ok.inj ok
    exact not_le.mpr pos

theorem finality_seriesKind (ok : kind.seriesKind = .ok seriesKind)
    (unverified : finalityOf kind metadata = .unverified) : seriesKind = .tick := by
  cases kind with
  | tick => exact (Except.ok.inj ok).symm
  | kline dur => cases unverified

/-- The index of a view, committed behind an empty header. -/
def viewOf (symbol : String) (kind : RollingMarketCacheKind) (seriesKind : SeriesKind)
    (metadata : RollingMarketCacheMetadata) (encoded : EncodedBlock) :
    Index RollingMarketCacheMetadata where
  identity := ⟨symbol, seriesKind, 1, none, 1⟩
  metadata := [metadata]
  extents := [⟨encoded.block.firstNs, encoded.block.lastNs + 1, "presentation", 0,
    finalityOf kind metadata, [encoded.slice 0]⟩]
  blocks := [{ encoded.block with offset := headerBytes }]
  generation := 0
  committedLen := 0

theorem validate_viewOf (named : symbol ≠ "" ∧ symbol.utf8ByteSize ≤ 4096)
    (ok : kind.seriesKind = .ok seriesKind) (sound : Sound seriesKind encoded) :
    (viewOf symbol kind seriesKind metadata encoded).validate
      (headerBytes + encoded.payload.length) = .ok () := by
  have len := sound.len
  have pos := sound.positive
  have small := sound.small
  have few := sound.fewRows
  have header : headerBytes < 1000 := by decide
  have limit : maxBlockBytes + 1000 < u64Bound := by decide
  have ident : ¬ (viewOf symbol kind seriesKind metadata encoded).BadIdentity := by
    rintro (empty | long | ⟨wrong, -⟩ | wrong | empty | absurd | many | many | many)
    · exact named.1 empty
    · exact absurd long (not_lt.mpr named.2)
    · exact wrong rfl
    · exact wrong rfl
    · exact seriesKind_nonempty ok empty
    · cases absurd
    · exact absurd many (show ¬ maxEntries < 1 by decide)
    · exact absurd many (show ¬ maxEntries < 1 by decide)
    · exact absurd many (show ¬ maxEntries < 1 by decide)
  have block : validateBlocks seriesKind (headerBytes + encoded.payload.length) headerBytes
      [{ encoded.block with offset := headerBytes }] = .ok () := by
    rw [validateBlocks, if_neg (by dsimp only; omega), if_neg, validateBlocks]
    rintro (before | empty | empty | behind | times | large | empty | large | ⟨plain, other⟩ |
      wrong | ⟨codec, other⟩ | ⟨codec, wrong⟩ | ⟨codec, wrong⟩ | ⟨codec, wrong⟩)
    · exact absurd before (lt_irrefl _)
    · dsimp only at empty
      omega
    · exact absurd empty sound.rows.ne'
    · dsimp only at behind
      omega
    · exact absurd times (not_lt.mpr sound.times)
    · dsimp only at large
      omega
    · exact absurd empty sound.decodedPositive.ne'
    · exact absurd large (not_lt.mpr sound.decodedSmall)
    · exact other (sound.plain plain)
    · dsimp only at wrong
      rw [sound.stored] at wrong
      cases wrong
    · exact other (sound.klines codec)
    · dsimp only at wrong
      rw [(sound.ticks codec).1] at wrong
      cases wrong
    · obtain ⟨low, high, bnds, le⟩ := (sound.ticks codec).2.1
      dsimp only at wrong
      rw [bnds] at wrong
      exact absurd (of_decide_eq_true wrong) (not_lt.mpr le)
    · exact (sound.ticks codec).2.2 wrong
  have slices : validateSlices seriesKind [{ encoded.block with offset := headerBytes }]
      ⟨encoded.block.firstNs, encoded.block.lastNs + 1, "presentation", 0,
        finalityOf kind metadata, [encoded.slice 0]⟩ none [] [encoded.slice 0] =
        .ok [(0, 0, 0 + encoded.block.rows)] := by
    rw [validateSlices, if_neg (by decide)]
    show (if u64Bound ≤ 0 + encoded.block.rows then _ else _) = _
    rw [if_neg (by omega), if_neg, validateSlices]
    · rfl
    rintro (empty | many | times | before | behind | before | behind | ⟨-, -, other⟩ | again)
    · exact absurd empty sound.rows.ne'
    · simp [EncodedBlock.slice] at many
    · exact absurd times (not_lt.mpr sound.times)
    · exact absurd before (lt_irrefl _)
    · exact absurd behind (not_le.mpr (Int.lt_succ _))
    · exact absurd before (lt_irrefl _)
    · exact absurd behind (lt_irrefl _)
    · rcases other with other | other <;> exact other rfl
    · cases again
  have extent : ¬ Extent.Bad ⟨symbol, seriesKind, 1, none, 1⟩ 1 none
      ⟨encoded.block.firstNs, encoded.block.lastNs + 1, "presentation", 0,
        finalityOf kind metadata, [encoded.slice 0]⟩ := by
    rintro (empty | ⟨unverified, other⟩ | unknown | unnamed | long | absurd | absurd)
    · have times := sound.times
      dsimp only at empty
      omega
    · exact other (finality_seriesKind ok unverified)
    · exact absurd unknown (show ¬ 1 ≤ 0 by decide)
    · exact absurd unnamed (show "presentation" ≠ "" by decide)
    · exact absurd long (show ¬ 128 < "presentation".utf8ByteSize by decide)
    · cases absurd
    · cases absurd
  have extents : validateExtents ⟨symbol, seriesKind, 1, none, 1⟩ 1
      [{ encoded.block with offset := headerBytes }] none []
      (viewOf symbol kind seriesKind metadata encoded).extents =
        .ok [(0, 0, 0 + encoded.block.rows)] := by
    rw [viewOf, validateExtents, if_neg extent, slices]
    rfl
  have total : (viewOf symbol kind seriesKind metadata encoded).totalSlices = 1 := rfl
  have act : (viewOf symbol kind seriesKind metadata encoded).activeRows =
      encoded.block.rows := Nat.add_zero _
  rw [Index.validate, if_neg ident]
  show (validateBlocks seriesKind _ headerBytes [{ encoded.block with offset := headerBytes }] >>=
    fun _ => _) = _
  rw [block, ok_bind, total, if_neg (by decide)]
  show (validateExtents ⟨symbol, seriesKind, 1, none, 1⟩ 1
    [{ encoded.block with offset := headerBytes }] none [] _ >>= fun _ => _) = _
  rw [extents, ok_bind, mergeSort_singleton, act]
  rw [if_neg (by simp [anyWindow]), if_neg (by omega)]

theorem readSlot_emptyFile : readSlot emptyFile 0 = none := by
  unfold readSlot
  exact if_pos (.inl (by decide))

/-- A block that may stand in a view, in rows that the view may have. -/
structure Accepted (cache : RollingMarketCache) (wire : IndexWire RollingMarketCacheMetadata)
    (symbol : String) (kind : RollingMarketCacheKind) (seriesKind : SeriesKind)
    (metadata : RollingMarketCacheMetadata) (encoded : EncodedBlock) : Prop where
  named : symbol ≠ "" ∧ symbol.utf8ByteSize ≤ 4096
  described : cache.validateMetadata metadata = .ok ()
  series : kind.seriesKind = .ok seriesKind
  sound : Sound seriesKind encoded
  ends : I64.InRange (encoded.block.lastNs + 1)
  small : SmallIndexes wire

variable {wire : IndexWire RollingMarketCacheMetadata}

theorem sessionHash_of_validateMetadata (ok : cache.validateMetadata metadata = .ok ()) :
    metadata.sessionHash = cache.sessionHash := by
  unfold validateMetadata at ok
  split at ok
  · cases ok
  rename_i good
  push Not at good
  exact good.2.2.1

theorem Accepted.writeNew (accepted : Accepted cache wire symbol kind seriesKind metadata encoded) :
    ∃ index write, viewIndex symbol kind seriesKind metadata (some encoded) = .ok index ∧
      HistoryContainer.writeNew wire index [encoded] = .ok (write.apply emptyFile) ∧
      WriteParts wire index headerBytes [encoded] write ∧ index.generation = 0 ∧
      write.index = viewOf symbol kind seriesKind metadata encoded := by
  have stop := I64.checked_eq_some.mpr ⟨accepted.ends, rfl⟩
  have index : viewIndex symbol kind seriesKind metadata (some encoded) =
      .ok { viewOf symbol kind seriesKind metadata encoded with blocks := [] } := by
    simp only [viewIndex, EncodedBlock.slice, stop]
    rfl
  have blocks : { { viewOf symbol kind seriesKind metadata encoded with blocks := [] } with
      blocks := [] ++ (placeBlocks headerBytes [encoded]).1 } =
        viewOf symbol kind seriesKind metadata encoded := rfl
  have small : (wire.toBytes (viewOf symbol kind seriesKind metadata encoded)).length ≤
      maxIndexBytes := by
    refine accepted.small _ accepted.named.2 le_rfl le_rfl le_rfl ?_ le_rfl ?_
    · intro extent mem
      obtain rfl := mem_singleton.mp mem
      exact show "presentation".utf8ByteSize ≤ 128 by decide
    · intro one mem
      obtain rfl := mem_singleton.mp mem
      rw [sessionHash_of_validateMetadata accepted.described]
      exact cache.hashed.2
  have pld := accepted.sound.small
  have limits : headerBytes + maxBlockBytes + maxIndexBytes < u64Bound := by decide
  have valid := @validate_viewOf _ _ _ metadata _ accepted.named accepted.series accepted.sound
  have put : ∃ write, writeCommit wire
      { viewOf symbol kind seriesKind metadata encoded with blocks := [] } headerBytes [encoded] =
        .ok write := by
    refine writeCommit_eq_ok (show 0 + 1 < u64Bound by decide) ?_ ?_ ?_
    · rw [blocks]
      exact valid
    · rw [blocks]
      exact small
    · rw [blocks]
      show headerBytes + encoded.payload.length + _ < _
      omega
  obtain ⟨write, put⟩ := put
  have parts := writeCommit_parts put
  refine ⟨_, write, index, ?_, parts, rfl, parts.index_eq⟩
  rw [HistoryContainer.writeNew, if_neg (by rintro (absurd | absurd) <;> exact absurd rfl), put]
  rfl

/-- A view that was replaced is loaded, and the other views are as before. -/
theorem Accepted.replace_load {encode : List R → Except DataError EncodedBlock}
    {read : List Nat → Index RollingMarketCacheMetadata → Nat → Except DataError (List R)}
    {rows : List R} (fls : RollingFiles)
    (acc : Accepted cache wire symbol kind seriesKind metadata encoded) (nonempty : rows ≠ [])
    (few : rows.length ≤ cache.capacity) (encs : encode rows = .ok encoded)
    (reads : ∀ file idx off, Lies file idx 0 encoded off → read file idx 0 = .ok rows) :
    ∃ next, cache.replace wire encode fls symbol kind metadata rows = .ok next ∧
      cache.load wire read next symbol kind = .ok (some ⟨metadata, rows⟩) ∧
      ∀ alt, alt ≠ (symbol, kind) → Table.get? alt next = Table.get? alt fls := by
  obtain ⟨idx, w, isIndex, put, ps, new, isView⟩ := acc.writeNew
  have nm := validateRollingSymbol_eq_ok.mpr acc.named
  have got : Table.get? (symbol, kind)
      (Table.upsert (symbol, kind) (w.apply emptyFile) (fun _ => w.apply emptyFile) fls) =
        some (w.apply emptyFile) := by
    rw [Table.get?_upsert, if_pos rfl]
    cases Table.get? (symbol, kind) fls <;> rfl
  have loaded := ps.loadAny_apply (show headerBytes ≤ emptyFile.length by decide)
    (show emptyFile.length = headerBytes by decide) (by decide) (by
      rw [new]
      intro alt absurd
      rw [readSlot_emptyFile] at absurd
      cases absurd)
  have view : w.read = { viewOf symbol kind seriesKind metadata encoded with
      generation := w.commit.generation, committedLen := w.commit.committedLen } := by
    rw [CommitWrite.read, isView]
  have lies : ∃ off, Lies (w.apply emptyFile) w.read 0 encoded off := by
    obtain ⟨off, placed, mem, cut⟩ := ps.slice_apply
      (show headerBytes ≤ emptyFile.length by decide)
      (show emptyFile.length = headerBytes by decide) (show [encoded][0]? = some encoded from rfl)
    have noBlocks : idx.blocks.length + 0 = 0 := by
      have n := congrArg (fun idx : Index RollingMarketCacheMetadata => idx.blocks.length)
        ps.index_eq
      rw [isView] at n
      simp only [viewOf, length_append, placeBlocks, length_singleton] at n
      omega
    rw [noBlocks] at placed
    refine ⟨off, placed, mem, ?_, ?_, cut⟩
    · exact (ps.length_apply (by decide) (by decide)).ge
    · have bdd := ps.bounded
      show w.commit.committedLen < _
      rw [ps.commit_eq]
      exact bdd
  obtain ⟨off, lies⟩ := lies
  refine ⟨Table.upsert (symbol, kind) (w.apply emptyFile) (fun _ => w.apply emptyFile)
    fls, ?_, ?_, fun alt ne => ?_⟩
  · have view : encodeView encode rows = .ok (some encoded) := by
      cases rows with
      | nil => exact absurd rfl nonempty
      | cons hd rest => rw [encodeView, encs]; rfl
    rw [replace, nm, ok_bind, acc.described, ok_bind, if_neg (not_lt.mpr few), acc.series, ok_bind,
      view, ok_bind, isIndex, ok_bind, Option.toList_some, put]
    rfl
  · rw [load, nm, ok_bind, got]
    dsimp only
    have kindOf : w.read.identity.kind = seriesKind := by rw [view]; rfl
    have one : w.read.metadata = [metadata] := by rw [view]; rfl
    have blocks : w.read.blocks.length = 1 := by rw [view]; rfl
    have rowsRead : readBlocks (read (w.apply emptyFile) w.read) 1 = .ok rows := by
      rw [readBlocks, range_one, mapM_cons, reads _ _ _ lies]
      show Except.ok (rows ++ []) = _
      rw [append_nil]
    rw [acc.series, ok_bind, HistoryContainer.load, loaded, ok_bind,
      if_neg (not_not.mpr kindOf), ok_bind, one]
    dsimp only
    rw [acc.described, ok_bind, blocks, rowsRead, ok_bind, if_neg (not_lt.mpr few)]
  · rw [Table.get?_upsert, if_neg ne]

/-- Ticks in the order of their times are accepted, as many as a block has. -/
theorem replaceTicks_load {zstd : Option Zstd} {rows : List Tick} (fls : RollingFiles)
    (named : symbol ≠ "" ∧ symbol.utf8ByteSize ≤ 4096)
    (described : cache.validateMetadata metadata = .ok ()) (small : SmallIndexes wire)
    (ne : rows ≠ []) (few : rows.length ≤ cache.capacity) (fits : rows.length ≤ tickMaxRows)
    (got : ∀ row ∈ rows, row.Stored) (ends : ∀ row ∈ rows, row.datetime < I64.maximum)
    (ord : rows.Pairwise fun left right => left.datetime ≤ right.datetime) :
    ∃ next, cache.replaceTicks wire zstd fls symbol metadata rows = .ok next ∧
      cache.loadTicks wire zstd next symbol = .ok (some ⟨metadata, rows⟩) ∧
      ∀ alt, alt ≠ (symbol, .tick) → Table.get? alt next = Table.get? alt fls := by
  obtain ⟨encoded, encs⟩ := encodeTicks_eq_ok zstd ne fits got ord
  have snd := sound_of_encodeTicks got encs
  have inR : I64.InRange (encoded.block.lastNs + 1) := by
    obtain ⟨hd, rest, rfl, -, -, rfl⟩ := encodeTicks_parts got encs
    have last := getLastD_mem hd rest
    have bnd := (got _ last).datetimeInRange
    have pre := ends _ last
    unfold I64.InRange at *
    dsimp only
    omega
  exact (show Accepted cache wire symbol .tick .tick metadata encoded from
    ⟨named, described, rfl, snd, inR, small⟩).replace_load fls ne few encs
      fun file idx off lies => lies.readTicks got encs

/-- K-lines in the strict order of their times are accepted. -/
theorem replaceKlines_load {zstd : Option Zstd} {rows : List StoredKline} {dur : Int}
    (fls : RollingFiles) (named : symbol ≠ "" ∧ symbol.utf8ByteSize ≤ 4096)
    (pos : 0 < dur) (described : cache.validateMetadata metadata = .ok ())
    (small : SmallIndexes wire) (ne : rows ≠ []) (few : rows.length ≤ cache.capacity)
    (fits : rows.length * klineBytes ≤ maxBlockBytes) (got : ∀ row ∈ rows, row.Stored)
    (ends : ∀ row ∈ rows, row.datetime < I64.maximum)
    (ord : rows.Pairwise fun left right => left.datetime < right.datetime) :
    ∃ next, cache.replaceKlines wire zstd fls symbol dur metadata rows = .ok next ∧
      cache.loadKlines wire zstd next symbol dur = .ok (some ⟨metadata, rows⟩) ∧
      ∀ alt, alt ≠ (symbol, .kline dur) → Table.get? alt next = Table.get? alt fls := by
  obtain ⟨encoded, encs⟩ := encodeKlines_eq_ok zstd ne fits ord
  have snd := @sound_of_encodeKlines _ _ dur _ got encs
  have inR : I64.InRange (encoded.block.lastNs + 1) := by
    obtain ⟨hd, rest, rfl, -, -, rfl⟩ := encodeKlines_parts encs
    have last := getLastD_mem hd rest
    have bnd := (got _ last).datetimeInRange
    have pre := ends _ last
    unfold I64.InRange at *
    dsimp only
    omega
  exact (show Accepted cache wire symbol (.kline dur) (.kline dur) metadata encoded
    from ⟨named, described, if_pos pos, snd, inR, small⟩).replace_load fls ne few
      encs fun file idx off lies => lies.readKlines got encs

end View

end RollingMarketCache

end Tqsdk
