import Tqsdk.Data.HistoryBlocks

/-!
# The history container

`history_container.rs`: a header with two slots, and behind it the payloads of blocks and the
indexes that were committed.  A commit appends payloads and an index, and then names the index in
the slot of the parity of its generation.

`Zstd` is the compressor that the feature `tqbn-zstd` brings in, and `IndexWire` the JSON of an
index.  Quotas of memory are left out.
-/

namespace Tqsdk

namespace HistoryContainer

def magic : List Nat := [0x54, 0x51, 0x48, 0x49, 0x53, 0x54, 0x30, 0x31]

def slotBytes : Nat := 48

def headerBytes : Nat := 8 + 2 * slotBytes

def maxIndexBytes : Nat := 16 * 1024 * 1024

def maxEntries : Nat := 65536

def u64Bound : Nat := 2 ^ 64

inductive SeriesKind
  | tick
  | kline (durationNs : Int)
  deriving DecidableEq

structure Identity where
  symbol : String
  kind : SeriesKind
  partitionScheme : Nat
  packRange : Option (Int × Int)
  metadataSchema : Nat
  deriving DecidableEq

inductive Finality
  | unverified
  | final
  | provisional (asOfNs : Int)
  deriving DecidableEq

inductive Codec
  | kline81
  | tickXorV1
  deriving DecidableEq

inductive Compression
  | none
  | zstd
  deriving DecidableEq

structure Block where
  offset : Nat
  len : Nat
  decodedLen : Nat
  checksum : Nat
  codec : Codec
  compression : Compression
  rows : Nat
  firstNs : Int
  lastNs : Int
  idBounds : Option (Int × Int)
  tickOrderStrict : Option Bool
  deriving DecidableEq

structure Slice where
  block : Nat
  rowStart : Nat
  rows : Nat
  firstNs : Int
  lastNs : Int
  deriving DecidableEq

structure Extent where
  startNs : Int
  endNs : Int
  logicalPartition : String
  metadata : Nat
  finality : Finality
  slices : List Slice
  deriving DecidableEq

/-- An index; what is behind its blocks is not written. -/
structure Index (M : Type) where
  identity : Identity
  metadata : List M
  extents : List Extent
  blocks : List Block
  generation : Nat
  committedLen : Nat

variable {M : Type}

def Index.new (identity : Identity) (metadata : List M) : Index M :=
  ⟨identity, metadata, [], [], 0, 0⟩

def Index.totalSlices (index : Index M) : Nat :=
  (index.extents.map fun extent => extent.slices.length).sum

/-! ## Validation -/

/-- K-lines of no positive duration. -/
def SeriesKind.Empty : SeriesKind → Prop
  | .tick => False
  | .kline durationNs => durationNs ≤ 0

instance : DecidablePred SeriesKind.Empty
  | .tick => inferInstanceAs (Decidable False)
  | .kline durationNs => inferInstanceAs (Decidable (durationNs ≤ 0))

def Index.BadIdentity (index : Index M) : Prop :=
  index.identity.symbol = "" ∨ 4096 < index.identity.symbol.utf8ByteSize ∨
    (index.identity.partitionScheme ≠ 1 ∧ index.identity.partitionScheme ≠ 2) ∨
    index.identity.metadataSchema ≠ 1 ∨
    index.identity.kind.Empty ∨
    (index.identity.packRange.any fun range => decide (range.2 ≤ range.1)) ∨
    maxEntries < index.blocks.length ∨ maxEntries < index.extents.length ∨
    maxEntries < index.metadata.length

instance (index : Index M) : Decidable index.BadIdentity := inferInstanceAs (Decidable (_ ∨ _))

def SeriesKind.stores : SeriesKind → Codec → Bool
  | .tick, .tickXorV1 => true
  | .kline _, .kline81 => true
  | _, _ => false

def Block.Bad (kind : SeriesKind) (indexOffset previousEnd : Nat) (block : Block) : Prop :=
  block.offset < previousEnd ∨ block.len = 0 ∨ block.rows = 0 ∨
    indexOffset < block.offset + block.len ∨ block.lastNs < block.firstNs ∨
    maxBlockBytes < block.len ∨ block.decodedLen = 0 ∨ maxBlockBytes < block.decodedLen ∨
    (block.compression = .none ∧ block.len ≠ block.decodedLen) ∨
    kind.stores block.codec = false ∨
    (block.codec = .kline81 ∧ block.rows * klineBytes ≠ block.decodedLen) ∨
    (block.codec = .tickXorV1 ∧ tickValidLength block.rows block.decodedLen = false) ∨
    (block.codec = .tickXorV1 ∧ (block.idBounds.all fun ids => decide (ids.2 < ids.1)) = true) ∨
    (block.codec = .tickXorV1 ∧ block.tickOrderStrict = none)

instance (kind : SeriesKind) (indexOffset previousEnd : Nat) (block : Block) :
    Decidable (block.Bad kind indexOffset previousEnd) := inferInstanceAs (Decidable (_ ∨ _))

def validateBlocks (kind : SeriesKind) (indexOffset : Nat) :
    Nat → List Block → Except DataError Unit
  | _, [] => .ok ()
  | previousEnd, block :: blocks =>
    if u64Bound ≤ block.offset + block.len then
      .error (containerError "block bounds overflow")
    else if block.Bad kind indexOffset previousEnd then
      .error (containerError "invalid physical block table")
    else validateBlocks kind indexOffset (block.offset + block.len) blocks

def Slice.Bad (kind : SeriesKind) (extent : Extent) (block : Block) (lastSliceTime : Option Int)
    (slice : Slice) : Prop :=
  slice.rows = 0 ∨ block.rows < slice.rowStart + slice.rows ∨ slice.lastNs < slice.firstNs ∨
    slice.firstNs < extent.startNs ∨ extent.endNs ≤ slice.lastNs ∨
    slice.firstNs < block.firstNs ∨ block.lastNs < slice.lastNs ∨
    (slice.rowStart = 0 ∧ slice.rows = block.rows ∧
      (slice.firstNs ≠ block.firstNs ∨ slice.lastNs ≠ block.lastNs)) ∨
    (lastSliceTime.any fun time =>
      decide (slice.firstNs < time) || (decide (slice.firstNs = time) && decide (kind ≠ .tick))) =
        true

instance (kind : SeriesKind) (extent : Extent) (block : Block) (lastSliceTime : Option Int)
    (slice : Slice) : Decidable (slice.Bad kind extent block lastSliceTime) :=
  inferInstanceAs (Decidable (_ ∨ _))

/-- The rows of a block from a first one to one behind the last. -/
abbrev ActiveRowRange := Nat × Nat × Nat

def validateSlices (kind : SeriesKind) (blocks : List Block) (extent : Extent) :
    Option Int → List ActiveRowRange → List Slice → Except DataError (List ActiveRowRange)
  | _, rowSlices, [] => .ok rowSlices
  | lastSliceTime, rowSlices, slice :: slices =>
    if maxEntries < rowSlices.length + 1 then .error (containerError "too many active slices")
    else
      match blocks[slice.block]? with
      | none => .error (containerError "unknown block reference")
      | some block =>
        if u64Bound ≤ slice.rowStart + slice.rows then .error (containerError "slice overflow")
        else if slice.Bad kind extent block lastSliceTime then
          .error (containerError "invalid active block slice")
        else validateSlices kind blocks extent (some slice.lastNs)
          (rowSlices ++ [(slice.block, slice.rowStart, slice.rowStart + slice.rows)]) slices

def Extent.Bad (identity : Identity) (metadata : Nat) (previousTime : Option Int)
    (extent : Extent) : Prop :=
  extent.endNs ≤ extent.startNs ∨
    (extent.finality = .unverified ∧ identity.kind ≠ .tick) ∨
    metadata ≤ extent.metadata ∨ extent.logicalPartition = "" ∨
    128 < extent.logicalPartition.utf8ByteSize ∨
    (previousTime.any fun stop => decide (extent.startNs < stop)) = true ∨
    (identity.packRange.any fun range =>
      decide (extent.startNs < range.1) || decide (range.2 < extent.endNs)) = true

instance (identity : Identity) (metadata : Nat) (previousTime : Option Int) (extent : Extent) :
    Decidable (extent.Bad identity metadata previousTime) := inferInstanceAs (Decidable (_ ∨ _))

def validateExtents (identity : Identity) (metadata : Nat) (blocks : List Block) :
    Option Int → List ActiveRowRange → List Extent → Except DataError (List ActiveRowRange)
  | _, rowSlices, [] => .ok rowSlices
  | previousTime, rowSlices, extent :: extents =>
    if extent.Bad identity metadata previousTime then
      .error (containerError "invalid or overlapping active extents")
    else do
      let rowSlices ← validateSlices identity.kind blocks extent none rowSlices extent.slices
      validateExtents identity metadata blocks (some extent.endNs) rowSlices extents

def ActiveRowRange.before (left right : ActiveRowRange) : Bool :=
  decide (left.1 < right.1 ∨ (left.1 = right.1 ∧
    (left.2.1 < right.2.1 ∨ (left.2.1 = right.2.1 ∧ left.2.2 ≤ right.2.2))))

/-- Whether a pair of neighbours is bad, as `windows(2).any`. -/
def anyWindow {α : Type} (bad : α → α → Bool) : List α → Bool
  | left :: right :: rest => bad left right || anyWindow bad (right :: rest)
  | _ => false

def Index.activeRows (index : Index M) : Nat :=
  ((index.extents.flatMap fun extent => extent.slices).map fun slice => slice.rows).sum

def Index.validate (index : Index M) (indexOffset : Nat) : Except DataError Unit :=
  if index.BadIdentity then .error (containerError "invalid identity or index cardinality")
  else do
    validateBlocks index.identity.kind indexOffset headerBytes index.blocks
    if maxEntries < index.totalSlices then .error (containerError "too many block slices")
    else do
      let rowSlices ← validateExtents index.identity index.metadata.length index.blocks none []
        index.extents
      if anyWindow (fun left right => decide (left.1 = right.1 ∧ right.2.1 < left.2.2))
          (rowSlices.mergeSort ActiveRowRange.before) then
        .error (containerError "active extents duplicate block rows")
      else if u64Bound ≤ index.activeRows then .error (containerError "row count overflow")
      else .ok ()

/-! ## Blocks -/

/-- The compressor of the feature `tqbn-zstd`. -/
structure Zstd where
  compress : List Nat → List Nat
  decompress : List Nat → Nat → Option (List Nat)
  compress_ne_nil : ∀ payload, compress payload ≠ []
  decompress_compress : ∀ payload, decompress (compress payload) payload.length = some payload

def checksum (bytes : List Nat) : Nat :=
  bytes.foldl (fun hash byte => ((hash ^^^ byte) * 0x100000001b3) % u64Bound) 0xcbf29ce484222325

structure EncodedBlock where
  block : Block
  payload : List Nat

def EncodedBlock.slice (encoded : EncodedBlock) (block : Nat) : Slice :=
  ⟨block, 0, encoded.block.rows, encoded.block.firstNs, encoded.block.lastNs⟩

/-- `compress` keeps a payload that does not get shorter. -/
def compress (zstd : Option Zstd) (payload : List Nat) : List Nat × Compression :=
  match zstd with
  | none => (payload, .none)
  | some zstd =>
    if (zstd.compress payload).length < payload.length then (zstd.compress payload, .zstd)
    else (payload, .none)

def decompress (zstd : Option Zstd) (compression : Compression) (payload : List Nat)
    (decodedLen : Nat) : Except DataError (List Nat) :=
  match compression, zstd with
  | .none, _ => .ok payload
  | .zstd, some zstd =>
    match zstd.decompress payload decodedLen with
    | some decoded => .ok decoded
    | none => .error (containerError "zstd")
  | .zstd, none => .error (containerError "compressed history block requires tqbn-zstd")

theorem decompress_compress (zstd : Option Zstd) (pld : List Nat) :
    decompress zstd (compress zstd pld).2 (compress zstd pld).1 pld.length = .ok pld := by
  cases zstd with
  | none => rfl
  | some zstd =>
    unfold compress
    dsimp only
    split
    · simp only [decompress, zstd.decompress_compress]
    · rfl

theorem compress_length (zstd : Option Zstd) {pld : List Nat} (ne : pld ≠ []) :
    0 < (compress zstd pld).1.length ∧ (compress zstd pld).1.length ≤ pld.length ∧
      ((compress zstd pld).2 = .none → (compress zstd pld).1.length = pld.length) := by
  have pos := List.length_pos_iff.mpr ne
  cases zstd with
  | none => exact ⟨pos, le_rfl, fun _ => rfl⟩
  | some zstd =>
    unfold compress
    dsimp only
    split
    · rename_i shorter
      exact ⟨List.length_pos_iff.mpr (zstd.compress_ne_nil pld), shorter.le, nofun⟩
    · exact ⟨pos, le_rfl, fun _ => rfl⟩

/-- The least and the greatest of some ids. -/
def boundsOf : List Int → Option (Int × Int)
  | [] => none
  | id :: ids => some (ids.foldl min id, ids.foldl max id)

def tickOrderStrict (rows : List Tick) : Bool :=
  !anyWindow (fun left right => !(decide (left.datetime < right.datetime) &&
    decide (left.id < right.id))) rows

/-- `tick::encode`. -/
def encodeTicks (zstd : Option Zstd) (rows : List Tick) : Except DataError EncodedBlock :=
  match rows with
  | [] => .error (containerError "invalid Tick block row count or time order")
  | first :: rest =>
    if tickMaxRows < (first :: rest).length ∨
        anyWindow (fun left right => decide (right.datetime < left.datetime)) (first :: rest) then
      .error (containerError "invalid Tick block row count or time order")
    else do
      let payload ← encodeTickPayload (first :: rest)
      let (packed, compression) := compress zstd payload
      return ⟨⟨0, packed.length, payload.length, checksum packed, .tickXorV1, compression,
        (first :: rest).length, first.datetime, (rest.getLastD first).datetime,
        boundsOf ((first :: rest).map Tick.id), some (tickOrderStrict (first :: rest))⟩, packed⟩

def encodeKlines (zstd : Option Zstd) (rows : List StoredKline) : Except DataError EncodedBlock :=
  match rows with
  | [] => .error (containerError "Kline block must be nonempty, bounded and ordered")
  | first :: rest =>
    if maxBlockBytes < (first :: rest).length * klineBytes ∨
        anyWindow (fun left right => decide (right.datetime ≤ left.datetime)) (first :: rest) then
      .error (containerError "Kline block must be nonempty, bounded and ordered")
    else
      let payload := (first :: rest).flatMap StoredKline.encode
      let (packed, compression) := compress zstd payload
      .ok ⟨⟨0, packed.length, (first :: rest).length * klineBytes, checksum packed, .kline81,
        compression, (first :: rest).length, first.datetime, (rest.getLastD first).datetime, none,
        none⟩, packed⟩

/-! ## Files -/

/-- The JSON of indexes, which keeps what an index names and not what the file is at. -/
structure IndexWire (M : Type) where
  toBytes : Index M → List Nat
  ofBytes : List Nat → Except DataError (Index M)
  ofBytes_toBytes : ∀ index : Index M, index.blocks.length ≤ maxEntries →
    index.extents.length ≤ maxEntries → index.metadata.length ≤ maxEntries →
    index.totalSlices ≤ maxEntries →
    ofBytes (toBytes index) = .ok { index with generation := 0, committedLen := 0 }

/-- The words of a slot in front of its digest. -/
structure Commit where
  generation : Nat
  offset : Nat
  len : Nat
  committedLen : Nat
  digest : Nat
  deriving DecidableEq

def Commit.words (commit : Commit) : List Nat :=
  [commit.generation, commit.offset, commit.len, commit.committedLen, commit.digest]

def Commit.slot (commit : Commit) : List Nat :=
  Bytes.ofWords commit.words ++
    Bytes.littleEndian 8 (checksum (Bytes.ofWords commit.words))

def slotOffset (generation : Nat) : Nat := 8 + generation % 2 * slotBytes

/-- The blocks with their places in the file, and the place behind them. -/
def placeBlocks : Nat → List EncodedBlock → List Block × Nat
  | position, [] => ([], position)
  | position, encoded :: blocks =>
    let (placed, stop) := placeBlocks (position + encoded.payload.length) blocks
    ({ encoded.block with offset := position } :: placed, stop)

/-- What a commit writes: bytes behind the file, and then a slot in its header. -/
structure CommitWrite (M : Type) where
  index : Index M
  suffix : List Nat
  commit : Commit

/-- `write_commit` at the end of a file of some length. -/
def writeCommit (wire : IndexWire M) (index : Index M) (position : Nat)
    (blocks : List EncodedBlock) : Except DataError (CommitWrite M) :=
  if u64Bound ≤ index.generation + 1 then .error (containerError "generation exhausted")
  else do
    let (placed, offset) := placeBlocks position blocks
    let index := { index with blocks := index.blocks ++ placed }
    index.validate offset
    let bytes := wire.toBytes index
    if maxIndexBytes < bytes.length then .error (containerError "index too large")
    else if u64Bound ≤ offset + bytes.length then .error (containerError "index bounds overflow")
    else .ok ⟨index, (blocks.flatMap fun encoded => encoded.payload) ++ bytes,
      ⟨index.generation + 1, offset, bytes.length, offset + bytes.length, checksum bytes⟩⟩

/-- The file with both writes of a commit. -/
def CommitWrite.apply (write : CommitWrite M) (file : List Nat) : List Nat :=
  Bytes.patch (file ++ write.suffix) (slotOffset write.commit.generation) write.commit.slot

def emptyFile : List Nat := magic ++ List.replicate (2 * slotBytes) 0

def writeNew (wire : IndexWire M) (index : Index M) (blocks : List EncodedBlock) :
    Except DataError (List Nat) :=
  if index.generation ≠ 0 ∨ index.blocks ≠ [] then
    .error (containerError "new container must be empty")
  else do
    let write ← writeCommit wire index headerBytes blocks
    return write.apply emptyFile

/-- The commit that a slot names, unless it is empty or torn. -/
def readSlot (file : List Nat) (slot : Nat) : Option Commit :=
  let bytes := Bytes.slice file (8 + slot * slotBytes) slotBytes
  let word := Bytes.wordAt bytes
  if word 0 = 0 ∨ checksum (bytes.take 40) ≠ word 5 then none
  else some ⟨word 0, word 1, word 2, word 3, word 4⟩

def selectCommit : Option Commit → Option Commit → Except DataError Commit
  | none, none => .error (containerError "no valid commit slot")
  | some commit, none => .ok commit
  | none, some commit => .ok commit
  | some first, some second =>
    if first.generation = second.generation ∧ first ≠ second then
      .error (containerError "ambiguous commit generation")
    else .ok (if first.generation < second.generation then second else first)

def readCommit (file : List Nat) : Except DataError Commit :=
  if file.length < 8 then .error (.io "failed to fill whole buffer")
  else if file.take 8 ≠ magic then
    .error (containerError (if file.take 6 = magic.take 6
      then "unsupported container version; explicit migration required"
      else "invalid container magic; explicit migration required"))
  else if file.length < headerBytes then .error (.io "failed to fill whole buffer")
  else do
    let commit ← selectCommit (readSlot file 0) (readSlot file 1)
    if commit.offset < headerBytes ∨ maxIndexBytes < commit.len ∨
        u64Bound ≤ commit.offset + commit.len ∨ commit.offset + commit.len ≠ commit.committedLen ∨
        file.length < commit.committedLen then
      .error (containerError "invalid committed index bounds")
    else .ok commit

def loadAny (wire : IndexWire M) (file : List Nat) : Except DataError (Index M) := do
  let commit ← readCommit file
  let bytes := Bytes.slice file commit.offset commit.len
  if checksum bytes ≠ commit.digest then
    .error (containerError "committed index checksum mismatch")
  else do
    let index ← wire.ofBytes bytes
    index.validate commit.offset
    return { index with generation := commit.generation, committedLen := commit.committedLen }

def load (wire : IndexWire M) (file : List Nat) (expected : SeriesKind) :
    Except DataError (Index M) := do
  let index ← loadAny wire file
  if index.identity.kind ≠ expected then
    .error (containerError "container series kind mismatch")
  else .ok index

def readBlock (zstd : Option Zstd) (file : List Nat) (index : Index M) (id : Nat) :
    Except DataError (List Nat) :=
  match index.blocks[id]? with
  | none => .error (containerError "unknown block")
  | some block =>
    if u64Bound ≤ block.offset + block.len ∨ index.committedLen < block.offset + block.len ∨
        maxBlockBytes < block.len ∨ maxBlockBytes < block.decodedLen then
      .error (containerError "block outside pinned prefix")
    else if file.length < block.offset + block.len then
      .error (.io "failed to fill whole buffer")
    else
      let payload := Bytes.slice file block.offset block.len
      if checksum payload ≠ block.checksum then .error (containerError "block checksum mismatch")
      else do
        let decoded ← decompress zstd block.compression payload block.decodedLen
        if decoded.length ≠ block.decodedLen then
          .error (containerError "decoded block length mismatch")
        else .ok decoded

/-- `tick::read`. -/
def readTicks (zstd : Option Zstd) (file : List Nat) (index : Index M) (id : Nat) :
    Except DataError (List Tick) :=
  match index.blocks[id]? with
  | none => .error (containerError "unknown block")
  | some block =>
    if block.codec ≠ .tickXorV1 ∨ tickValidLength block.rows block.decodedLen = false then
      .error (containerError "invalid Tick block identity or size")
    else do
      let payload ← readBlock zstd file index id
      let rows ← decodeTickPayload payload block.rows
      if some (tickOrderStrict rows) ≠ block.tickOrderStrict ∨
          rows.head?.map Tick.datetime ≠ some block.firstNs ∨
          rows.getLast?.map Tick.datetime ≠ some block.lastNs ∨
          boundsOf (rows.map Tick.id) ≠ block.idBounds then
        .error (containerError "Tick block index disagrees with decoded rows")
      else .ok rows

def readKlines (zstd : Option Zstd) (file : List Nat) (index : Index M) (id : Nat) :
    Except DataError (List StoredKline) :=
  match index.blocks[id]? with
  | none => .error (containerError "unknown block")
  | some block =>
    if block.codec ≠ .kline81 then .error (containerError "not a Kline block")
    else do
      let payload ← readBlock zstd file index id
      let rows ← decodeKlinePayload payload
      if rows.length ≠ block.rows ∨
          rows.head?.map StoredKline.datetime ≠ some block.firstNs ∨
          rows.getLast?.map StoredKline.datetime ≠ some block.lastNs ∨
          anyWindow (fun left right => decide (right.datetime ≤ left.datetime)) rows = true then
        .error (containerError "Kline block index disagrees with decoded rows")
      else .ok rows

end HistoryContainer

end Tqsdk
