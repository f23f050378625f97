import Mathlib.Data.List.Chain
import Tqsdk.Data.Rows
import Tqsdk.Data.TradingDay
import Tqsdk.Lib.LastWrites
import Tqsdk.Lib.Parts

/-!
# Blocks of K-lines

The records blocks of a K-line partition of `history_series_cache/tqbn/mod.rs`: how
`append_rows_block` writes them with their indexes, and the two ways to read a range of them, by rows
(`rows_for_request`) and by a plan for the merge (`plan_tqbn_streaming_blocks`).
-/

namespace Tqsdk

open List Option

/-! ## Writing -/

def tqbnTargetRecordsBlockPayloadBytes : Nat := 8 * 1024 * 1024

/-- `size_of::<TqbnKlineRecordV1>()`. -/
def klineRecordBytes : Nat := 88

def noneEpoch : Int := I64.minimum

structure TqbnStreamingIndexMetadata where
  firstId : Int
  lastId : Int
  firstDatetimeNs : Int
  lastDatetimeNs : Int
  strictlyIncreasingIds : Bool
  strictlyIncreasingDatetimes : Bool
  deriving DecidableEq

/-- An index of the first version has no `streaming`. -/
structure TqbnRecordsIndex where
  rangeStartNs : Int
  rangeEndNs : Int
  streaming : Option TqbnStreamingIndexMetadata
  deriving DecidableEq

/-- A records block, as it is decoded, and the index behind it. -/
structure RecordsBlock where
  rows : List Kline
  index : Option TqbnRecordsIndex
  deriving DecidableEq

structure PendingTqbnRecordsBlock where
  records : List Kline := []
  rangeStartNs : Option Int := none
  rangeEndNs : Option Int := none
  streaming : Option TqbnStreamingIndexMetadata := none

section Writing

-- what `decode_price` makes of what `encode_price` makes of a price
variable (storedPrice : F64 → Except DataError F64)

/-- The row that `decode_kline_record` makes of what `encode_kline_record` makes of a row. -/
def storedKline (row : Kline) : Except DataError Kline :=
  if row.datetime < 0 then
    .error (.invalidResponse
      s!"TQBN kline row datetime must be non-negative, got {row.datetime}")
  else do
    let open_ ← storedPrice row.open_
    let high ← storedPrice row.high
    let low ← storedPrice row.low
    let close ← storedPrice row.close
    if row.epoch = some noneEpoch then
      .error (.invalidResponse
        s!"TQBN kline row epoch uses reserved epoch sentinel {noneEpoch}")
    else return { row with open_, high, low, close }

/-- The end of `append_indexed_record_to_blocks`. -/
def PendingTqbnRecordsBlock.add (block : PendingTqbnRecordsBlock) (row : Kline) (rangeEndNs : Int) :
    PendingTqbnRecordsBlock where
  records := block.records ++ [row]
  rangeStartNs := some (block.rangeStartNs.elim row.datetime fun start => min start row.datetime)
  rangeEndNs := some (block.rangeEndNs.elim rangeEndNs fun stop => max stop rangeEndNs)
  streaming := some (match block.streaming with
    | some metadata =>
      { metadata with
        strictlyIncreasingIds :=
          metadata.strictlyIncreasingIds && decide (metadata.lastId < row.id)
        strictlyIncreasingDatetimes :=
          metadata.strictlyIncreasingDatetimes && decide (metadata.lastDatetimeNs < row.datetime)
        lastId := row.id
        lastDatetimeNs := row.datetime }
    | none => ⟨row.id, row.id, row.datetime, row.datetime, true, true⟩)

def flushIndexedRecordsBlock (blocks : List RecordsBlock) (block : PendingTqbnRecordsBlock) :
    Except DataError (List RecordsBlock) :=
  if block.records.isEmpty then .ok blocks
  else
    match block.rangeStartNs, block.rangeEndNs, block.streaming with
    | some start, some stop, some streaming =>
      .ok (blocks ++ [⟨block.records, some ⟨start, stop, some streaming⟩⟩])
    | none, _, _ => .error (.invalidState "TQBN records block start missing")
    | _, none, _ => .error (.invalidState "TQBN records block end missing")
    | _, _, none => .error (.invalidState "TQBN records block ordering metadata missing")

/-- The rows of a segment behind the blocks of a file.  The blocks that were written before an error
stay. -/
def appendRecords (blocks : List RecordsBlock) (pending : PendingTqbnRecordsBlock) :
    List Kline → List RecordsBlock × Except DataError Unit
  | [] =>
    match flushIndexedRecordsBlock blocks pending with
    | .ok written => (written, .ok ())
    | .error error => (blocks, .error error)
  | row :: rows =>
    match storedKline storedPrice row with
    | .error error => (blocks, .error error)
    | .ok record =>
      let full := !pending.records.isEmpty && decide (tqbnTargetRecordsBlockPayloadBytes <
        (pending.records.length + 1) * klineRecordBytes)
      match if full then flushIndexedRecordsBlock blocks pending else .ok blocks with
      | .error error => (blocks, .error error)
      | .ok written =>
        match I64.checked (row.datetime + 1) with
        | none =>
          (written, .error (.invalidResponse "TQBN records index datetime overflow"))
        | some rangeEndNs =>
          appendRecords written
            ((if full then {} else pending).add record rangeEndNs) rows

/-- `id_range` and `datetime_range`, as far as they fail. -/
def validateSegmentRanges (durationNs : Int) (rows : List Kline) : Except DataError Unit := do
  match (rows.map Kline.id).max? with
  | some id =>
    if I64.checked (id + 1) = none then .error (.invalidResponse "TQBN segment id overflow")
  | none => pure ()
  match (rows.map Kline.datetime).max? with
  | some datetime =>
    if I64.checked (datetime + durationNs) = none then
      .error (.invalidResponse "TQBN segment datetime overflow")
  | none => pure ()

/-- `append_rows_block`. -/
def appendRowsBlock (durationNs : Int) (blocks : List RecordsBlock) (rows : List Kline) :
    List RecordsBlock × Except DataError Unit :=
  let appended := appendRecords storedPrice blocks {} rows
  (appended.1, appended.2.bind fun _ => validateSegmentRanges durationNs rows)

end Writing

/-! ## Reading -/

def inRange (range : Int × Int) (row : Kline) : Bool :=
  decide (range.1 ≤ row.datetime ∧ row.datetime < range.2)

/-- Whether `read_next_tqbn_records_block_descriptor_for_range` gives a block. -/
def RecordsBlock.intersects (block : RecordsBlock) (range : Int × Int) : Bool :=
  block.index.elim true fun index =>
    decide (index.rangeStartNs < range.2 ∧ range.1 < index.rangeEndNs)

/-- `history_rows_are_strictly_increasing`. -/
def historyRowsAreStrictlyIncreasing (rows : List Kline) : Bool :=
  decide (rows.IsChain fun left right => left.id < right.id)

def rowsForRequest (range : Int × Int) (rows : List Kline) : List Kline :=
  if historyRowsAreStrictlyIncreasing rows then rows.filter (inRange range)
  else LastWrites.lastOf Kline.id (rows.filter (inRange range))

/-- `parse_tqbn_rows_for_range`. -/
def parseRowsForRange (blocks : List RecordsBlock) (range : Int × Int) : List Kline :=
  rowsForRequest range
    ((blocks.filter fun block => block.intersects range).flatMap RecordsBlock.rows)

/-- `compact_rows`. -/
def compactRows (rows : List Kline) : List Kline :=
  if historyRowsAreStrictlyIncreasing rows then rows else LastWrites.lastOf Kline.id rows

/-! ## Plans -/

inductive TqbnStreamingBlockScan
  | empty
  | strictlyIncreasing (firstId lastId : Int)
  | nonIncreasing
  deriving DecidableEq

/-- `tqbn_streaming_block_scan_from_index`. -/
def scanFromIndex (index : TqbnRecordsIndex) (range : Int × Int) : Option TqbnStreamingBlockScan :=
  match index.streaming with
  | none => none
  | some metadata =>
    if !metadata.strictlyIncreasingIds || decide (index.rangeStartNs < range.1) ||
        decide (range.2 < index.rangeEndNs) then
      none
    else some (.strictlyIncreasing metadata.firstId metadata.lastId)

/-- The loop of `scan_tqbn_streaming_block`, with the first and the previous id. -/
def scanRows (range : Int × Int) : Option (Int × Int) → List Kline → TqbnStreamingBlockScan
  | none, [] => .empty
  | some (firstId, lastId), [] => .strictlyIncreasing firstId lastId
  | ids, row :: rows =>
    if !inRange range row then scanRows range ids rows
    else
      match ids with
      | none => scanRows range (some (row.id, row.id)) rows
      | some (firstId, previousId) =>
        if row.id ≤ previousId then .nonIncreasing
        else scanRows range (some (firstId, row.id)) rows

def RecordsBlock.scan (block : RecordsBlock) (range : Int × Int) : TqbnStreamingBlockScan :=
  ((block.index.bind fun index => scanFromIndex index range).getD (scanRows range none block.rows))

/-- A block of a plan, with the records that are decoded when it is activated. -/
structure TqbnStreamingBlockPlan where
  firstId : Int
  blockOrder : Nat
  records : List Kline
  deriving DecidableEq

/-- The loop of `plan_tqbn_streaming_blocks`, over the blocks and their positions. -/
def planBlocks (range : Int × Int) : List (RecordsBlock × Nat) → Option (List TqbnStreamingBlockPlan)
  | [] => some []
  | (block, order) :: rest =>
    if !block.intersects range then planBlocks range rest
    else
      match block.scan range with
      | .empty => planBlocks range rest
      | .nonIncreasing => none
      | .strictlyIncreasing firstId _ =>
        (planBlocks range rest).map (⟨firstId, order, block.rows⟩ :: ·)

def planStreamingBlocks (blocks : List RecordsBlock) (range : Int × Int) :
    Option (List TqbnStreamingBlockPlan) :=
  (planBlocks range blocks.zipIdx).map fun plans =>
    plans.insertionSort fun left right =>
      toLex (left.firstId, left.blockOrder) ≤ toLex (right.firstId, right.blockOrder)

/-! ## Indexes -/

/-- What an index says holds of the rows of its block. -/
structure TqbnRecordsIndex.Describes (index : TqbnRecordsIndex) (rows : List Kline) : Prop where
  range : ∀ row ∈ rows, index.rangeStartNs ≤ row.datetime ∧ row.datetime < index.rangeEndNs
  first : ∀ metadata, index.streaming = some metadata → rows.head?.map Kline.id = some metadata.firstId
  last : ∀ metadata, index.streaming = some metadata →
    rows.getLast?.map Kline.id = some metadata.lastId
  increasing : ∀ metadata, index.streaming = some metadata →
    metadata.strictlyIncreasingIds = true → rows.IsChain fun left right => left.id < right.id

/-- The blocks of a K-line partition. -/
structure TqbnKlineFile where
  blocks : List RecordsBlock
  indexed : ∀ block ∈ blocks, ∀ index, block.index = some index → index.Describes block.rows

def TqbnKlineFile.rows (file : TqbnKlineFile) : List Kline := file.blocks.flatMap RecordsBlock.rows

theorem storedKline_eq_ok {storedPrice : F64 → Except DataError F64} {row rec : Kline}
    (got : storedKline storedPrice row = .ok rec) :
    rec.id = row.id ∧ rec.datetime = row.datetime := by
  unfold storedKline at got
  split at got
  · cases got
  obtain ⟨open_, -, got⟩ := Result.of_bind got
  obtain ⟨high, -, got⟩ := Result.of_bind got
  obtain ⟨low, -, got⟩ := Result.of_bind got
  obtain ⟨close, -, got⟩ := Result.of_bind got
  split at got
  · cases got
  rw [← Except.ok.inj got]
  exact ⟨rfl, rfl⟩

/-- A pending block without rows, or with an index that describes its rows. -/
def PendingTqbnRecordsBlock.Valid (block : PendingTqbnRecordsBlock) : Prop :=
  block = {} ∨ ∃ index : TqbnRecordsIndex, block.rangeStartNs = some index.rangeStartNs ∧
    block.rangeEndNs = some index.rangeEndNs ∧ block.streaming = index.streaming ∧
    block.streaming.isSome ∧ index.Describes block.records

theorem TqbnRecordsIndex.Describes.of_metadata {start stop : Int}
    {metadata : TqbnStreamingIndexMetadata} {rows : List Kline}
    (range : ∀ row ∈ rows, start ≤ row.datetime ∧ row.datetime < stop)
    (first : rows.head?.map Kline.id = some metadata.firstId)
    (last : rows.getLast?.map Kline.id = some metadata.lastId)
    (incr : metadata.strictlyIncreasingIds = true →
      rows.IsChain fun left right => left.id < right.id) :
    TqbnRecordsIndex.Describes ⟨start, stop, some metadata⟩ rows := by
  refine ⟨range, ?_, ?_, ?_⟩
  · intro alt same
    rwa [← some.inj same]
  · intro alt same
    rwa [← some.inj same]
  · intro alt same
    rwa [← some.inj same]

theorem PendingTqbnRecordsBlock.Valid.add {block : PendingTqbnRecordsBlock} (valid : block.Valid)
    (row : Kline) : (block.add row (row.datetime + 1)).Valid := by
  rcases valid with rfl | ⟨index, isStart, isStop, isStreaming, held, describes⟩
  · refine .inr ⟨⟨row.datetime, row.datetime + 1,
      some ⟨row.id, row.id, row.datetime, row.datetime, true, true⟩⟩, rfl, rfl, rfl, rfl, ?_⟩
    refine .of_metadata (fun other member => ?_) rfl rfl fun _ => List.IsChain.singleton _
    rw [mem_singleton.mp member]
    exact ⟨le_rfl, lt_add_one _⟩
  · obtain ⟨metadata, isMetadata⟩ := isSome_iff_exists.mp held
    rw [isMetadata] at isStreaming
    refine .inr ⟨⟨min index.rangeStartNs row.datetime, max index.rangeEndNs (row.datetime + 1),
      some { metadata with
        strictlyIncreasingIds := metadata.strictlyIncreasingIds && decide (metadata.lastId < row.id)
        strictlyIncreasingDatetimes :=
          metadata.strictlyIncreasingDatetimes && decide (metadata.lastDatetimeNs < row.datetime)
        lastId := row.id
        lastDatetimeNs := row.datetime }⟩, ?_, ?_, ?_, rfl, ?_⟩
    · unfold PendingTqbnRecordsBlock.add
      rw [isStart]
      rfl
    · unfold PendingTqbnRecordsBlock.add
      rw [isStop]
      rfl
    · unfold PendingTqbnRecordsBlock.add
      rw [isMetadata]
    have first := describes.first metadata isStreaming.symm
    have last := describes.last metadata isStreaming.symm
    obtain ⟨head, tail, isRows⟩ : ∃ head tail, block.records = head :: tail := by
      cases records : block.records with
      | nil =>
        rw [records] at first
        cases first
      | cons head tail => exact ⟨head, tail, rfl⟩
    refine .of_metadata (fun other member => ?_) ?_ ?_ ?_
    · rcases mem_append.mp member with member | member
      · have inside := describes.range other member
        exact ⟨(min_le_left _ _).trans inside.1, lt_max_of_lt_left inside.2⟩
      · rw [mem_singleton.mp member]
        exact ⟨min_le_right _ _, lt_max_of_lt_right (lt_add_one _)⟩
    · unfold PendingTqbnRecordsBlock.add
      rw [isRows] at first ⊢
      exact first
    · unfold PendingTqbnRecordsBlock.add
      rw [getLast?_concat]
      rfl
    · intro incr
      obtain ⟨before, behind⟩ := Bool.and_eq_true_iff.mp incr
      refine isChain_append.mpr ⟨describes.increasing metadata isStreaming.symm before,
        List.IsChain.singleton _, ?_⟩
      intro prev isLast next isNext
      rw [mem_def] at isLast isNext
      rw [isLast] at last
      rw [← some.inj isNext]
      have sameId := some.inj last
      rw [sameId]
      exact of_decide_eq_true behind

/-- Blocks whose indexes describe their rows. -/
def Indexed (blocks : List RecordsBlock) : Prop :=
  ∀ block ∈ blocks, ∀ index, block.index = some index → index.Describes block.rows

theorem flush_indexed {blocks written : List RecordsBlock} {pending : PendingTqbnRecordsBlock}
    (indexed : Indexed blocks) (valid : pending.Valid)
    (flushed : flushIndexedRecordsBlock blocks pending = .ok written) : Indexed written := by
  unfold flushIndexedRecordsBlock at flushed
  split at flushed
  · rwa [← Except.ok.inj flushed]
  rename_i nonempty
  rcases valid with rfl | ⟨index, isStart, isStop, isStreaming, held, describes⟩
  · exact absurd rfl nonempty
  obtain ⟨metadata, isMetadata⟩ := isSome_iff_exists.mp held
  simp only [isStart, isStop, isMetadata] at flushed
  rw [← Except.ok.inj flushed]
  intro block member other isIndex
  rcases mem_append.mp member with member | member
  · exact indexed block member other isIndex
  · rw [mem_singleton.mp member] at isIndex ⊢
    rw [← some.inj isIndex, ← isMetadata, isStreaming]
    exact describes

variable {rows : List Kline}

theorem appendRecords_indexed (storedPrice : F64 → Except DataError F64)
    {blocks : List RecordsBlock} {pend : PendingTqbnRecordsBlock} (ixd : Indexed blocks)
    (fine : pend.Valid) : Indexed (appendRecords storedPrice blocks pend rows).1 := by
  induction rows generalizing blocks pend with
  | nil =>
    unfold appendRecords
    cases fld : flushIndexedRecordsBlock blocks pend with
    | error error => exact ixd
    | ok put => exact flush_indexed ixd fine fld
  | cons row rows ih =>
    unfold appendRecords
    cases got : storedKline storedPrice row with
    | error error => exact ixd
    | ok rcd =>
      have same : rcd.datetime = row.datetime := (storedKline_eq_ok got).2
      dsimp only
      split
      · exact ixd
      rename_i put fld
      have indexedWritten : Indexed put := by
        split at fld
        · exact flush_indexed ixd fine fld
        · rwa [← Except.ok.inj fld]
      split
      · exact indexedWritten
      rename_i rangeEndNs isEnd
      refine ih indexedWritten ?_
      rw [← (I64.checked_eq_some.mp isEnd).2, ← same]
      split
      · exact PendingTqbnRecordsBlock.Valid.add (.inl rfl) rcd
      · exact fine.add rcd

/-- A segment that is appended to a file. -/
def TqbnKlineFile.append (storedPrice : F64 → Except DataError F64) (durationNs : Int)
    (file : TqbnKlineFile) (rows : List Kline) : TqbnKlineFile × Except DataError Unit :=
  (⟨(appendRowsBlock storedPrice durationNs file.blocks rows).1,
    appendRecords_indexed storedPrice file.indexed (.inl rfl)⟩,
    (appendRowsBlock storedPrice durationNs file.blocks rows).2)

/-- `compact_tqbn_file_locked`: the compacted blocks take the place of the file when all of them are
written. -/
def TqbnKlineFile.compact (storedPrice : F64 → Except DataError F64) (durationNs : Int)
    (file : TqbnKlineFile) : TqbnKlineFile × Except DataError Unit :=
  let compacted := TqbnKlineFile.append storedPrice durationNs ⟨[], fun _ member => by cases member⟩
    (compactRows file.rows)
  match compacted.2 with
  | .ok () => compacted
  | .error error => (file, .error error)

/-! ## Rows of a range -/

theorem isChain_id_iff :
    (rows.IsChain fun left right => left.id < right.id) ↔
      rows.Pairwise fun left right => left.id < right.id := by
  have trans : IsTrans Kline fun left right => left.id < right.id :=
    ⟨fun _ _ _ hd snd => hd.trans snd⟩
  exact isChain_iff_pairwise

variable (range : Int × Int)

variable (rows : List Kline)

theorem rowsForRequest_eq :
    rowsForRequest range rows = LastWrites.lastOf Kline.id (rows.filter (inRange range)) := by
  unfold rowsForRequest historyRowsAreStrictlyIncreasing
  split
  · rename_i incr
    have srt := isChain_id_iff.mp (of_decide_eq_true incr)
    exact (LastWrites.lastOf_of_sorted (srt.filter _)).symm
  · rfl

theorem compactRows_eq : compactRows rows = LastWrites.lastOf Kline.id rows := by
  unfold compactRows historyRowsAreStrictlyIncreasing
  split
  · rename_i incr
    exact (LastWrites.lastOf_of_sorted (isChain_id_iff.mp (of_decide_eq_true incr))).symm
  · rfl

/-- A block that a reader leaves out has no rows in its range. -/
theorem filter_eq_nil_of_not_intersects {blk : RecordsBlock} {range : Int × Int}
    (described : ∀ idx, blk.index = some idx → idx.Describes blk.rows)
    (outs : blk.intersects range = false) : blk.rows.filter (inRange range) = [] := by
  unfold RecordsBlock.intersects at outs
  cases isIndex : blk.index with
  | none =>
    rw [isIndex] at outs
    cases outs
  | some idx =>
    rw [isIndex, elim_some, decide_eq_false_iff_not] at outs
    refine filter_eq_nil_iff.mpr fun row mem inn => outs ?_
    have bnds := (described idx isIndex).range row mem
    have inn := of_decide_eq_true inn
    omega

/-- The materialized rows are the last rows of the range. -/
theorem TqbnKlineFile.parseRowsForRange_eq (file : TqbnKlineFile) (range : Int × Int) :
    parseRowsForRange file.blocks range =
      LastWrites.lastOf Kline.id (file.rows.filter (inRange range)) := by
  unfold parseRowsForRange TqbnKlineFile.rows
  rw [rowsForRequest_eq, filter_flatMap, filter_flatMap, Parts.flatMap_filter]
  intro blk mem out
  exact filter_eq_nil_of_not_intersects (file.indexed blk mem) out

/-! ## What a plan says -/

/-- The rows of a block in a range, as a scan finds them. -/
def TqbnStreamingBlockScan.Finds (rows : List Kline) : TqbnStreamingBlockScan → Prop
  | empty => rows = []
  | strictlyIncreasing firstId _ =>
    (rows.Pairwise fun left right => left.id < right.id) ∧ rows.head?.map Kline.id = some firstId
  | nonIncreasing => True

/-- And behind a row with the previous id. -/
def TqbnStreamingBlockScan.Continues (firstId previousId : Int) (rows : List Kline) :
    TqbnStreamingBlockScan → Prop
  | empty => False
  | strictlyIncreasing first _ => first = firstId ∧
      (rows.Pairwise fun left right => left.id < right.id) ∧ ∀ row ∈ rows, previousId < row.id
  | nonIncreasing => True

theorem scanRows_continues (firstId previousId : Int) (rows : List Kline) :
    (scanRows range (some (firstId, previousId)) rows).Continues firstId previousId
      (rows.filter (inRange range)) := by
  induction rows generalizing previousId with
  | nil => exact ⟨rfl, .nil, fun _ member => by cases member⟩
  | cons row rows ih =>
    unfold scanRows
    by_cases mem : inRange range row
    · simp only [mem, Bool.not_true, Bool.false_eq_true, if_false]
      rw [filter_cons_of_pos mem]
      split
      · trivial
      rename_i post
      have rest := ih row.id
      cases scan : scanRows range (some (firstId, row.id)) rows with
      | empty =>
        rw [scan] at rest
        exact rest
      | nonIncreasing => trivial
      | strictlyIncreasing hd last =>
        rw [scan] at rest
        obtain ⟨fst, srt, ovr⟩ := rest
        refine ⟨fst, pairwise_cons.mpr ⟨ovr, srt⟩, fun alt member => ?_⟩
        rcases mem_cons.mp member with rfl | member
        · exact not_le.mp post
        · exact (not_le.mp post).trans (ovr alt member)
    · simp only [mem, Bool.not_false, if_true]
      rw [filter_cons_of_neg mem]
      exact ih previousId

theorem scanRows_finds : (scanRows range none rows).Finds (rows.filter (inRange range)) := by
  induction rows with
  | nil => rfl
  | cons row rows ih =>
    unfold scanRows
    by_cases mem : inRange range row
    · simp only [mem, Bool.not_true, Bool.false_eq_true, if_false]
      rw [filter_cons_of_pos mem]
      have rest := scanRows_continues range row.id row.id rows
      cases scan : scanRows range (some (row.id, row.id)) rows with
      | empty =>
        rw [scan] at rest
        exact rest.elim
      | nonIncreasing => trivial
      | strictlyIncreasing hd last =>
        rw [scan] at rest
        obtain ⟨fst, srt, ovr⟩ := rest
        exact ⟨pairwise_cons.mpr ⟨ovr, srt⟩, by rw [fst]; rfl⟩
    · simp only [mem, Bool.not_false, if_true]
      rw [filter_cons_of_neg mem]
      exact ih

/-- An index that is used says of the rows in the range what a scan of the block finds. -/
theorem RecordsBlock.scan_finds {block : RecordsBlock} {range : Int × Int}
    (described : ∀ index, block.index = some index → index.Describes block.rows) :
    (block.scan range).Finds (block.rows.filter (inRange range)) := by
  unfold RecordsBlock.scan
  cases isIndex : block.index with
  | none => exact scanRows_finds range block.rows
  | some index =>
    rw [bind_some]
    cases isScan : scanFromIndex index range with
    | none => exact scanRows_finds range block.rows
    | some scan =>
      have describes := described index isIndex
      unfold scanFromIndex at isScan
      split at isScan
      · cases isScan
      rename_i metadata isMetadata
      split at isScan
      · cases isScan
      rename_i whole
      simp only [Bool.or_eq_true, Bool.not_eq_true', decide_eq_true_eq, not_or,
        Bool.not_eq_false] at whole
      obtain ⟨⟨incr, start⟩, stop⟩ := whole
      have all : block.rows.filter (inRange range) = block.rows := by
        refine filter_eq_self.mpr fun row mem => decide_eq_true ?_
        have bounds := describes.range row mem
        omega
      rw [getD_some, ← some.inj isScan, all]
      exact ⟨isChain_id_iff.mp (describes.increasing metadata isMetadata incr),
        describes.first metadata isMetadata⟩

end Tqsdk
