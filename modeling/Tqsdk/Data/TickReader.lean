import Tqsdk.Data.ContainerCommits
import Tqsdk.Data.TickOffsets

/-!
# The reader of tick containers

`load` and `Reader` of `history_series_cache/tqbn/container.rs`, and `read` of
`history_container/tick.rs` with its cursor.  Indices, slices and sums that could stop the program
are checked; telemetry is left out.
-/

namespace Tqsdk

namespace HistoryContainer

/-! ## Metadata -/

/-- `Metadata`. -/
structure TickMetadata where
  symbol : String
  day : String
  startNs : Int
  endNs : Int
  rows : Nat
  idRange : Option (Int × Int)
  deriving DecidableEq

/-- What `physical_partition` makes of a path. -/
structure TickPartition where
  day : String
  scheme : Nat
  startNs : Int
  endNs : Int
  inRange : I64.InRange startNs ∧ I64.InRange endNs

/-- The identity of an `empty` container. -/
def TickPartition.identity (partition : TickPartition) (symbol : String) : Identity :=
  ⟨symbol, .tick, partition.scheme, some (partition.startNs, partition.endNs), 1⟩

def TickMetadata.Bad (partition : TickPartition) (symbol : String) (metadata : TickMetadata) :
    Prop :=
  metadata.symbol ≠ symbol ∨ metadata.day ≠ partition.day ∨
    (metadata.idRange.any fun ids => decide (ids.2 < ids.1)) = true ∨
    (metadata.rows = 0 ∧ metadata.idRange.isSome = true)

instance (partition : TickPartition) (symbol : String) :
    DecidablePred (TickMetadata.Bad partition symbol) :=
  fun _ => inferInstanceAs (Decidable (_ ∨ _))

/-- Before the end of what a provisional proof covers. -/
def Finality.asOfBefore (endNs : Int) : Finality → Bool
  | .provisional asOfNs => decide (asOfNs < endNs)
  | _ => false

def TickMetadata.BadProof (pack : Int × Int) (extent : Extent) (metadata : TickMetadata) : Prop :=
  metadata.startNs < pack.1 ∨ pack.2 < metadata.endNs ∨ extent.startNs < metadata.startNs ∨
    metadata.endNs < extent.endNs ∨ metadata.endNs ≤ metadata.startNs ∨
    extent.finality.asOfBefore metadata.endNs = true

instance (pack : Int × Int) (extent : Extent) : DecidablePred (TickMetadata.BadProof pack extent) :=
  fun _ => inferInstanceAs (Decidable (_ ∨ _))

/-- The loop of `validate_metadata` over the extents. -/
def validateProofs (index : Index TickMetadata) : List Extent → Except (Fault DataError) Unit
  | [] => .ok ()
  | extent :: extents => do
      let metadata ← Checked.orFail (.invalidState "missing Tick metadata")
        index.metadata[extent.metadata]?
      if extent.logicalPartition ≠ metadata.day then
        .error (.failed (.invalidResponse "Tick logical partition mismatch"))
      else if extent.finality ≠ .unverified then do
        let pack ← Checked.orPanic index.identity.packRange
        if metadata.BadProof pack extent then
          .error (.failed (.invalidResponse "Tick coverage proof mismatch"))
        else validateProofs index extents
      else validateProofs index extents

/-- `load` of the container at a path. -/
def loadTicks (wire : IndexWire TickMetadata) (file : List Nat)
    (partition : Except DataError TickPartition) (symbol : String) :
    Except (Fault DataError) (Index TickMetadata) := do
  let index ← Checked.lift (load wire file .tick)
  let partition ← Checked.lift partition
  if index.identity ≠ partition.identity symbol ∨ index.metadata = [] then
    .error (.failed (.invalidResponse "Tick container identity mismatch"))
  else if ∃ metadata ∈ index.metadata, metadata.Bad partition symbol then
    .error (.failed (.invalidResponse "Tick container metadata mismatch"))
  else do
    validateProofs index index.extents
    return index

/-! ## Blocks -/

/-- The loop of `tick::read` over the rows of its cursor. -/
def readOrdered : Nat → OffsetCursor → List Tick → Except (Fault DataError) (List Tick)
  | 0, _, _ => .error .panicked
  | calls + 1, cursor, rows => do
      match ← cursor.next with
      | none => return rows
      | some (row, cursor) =>
        if rows.getLast?.any fun last => decide (row.datetime < last.datetime) then
          .error (.failed (containerError "Tick block times are not ordered"))
        else readOrdered calls cursor (rows ++ [row])

variable {M : Type}

/-- `tick::read`. -/
def readTickBlock (zstd : Option Zstd) (file : List Nat) (index : Index M) (id : Nat) :
    Except (Fault DataError) (List Tick) := do
  let block ← Checked.orFail (containerError "unknown block") index.blocks[id]?
  let valid ← validLength block.rows block.decodedLen
  if block.codec ≠ .tickXorV1 ∨ valid = false then
    .error (.failed (containerError "invalid Tick block identity or size"))
  else do
    let payload ← Checked.lift (readBlock zstd file index id)
    let cursor ← OffsetCursor.start payload block.rows
    let rows ← readOrdered (block.rows + 1) cursor []
    if some (tickOrderStrict rows) ≠ block.tickOrderStrict ∨
        rows.head?.map Tick.datetime ≠ some block.firstNs ∨
        rows.getLast?.map Tick.datetime ≠ some block.lastNs ∨
        boundsOf (rows.map Tick.id) ≠ block.idBounds then
      .error (.failed (containerError "Tick block index disagrees with decoded rows"))
    else .ok rows

/-! ## Rows -/

/-- `overlaps`. -/
def Block.overlaps (range : Int × Int) (block : Block) : Bool :=
  decide (block.firstNs < range.2 ∧ range.1 ≤ block.lastNs)

/-- The slices of which a block has times in a range. -/
def overlappingSlices (blocks : List Block) (range : Int × Int) :
    List Slice → Except (Fault DataError) (List Slice)
  | [] => .ok []
  | slice :: slices => do
      let block ← Checked.index blocks slice.block
      let others ← overlappingSlices blocks range slices
      return if block.overlaps range then slice :: others else others

/-- `Reader`. -/
structure TickReader where
  slices : List Slice
  slice : Nat
  offset : Nat
  loaded : Option Nat
  rows : List Tick
  previous : Option (Int ×ₗ Int)

namespace TickReader

/-- `Reader::new`. -/
def new (index : Index M) (range : Int × Int) : Except (Fault DataError) TickReader := do
  let slices ← overlappingSlices index.blocks range
    ((index.extents.filter fun extent =>
      decide (extent.startNs < range.2 ∧ range.1 < extent.endNs)).flatMap Extent.slices)
  return ⟨slices, 0, 0, none, [], none⟩

/-- What an iteration of the loop of `next` comes to. -/
inductive Outcome
  | ended
  | skipped (reader : TickReader)
  | row (row : Tick) (reader : TickReader)

variable (zstd : Option Zstd) (file : List Nat) (index : Index M) (range : Int × Int)

/-- The reader with the block of a slice. -/
def loadBlock (slice : Slice) (reader : TickReader) : Except (Fault DataError) TickReader :=
  if reader.loaded ≠ some slice.block then do
    let rows ← readTickBlock zstd file index slice.block
    -- The telemetry asks the block for its sizes.
    let _ ← Checked.index index.blocks slice.block
    return { reader with rows := rows, loaded := some slice.block }
  else .ok reader

/-- Whether the rows from the start of a slice to its end have other times than the slice. -/
def disagrees (slice : Slice) (stop : Nat) (rows : List Tick) : Except (Fault DataError) Bool := do
  let first ← Checked.index rows slice.rowStart
  if first.datetime ≠ slice.firstNs then return true
  else
    let last ← Checked.index rows (← Checked.sub stop 1)
    return decide (last.datetime ≠ slice.lastNs)

/-- An iteration of the loop of `next`. -/
def iterate (reader : TickReader) : Except (Fault DataError) Outcome :=
  match reader.slices[reader.slice]? with
  | none => .ok .ended
  | some slice => do
      let reader ← reader.loadBlock zstd file index slice
      let stop ← Checked.add 64 slice.rowStart slice.rows
      if ← disagrees slice stop reader.rows then
        .error (.failed (.invalidResponse "Tick slice disagrees with payload"))
      else if reader.offset = slice.rows then do
        let next ← Checked.add 64 reader.slice 1
        return .skipped { reader with slice := next, offset := 0 }
      else do
        let row ← Checked.index reader.rows (← Checked.add 64 slice.rowStart reader.offset)
        let offset ← Checked.add 64 reader.offset 1
        let reader := { reader with offset := offset }
        if row.datetime < range.1 ∨ range.2 ≤ row.datetime then return .skipped reader
        else if reader.previous.any fun previous => decide (row.orderKey ≤ previous) then
          .error (.failed (.invalidResponse "Tick active rows are not canonical"))
        else return .row row { reader with previous := some row.orderKey }

/-- `next`; a loop that outlasts its iterations counts as stopped. -/
def next : Nat → TickReader → Except (Fault DataError) (Option (Tick × TickReader))
  | 0, _ => .error .panicked
  | iterations + 1, reader => do
      match ← reader.iterate zstd file index range with
      | .ended => return none
      | .skipped reader => next iterations reader
      | .row row reader => return some (row, reader)

/-- The rows of `next` until it gives none, with as many iterations for every call. -/
def collect (iterations : Nat) : Nat → TickReader → Except (Fault DataError) (List Tick)
  | 0, _ => .error .panicked
  | calls + 1, reader => do
      match ← reader.next zstd file index range iterations with
      | none => return []
      | some (row, reader) =>
        let rows ← collect iterations calls reader
        return row :: rows

/-- The iterations that are left: one for each row and one for each slice. -/
def work (reader : TickReader) : Nat :=
  ((reader.slices.drop reader.slice).map fun slice => slice.rows + 1).sum - reader.offset

end TickReader

/-- The rows of a range, as `read_all` collects them. -/
def readTickRange (zstd : Option Zstd) (file : List Nat) (index : Index M) (range : Int × Int) :
    Except (Fault DataError) (List Tick) := do
  let reader ← TickReader.new index range
  reader.collect zstd file index range (reader.work + 1) (reader.work + 1)

/-- A reader of a range of the container at a path. -/
def readTickFile (wire : IndexWire TickMetadata) (zstd : Option Zstd) (file : List Nat)
    (partition : Except DataError TickPartition) (symbol : String) (range : Int × Int) :
    Except (Fault DataError) (List Tick) := do
  let index ← loadTicks wire file partition symbol
  readTickRange zstd file index range

end HistoryContainer

end Tqsdk
