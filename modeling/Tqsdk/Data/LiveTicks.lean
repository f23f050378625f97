import Mathlib
import Tqsdk.Data.TickStore
import Tqsdk.Lib.OrdMap

/-!
# Live tick capture

`live_tick_cache_writer.rs`: ticks of several symbols are buffered, cut into segments of
consecutive ids and written with the time range of each segment.

The range of a segment goes from the datetime of its first tick to one nanosecond after that of
its last.  A tick before or after the segment may have one of these two datetimes; it is then
claimed and not written.
-/

namespace Tqsdk

open List

/-! ## Rows of one call -/

/-- The sort key `(id, datetime, epoch)`. -/
def Tick.key (row : Tick) : Int ×ₗ Int ×ₗ WithBot Int :=
  toLex (row.id, toLex (row.datetime, row.epoch))

def Tick.keyLe (left right : Tick) : Prop := left.key ≤ right.key

instance : DecidableRel Tick.keyLe := fun left right =>
  inferInstanceAs (Decidable (left.key ≤ right.key))

instance : Std.Total Tick.keyLe := ⟨fun left right => le_total left.key right.key⟩

instance : IsTrans Tick Tick.keyLe := ⟨fun _ _ _ first second => le_trans first second⟩

/-- `dedup_by`: the first row of every group is kept. -/
def dedupTicks (same : Tick → Tick → Bool) : List Tick → List Tick
  | [] => []
  | row :: rest =>
    match dedupTicks same rest with
    | [] => [row]
    | next :: others => if same next row then row :: others else row :: next :: others

def normalizeLiveTickRows (rows : List Tick) : List Tick :=
  if rows.IsChain fun left right => left.id < right.id then rows
  else dedupTicks (fun left right => decide (left.id = right.id)) (rows.insertionSort Tick.keyLe)

/-- `normalize_tick_rows` of `backtest_tick_cache.rs`. -/
def normalizeTickRows (rows : List Tick) : List Tick :=
  if rows.IsChain fun left right =>
      left.id < right.id ∨ left.id = right.id ∧ left.datetime < right.datetime then rows
  else dedupTicks (fun left right => decide (left.id = right.id ∧ left.datetime = right.datetime))
    (rows.insertionSort Tick.keyLe)

theorem dedupTicks_sublist (same : Tick → Tick → Bool) (rows : List Tick) :
    (dedupTicks same rows).Sublist rows := by
  induction rows with
  | nil => exact .slnil
  | cons row rest ih =>
    unfold dedupTicks
    split
    · exact (nil_sublist rest).cons_cons row
    · rename_i next alts isRest
      rw [isRest] at ih
      split
      · exact ((sublist_cons_self next alts).trans ih).cons_cons row
      · exact ih.cons_cons row

variable {rows : List Tick}

theorem dedupTicks_increasing (srt : rows.Pairwise fun left right => left.id ≤ right.id) :
    (dedupTicks (fun left right => decide (left.id = right.id)) rows).Pairwise
      fun left right => left.id < right.id := by
  induction rows with
  | nil => exact .nil
  | cons row rest ih =>
    have inRest := dedupTicks_sublist (fun left right => decide (left.id = right.id)) rest
    have strict := ih srt.of_cons
    unfold dedupTicks
    split
    · exact pairwise_singleton _ _
    · rename_i next alts isRest
      rw [isRest] at inRest strict
      have pre : row.id ≤ next.id := rel_of_pairwise_cons srt (inRest.subset mem_cons_self)
      split
      · rename_i same
        refine List.Pairwise.cons (fun alt mem => ?_) strict.of_cons
        rw [← of_decide_eq_true same]
        exact rel_of_pairwise_cons strict mem
      · rename_i ne
        have less : row.id < next.id := lt_of_le_of_ne pre fun same => ne (decide_eq_true same.symm)
        refine List.Pairwise.cons (fun alt mem => ?_) strict
        rcases mem_cons.mp mem with rfl | later
        · exact less
        · exact less.trans (rel_of_pairwise_cons strict later)

theorem Tick.id_le_of_keyLe {left right : Tick} (le : left.keyLe right) : left.id ≤ right.id := by
  rcases Prod.Lex.toLex_le_toLex.mp le with less | ⟨same, -⟩
  · exact less.le
  · exact same.le

/-- The rows that the loop of a call sees have increasing ids. -/
theorem normalizeLiveTickRows_increasing (rows : List Tick) :
    (normalizeLiveTickRows rows).Pairwise fun left right => left.id < right.id := by
  unfold normalizeLiveTickRows
  split
  · rename_i chain
    exact isChain_iff_pairwise.mp chain
  · exact dedupTicks_increasing ((pairwise_insertionSort Tick.keyLe rows).imp Tick.id_le_of_keyLe)

theorem mem_of_mem_normalizeLiveTickRows {row : Tick} (mem : row ∈ normalizeLiveTickRows rows) :
    row ∈ rows := by
  unfold normalizeLiveTickRows at mem
  split at mem
  · exact mem
  · exact (perm_insertionSort Tick.keyLe rows).mem_iff.mp ((dedupTicks_sublist _ _).subset mem)

theorem normalizeTickRows_of_increasing
    (incr : rows.Pairwise fun left right => left.id < right.id) :
    normalizeTickRows rows = rows :=
  if_pos (incr.imp fun less => Or.inl less).isChain

/-! ## The writer -/

structure PendingCoverageCommit where
  rangeStartNs : Int
  rangeEndNs : Int
  rows : Nat
  idRange : Int × Int
  deriving DecidableEq

/-- `LiveTickSymbolState`; instants are counted in nanoseconds. -/
structure LiveTickSymbolState where
  segmentStartId : Option Int
  segmentStartNs : Option Int
  lastSeenId : Option Int
  segmentRows : Nat
  pendingRows : List Tick
  pendingCommits : List PendingCoverageCommit
  pendingSince : Option Nat
  pendingGapDetected : Bool
  deriving DecidableEq

/-- `LiveTickSymbolState::default`. -/
def LiveTickSymbolState.default : LiveTickSymbolState := ⟨none, none, none, 0, [], [], none, false⟩

structure LiveTickCacheWriteReport where
  symbol : String
  appendedRows : Nat
  committedRanges : List (Int × Int)
  lastSeenId : Option Int
  gapDetected : Bool
  deriving DecidableEq

/-- The states of the symbols and their caches.  The last two are history: the rows that
successful calls of `push_ticks` took for a symbol, and the rows of its successful writes. -/
structure LiveTickCacheWriter where
  states : List (String × LiveTickSymbolState)
  caches : String → TickCache
  accepted : String → List Tick
  written : String → List Tick

def liveTickWriteBufferRows : Nat := 128

def liveTickWriteMaxLatency : Nat := 250000000

namespace LiveTickSymbolState

variable (state : LiveTickSymbolState)

def startSegment (id datetimeNs : Int) : LiveTickSymbolState :=
  { state with segmentStartId := some id, segmentStartNs := some datetimeNs, segmentRows := 0 }

def updatePendingCommit (commits : List PendingCoverageCommit) (commit : PendingCoverageCommit) :
    List PendingCoverageCommit :=
  match commits.getLast? with
  | some pending =>
    if pending.idRange.1 = commit.idRange.1 then commits.dropLast ++ [commit]
    else commits ++ [commit]
  | none => [commit]

def isContiguous (row : Tick) : Bool :=
  match state.lastSeenId with
  | none => true
  | some lastSeen => decide (row.id = I64.saturated (lastSeen + 1))

/-- A row that is not contiguous, or the first one, starts a segment. -/
def openSegment (row : Tick) : LiveTickSymbolState :=
  if state.isContiguous row = false ∨ state.segmentStartId = none then
    state.startSegment row.id row.datetime
  else state

/-- The row becomes the last one of the segment. -/
def extendSegment (row : Tick) : Except DataError LiveTickSymbolState :=
  match state.segmentStartNs with
  | none => .error (.invalidState "live tick cache writer segment start is missing")
  | some segmentStartNs =>
    if row.datetime < segmentStartNs then
      .error (.invalidState "live tick cache writer tick datetime moved backwards")
    else
      match I64.checked (row.datetime + 1) with
      | none => .error (.invalidState "live tick cache writer datetime range overflow")
      | some rangeEndNs =>
        match state.segmentStartId with
        | none => .error (.invalidState "live tick cache writer segment id start is missing")
        | some segmentStartId =>
          .ok
            { state with
              lastSeenId := some row.id
              segmentRows := state.segmentRows + 1
              pendingRows := state.pendingRows ++ [row]
              pendingCommits := updatePendingCommit state.pendingCommits
                ⟨segmentStartNs, rangeEndNs, state.segmentRows + 1,
                  (segmentStartId, row.id)⟩ }

/-- The turn of the loop of `push_ticks` after the test for rows already seen. -/
def append (row : Tick) : Except DataError LiveTickSymbolState :=
  (state.openSegment row).extendSegment row

def isSeen (row : Tick) : Bool :=
  state.lastSeenId.any fun lastSeen => decide (row.id ≤ lastSeen)

/-- The rows of a call that were not seen before. -/
def freshRows (rows : List Tick) : List Tick :=
  (normalizeLiveTickRows rows).filter fun row => !state.isSeen row

/-- The loop over the rows, with the flag `gap_detected`. -/
def accept : List Tick → LiveTickSymbolState × Bool → Except DataError (LiveTickSymbolState × Bool)
  | [], result => .ok result
  | row :: rest, (state, gapDetected) =>
    if state.isSeen row then accept rest (state, gapDetected)
    else do
      let next ← state.append row
      accept rest (next, gapDetected || !state.isContiguous row)

/-- The state of a symbol after the rows of a call are buffered. -/
def buffer (rows : List Tick) (now : Nat) :
    Except DataError (LiveTickSymbolState × Bool) := do
  let (next, gapDetected) ← accept (normalizeLiveTickRows rows) (state, false)
  return (
    { next with
      pendingSince :=
        if 0 < next.pendingRows.length - state.pendingRows.length ∧ next.pendingSince = none
        then some now else next.pendingSince
      pendingGapDetected := next.pendingGapDetected || gapDetected },
    gapDetected)

def shouldFlush (next : LiveTickSymbolState) (acceptedRows now : Nat) : Bool :=
  !next.pendingRows.isEmpty &&
    (decide (1 < acceptedRows) || decide (liveTickWriteBufferRows ≤ next.pendingRows.length) ||
      next.pendingGapDetected ||
      next.pendingSince.any fun since => decide (liveTickWriteMaxLatency ≤ now - since))

/-- The rows that a call of `push_ticks` hands to the storage. -/
def batch (rows : List Tick) (now : Nat) : List Tick :=
  match state.buffer rows now with
  | .error _ => []
  | .ok (next, _) =>
    if next.shouldFlush (next.pendingRows.length - state.pendingRows.length) now
    then next.pendingRows else []

def cleared : LiveTickSymbolState :=
  { state with
    pendingRows := [], pendingCommits := [], pendingSince := none, pendingGapDetected := false }

def pendingRanges : List (Int × Int) :=
  state.pendingCommits.map fun commit => (commit.rangeStartNs, commit.rangeEndNs)

/-- The report of a successful `flush_pending_symbol`. -/
def report (symbol : String) : LiveTickCacheWriteReport :=
  ⟨symbol, state.pendingRows.length, state.pendingRanges, state.lastSeenId,
    state.pendingGapDetected⟩

end LiveTickSymbolState

/-- `append_partial_ticks_with_coverage`. -/
def appendPartialTicksWithCoverage (cache : TickCache) (symbol : String) (rows : List Tick)
    (coverage : List (Int × Int)) (fault : Option Nat) : TickCache × Except DataError Unit :=
  if symbol.isEmpty then
    (cache, .error (.invalidState "backtest tick cache symbol must not be empty"))
  else cache.perform (segmentWrites (normalizeTickRows rows) coverage) fault

namespace LiveTickCacheWriter

variable (writer : LiveTickCacheWriter)

def stateOf (symbol : String) : LiveTickSymbolState :=
  (OrdMap.get? symbol writer.states).getD .default

/-- `flush_pending_symbol` for the state `state` of a symbol, which is stored when it succeeds. -/
def flushPendingSymbol (symbol : String) (state : LiveTickSymbolState) (fault : Option Nat) :
    LiveTickCacheWriter × Except DataError LiveTickCacheWriteReport :=
  let states := OrdMap.insert symbol state.cleared writer.states
  if state.pendingRows.isEmpty then ({ writer with states := states }, .ok (state.report symbol))
  else
    match appendPartialTicksWithCoverage (writer.caches symbol) symbol state.pendingRows
        state.pendingRanges fault with
    | (cache, .error error) =>
      ({ writer with caches := Function.update writer.caches symbol cache }, .error error)
    | (cache, .ok ()) =>
      ({ writer with
         states := states
         caches := Function.update writer.caches symbol cache
         written := Function.update writer.written symbol
           (writer.written symbol ++ state.pendingRows) },
        .ok (state.report symbol))

def accept (symbol : String) (rows : List Tick) : LiveTickCacheWriter :=
  { writer with
    accepted := Function.update writer.accepted symbol (writer.accepted symbol ++ rows) }

def pushTicks (symbol : String) (rows : List Tick) (now : Nat) (fault : Option Nat) :
    LiveTickCacheWriter × Except DataError LiveTickCacheWriteReport :=
  if symbol.isEmpty then
    (writer, .error (.invalidState "live tick cache writer symbol must not be empty"))
  else
    let state := writer.stateOf symbol
    match state.buffer rows now with
    | .error error => (writer, .error error)
    | .ok (next, gapDetected) =>
      if next.shouldFlush (next.pendingRows.length - state.pendingRows.length) now then
        match writer.flushPendingSymbol symbol next fault with
        | (writer, .error error) => (writer, .error error)
        | (writer, .ok report) => (writer.accept symbol (state.freshRows rows), .ok report)
      else
        (accept { writer with states := OrdMap.insert symbol next writer.states } symbol
          (state.freshRows rows), .ok ⟨symbol, 0, [], next.lastSeenId, gapDetected⟩)

/-- The loop of `flush_all_pending`; the storage answers each symbol by its own fault. -/
def flushSymbols (faults : String → Option Nat) :
    List String → LiveTickCacheWriter →
      LiveTickCacheWriter × Except DataError (List LiveTickCacheWriteReport)
  | [], writer => (writer, .ok [])
  | symbol :: rest, writer =>
    match writer.flushPendingSymbol symbol (writer.stateOf symbol) (faults symbol) with
    | (writer, .error error) => (writer, .error error)
    | (writer, .ok report) =>
      match flushSymbols faults rest writer with
      | (writer, .error error) => (writer, .error error)
      | (writer, .ok reports) => (writer, .ok (report :: reports))

/-- `flush_all_pending`. -/
def flush (faults : String → Option Nat) :
    LiveTickCacheWriter × Except DataError (List LiveTickCacheWriteReport) :=
  flushSymbols faults
    ((writer.states.filter fun entry => !entry.2.pendingRows.isEmpty).map Prod.fst) writer

end LiveTickCacheWriter

end Tqsdk
