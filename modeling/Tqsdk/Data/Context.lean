import Tqsdk.Data.HistoryRequest
import Tqsdk.Lib.Counted

/-!
# Anchor-centred reads

`backtest_history/context.rs`.  A read looks for the last row at or before an anchor and widens
its window on the side that has too few rows, then reads the window once more.  `scan` is the
reader of one range; a computation of `ContextM` counts how often it was asked.
-/

namespace Tqsdk

def usizeMaximum : Nat := 2 ^ 64 - 1

def initialTickSpanNs : Int := 1000000000

def maxContextScans : Nat := 16

def maxContextSpanNs : Int := 90 * 24 * 60 * 60 * 1000000000

inductive BacktestHistoryFailureReason
  | invalidRequest
  | anchorNotFound
  | contextScanLimitExceeded (limitRows : Nat)
  | coverageIncomplete (missingRanges : List (Int × Int))
  | historyTimeout
  | internal
  deriving DecidableEq

structure BacktestHistorySnapshotError where
  reason : BacktestHistoryFailureReason
  requestId : Option Nat
  symbol : Option String
  message : String
  deriving DecidableEq

structure BacktestHistoryContextRequest where
  requestId : Nat
  symbol : String
  kind : BacktestHistoryKind
  anchorNs : Int
  anchorRowId : Option Int
  beforeRows : Nat
  afterRows : Nat
  effectiveEndNs : Option Int
  anchorInRange : I64.InRange anchorNs
  rowIdInRange : ∀ rowId, anchorRowId = some rowId → I64.InRange rowId
  endInRange : ∀ endNs, effectiveEndNs = some endNs → I64.InRange endNs

structure BacktestHistoryRequestReport where
  requestId : Nat
  rows : Nat
  deriving DecidableEq

structure BacktestHistoryCollected where
  request : BacktestHistoryRequestReport
  rows : BacktestHistoryRows

inductive BacktestHistoryContextBoundary
  | historyStart
  | futureEnd (effectiveEndNs : Int)
  deriving DecidableEq

structure BacktestHistoryContextResult where
  rows : BacktestHistoryRows
  report : BacktestHistoryRequestReport
  requestedAnchorNs : Int
  matchedAnchorNs : Int
  matchedAnchorRowId : Option Int
  anchorIndex : Nat
  requestedBefore : Nat
  requestedAfter : Nat
  actualBefore : Nat
  actualAfter : Nat
  complete : Bool
  leftBoundary : Option BacktestHistoryContextBoundary
  rightBoundary : Option BacktestHistoryContextBoundary

/-- How a read ends without a result. -/
inductive ContextStop
  | panicked
  | failed (error : BacktestHistorySnapshotError)
  deriving DecidableEq

abbrev ContextM := Counted ContextStop

abbrev ContextScan :=
  BacktestHistoryRequest → Except BacktestHistorySnapshotError BacktestHistoryCollected

/-! ## Requests -/

namespace BacktestHistoryContextRequest

variable (request : BacktestHistoryContextRequest)

def error (reason : BacktestHistoryFailureReason) (message : String) :
    BacktestHistorySnapshotError :=
  ⟨reason, some request.requestId, some request.symbol, message⟩

def validate : Except BacktestHistorySnapshotError Unit :=
  if (OrderLifecycle.trim request.symbol.toList).isEmpty then
    .error (request.error .invalidRequest "context symbol must not be empty")
  else if request.kind ≠ .tick ∧ request.anchorRowId.isSome then
    .error (request.error .invalidRequest "anchor_row_id is only valid for Tick context requests")
  else if usizeMaximum < request.beforeRows + 1 + request.afterRows then
    .error (request.error .invalidRequest "context row count overflows usize")
  else if request.effectiveEndNs.any (· ≤ request.anchorNs) then
    .error (request.error .invalidRequest "context effective_end_ns must be after anchor_ns")
  else .ok ()

/-- `as i64` of a `usize`. -/
def asI64 (rows : Nat) : Int := if rows < 2 ^ 63 then rows else rows - 2 ^ 64

/-- `None` where `clamp` panics, with a lower bound above the upper one. -/
def initialSpanNs : Option Int :=
  let rows := asI64
    (min usizeMaximum (min usizeMaximum (request.beforeRows + request.afterRows) + 1))
  match request.kind with
  | .tick => some initialTickSpanNs
  | .kline duration =>
    let span := I64.saturated (durationAsNs duration * max (I64.saturated (rows * 2)) 1)
    let low := I64.saturated (durationAsNs duration * 2)
    let high := 14 * 24 * 60 * 60 * 1000000000
    if high < low then none else some (max (min (max span low) high) 1)

def candidateRowLimit : Nat :=
  let rows := min usizeMaximum (min usizeMaximum (request.beforeRows + request.afterRows) + 1)
  max (min usizeMaximum (rows * 2)) 1024

def upperBound : Int :=
  request.effectiveEndNs.getD I64.maximum

/-- The request for one range that `collect_range` and `finalize_context` build. -/
def rangeRequest (startNs endNs : Int) : BacktestHistoryRequest :=
  ⟨request.requestId, request.symbol, request.kind, startNs, endNs, none⟩

end BacktestHistoryContextRequest

/-! ## Accumulated rows -/

inductive ContextAccumulator
  | ticks (rows : List ((Int ×ₗ Int) × Tick))
  | klines (durationNs : Int) (rows : List (Int × Kline))

structure AnchorMatch where
  index : Nat
  timestampNs : Int
  rowId : Option Int
  deriving DecidableEq

/-- The last key of a map that is at most `bound`, and its position. -/
def lastAtMost {κ α : Type} [LinearOrder κ] (rows : List (κ × α)) (bound : κ) :
    Option (κ × Nat) :=
  match (rows.filter fun entry => entry.1 ≤ bound).getLast? with
  | none => none
  | some (key, _) => some (key, (rows.filter fun entry => entry.1 ≤ key).length - 1)

namespace ContextAccumulator

def new : BacktestHistoryKind → ContextAccumulator
  | .tick => .ticks []
  | .kline duration => .klines (durationAsNs duration) []

def append : ContextAccumulator → BacktestHistoryRows → Except String ContextAccumulator
  | .ticks target, .ticks rows =>
    .ok (.ticks (rows.foldl (fun target row => OrdMap.insert row.orderKey row target) target))
  | .klines durationNs target, .klines incoming rows =>
    if durationNs = incoming then
      .ok (.klines durationNs
        (rows.foldl (fun target row => OrdMap.insert row.datetime row target) target))
    else .error "context scan returned a row kind different from request kind"
  | _, _ => .error "context scan returned a row kind different from request kind"

def length : ContextAccumulator → Nat
  | .ticks rows => rows.length
  | .klines _ rows => rows.length

variable (accumulator : ContextAccumulator)

def anchor (request : BacktestHistoryContextRequest) : Option AnchorMatch :=
  match accumulator with
  | .ticks rows =>
    let maxId := request.anchorRowId.getD I64.maximum
    (lastAtMost rows (toLex (request.anchorNs, maxId))).map fun (key, index) =>
      ⟨index, (ofLex key).1, some (ofLex key).2⟩
  | .klines _ rows =>
    (lastAtMost rows request.anchorNs).map fun (key, index) => ⟨index, key, none⟩

def countsAround (anchorIndex : Nat) : Nat × Nat :=
  (anchorIndex, accumulator.length - (anchorIndex + 1))

/-- `values[start..end]`, which panics outside the bounds. -/
def slice {α : Type} (values : List α) (start stop : Nat) : Option (List α) :=
  if start ≤ stop ∧ stop ≤ values.length then some ((values.take stop).drop start) else none

def finish (accumulator : ContextAccumulator) (request : BacktestHistoryContextRequest)
    (anchor : AnchorMatch) (report : BacktestHistoryRequestReport)
    (rightBoundary : Option BacktestHistoryContextBoundary) :
    Option BacktestHistoryContextResult := do
  let start := anchor.index - request.beforeRows
  let stop := min (anchor.index + request.afterRows + 1) accumulator.length
  let rows ← match accumulator with
    | .ticks rows => (slice (rows.map Prod.snd) start stop).map .ticks
    | .klines durationNs rows => (slice (rows.map Prod.snd) start stop).map (.klines durationNs)
  let actualBefore := anchor.index - start
  let actualAfter := stop - (anchor.index + 1)
  return {
    rows := rows
    report := { report with rows := rows.length }
    requestedAnchorNs := request.anchorNs
    matchedAnchorNs := anchor.timestampNs
    matchedAnchorRowId := anchor.rowId
    anchorIndex := actualBefore
    requestedBefore := request.beforeRows
    requestedAfter := request.afterRows
    actualBefore := actualBefore
    actualAfter := actualAfter
    complete := actualBefore == request.beforeRows && actualAfter == request.afterRows
    leftBoundary := none
    rightBoundary := rightBoundary }

end ContextAccumulator

/-! ## Scans -/

section Scans

variable (scan : ContextScan) (request : BacktestHistoryContextRequest)

def askScan (range : BacktestHistoryRequest) : ContextM BacktestHistoryCollected := do
  modify (· + 1)
  match scan range with
  | .ok collected => return collected
  | .error error => throw (.failed error)

/-- The rows of one scan, as `collect_range` and `finalize_context` take them up. -/
def takeRows (collected : BacktestHistoryCollected) (accumulator : ContextAccumulator)
    (message : String) : Except ContextStop ContextAccumulator :=
  if request.candidateRowLimit < collected.rows.length then
    .error (.failed (request.error (.contextScanLimitExceeded request.candidateRowLimit) message))
  else match accumulator.append collected.rows with
    | .ok accumulator => .ok accumulator
    | .error message => .error (.failed (request.error .internal message))

def collectRange (startNs endNs : Int) (accumulator : ContextAccumulator) :
    ContextM ContextAccumulator :=
  if endNs ≤ startNs then return accumulator
  else if maxContextSpanNs < I64.saturated (endNs - startNs) then
    throw (.failed (request.error .historyTimeout
      "context scan span exceeds bounded history window"))
  else do
    let collected ← askScan scan (request.rangeRequest startNs endNs)
    let accumulator ← takeRows request collected accumulator
      "one context scan exceeded its candidate row allowance"
    if request.candidateRowLimit < accumulator.length then
      throw (.failed (request.error (.contextScanLimitExceeded request.candidateRowLimit)
        "context candidate window exceeds bounded row budget"))
    else return accumulator

def finalizeContext (startNs endNs : Int)
    (rightBoundary : Option BacktestHistoryContextBoundary) :
    ContextM BacktestHistoryContextResult := do
  let collected ← askScan scan (request.rangeRequest startNs endNs)
  let accumulator ← takeRows request collected (.new request.kind)
    "final context scan exceeded its candidate row allowance"
  match accumulator.anchor request with
  | none => throw (.failed (request.error .anchorNotFound
      "final context scan no longer contains anchor"))
  | some anchor =>
    match accumulator.finish request anchor collected.request rightBoundary with
    | some result => return result
    | none => throw .panicked

/-! ## The search -/

/-- The variables of the loop of `collect_context`. -/
structure ContextSearch where
  accumulator : ContextAccumulator
  left : Int
  right : Int
  leftSpan : Int
  rightSpan : Int
  scans : Nat

def ContextSearch.extendLeft (search : ContextSearch) : ContextM ContextSearch := do
  let nextLeft := I64.saturated (search.left - search.leftSpan)
  let accumulator ← collectRange scan request nextLeft search.left search.accumulator
  return { search with
    accumulator := accumulator
    scans := search.scans + 1
    left := nextLeft
    leftSpan := max (I64.saturated (search.leftSpan * 2)) 1 }

def ContextSearch.extendRight (search : ContextSearch) : ContextM ContextSearch := do
  let nextRight := min (I64.saturated (search.right + search.rightSpan)) request.upperBound
  let accumulator ← collectRange scan request search.right nextRight search.accumulator
  return { search with
    accumulator := accumulator
    scans := search.scans + 1
    right := nextRight
    rightSpan := max (I64.saturated (search.rightSpan * 2)) 1 }

/-- The part of a turn that fetches preceding rows when they are needed. -/
def ContextSearch.fetchPreceding (search : ContextSearch) (needLeft : Bool) :
    ContextM ContextSearch :=
  if needLeft then
    if search.left = I64.minimum ∨ maxContextScans ≤ search.scans then
      throw (.failed (request.error .historyTimeout
        "context scan limit reached before requested preceding rows"))
    else search.extendLeft scan request
  else return search

/-- And the part that fetches following rows, or finds that the upper bound is reached. -/
def ContextSearch.fetchFollowing (search : ContextSearch) (needRight : Bool) :
    ContextM (Option BacktestHistoryContextBoundary × ContextSearch) :=
  if needRight then
    if request.upperBound ≤ search.right then
      return (request.effectiveEndNs.map .futureEnd, search)
    else if maxContextScans ≤ search.scans then
      throw (.failed (request.error .historyTimeout
        "context scan limit reached before requested following rows"))
    else return (none, ← search.extendRight scan request)
  else return (none, search)

/-- One turn of the loop of `collect_context`. -/
def ContextSearch.turn (search : ContextSearch) :
    ContextM (BacktestHistoryContextResult ⊕ ContextSearch) :=
  match search.accumulator.anchor request with
  | none =>
    if search.left = I64.minimum then
      throw (.failed (request.error .anchorNotFound
        "no history row exists at or before context anchor"))
    else if maxContextScans ≤ search.scans then
      throw (.failed (request.error .historyTimeout
        "context scan limit reached before locating anchor"))
    else return .inr (← search.extendLeft scan request)
  | some anchor =>
    let (actualBefore, actualAfter) := search.accumulator.countsAround anchor.index
    let needLeft := decide (actualBefore < request.beforeRows)
    let needRight := decide (actualAfter < request.afterRows)
    if !needLeft && !needRight then do
      return .inl (← finalizeContext scan request search.left search.right none)
    else do
      let search ← search.fetchPreceding scan request needLeft
      let (rightBoundary, search) ← search.fetchFollowing scan request needRight
      match rightBoundary with
      | some boundary =>
        return .inl (← finalizeContext scan request search.left search.right (some boundary))
      | none => return .inr search

/-- The loop, for at most `fuel` turns; `none` while it still runs. -/
def ContextSearch.run (search : ContextSearch) :
    Nat → ContextM (Option BacktestHistoryContextResult)
  | 0 => return none
  | fuel + 1 => do
      match ← search.turn scan request with
      | .inl result => return some result
      | .inr search => search.run fuel

def startSearch (span : Int) : ContextM ContextSearch := do
  let left := I64.saturated (request.anchorNs - span)
  let right := min (I64.saturated (I64.saturated (request.anchorNs + span) + 1)) request.upperBound
  let accumulator ← collectRange scan request left right (.new request.kind)
  return ⟨accumulator, left, right, span, span, 1⟩

/-- `collect_context`, stopped after `fuel` turns of its loop. -/
def collectContext (fuel : Nat) : ContextM (Option BacktestHistoryContextResult) :=
  match request.validate with
  | .error error => throw (.failed error)
  | .ok () =>
    match request.initialSpanNs with
    | none => throw .panicked
    | some span => do
        let search ← startSearch scan request span
        search.run scan request fuel

end Scans

end Tqsdk
