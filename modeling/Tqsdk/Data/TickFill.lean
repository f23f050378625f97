import Tqsdk.Data.TradingDay
import Tqsdk.Data.Rows

/-!
# Tick fills

`fill_ticks` and `consume_with_retries` of `backtest_history/fill.rs`, with `StreamingTickFill`
that decides which of the delivered ticks are new.  A fill has at most three attempts; the ticks
of a failed one are kept, and those of the next are told from them by the largest id alone.
-/

namespace Tqsdk

/-! ## Which rows are new -/

structure StreamingTickFill where
  range : Int × Int
  chartId : Option Nat
  attemptLastId : Option Int
  firstId : Option Int
  lastId : Option Int
  firstDatetimeNs : Option Int
  lastDatetimeNs : Option Int
  uniqueRows : Nat
  deriving DecidableEq

namespace StreamingTickFill

def new (range : Int × Int) : StreamingTickFill := ⟨range, none, none, none, none, none, none, 0⟩

variable (fill : StreamingTickFill)

def inRange (row : Tick) : Bool :=
  decide (fill.range.1 ≤ row.datetime ∧ row.datetime < fill.range.2)

/-- The first row of another chart starts over. -/
def forChart (chartId : Nat) : StreamingTickFill :=
  if fill.chartId = some chartId then fill
  else { fill with chartId := some chartId, attemptLastId := none }

/-- The test against `last_id` and the row that is taken. -/
def take (row : Tick) : StreamingTickFill × Except DataError Bool :=
  let taken : StreamingTickFill :=
    { fill with
      firstId := fill.firstId.or (some row.id)
      firstDatetimeNs := if fill.firstId = none then some row.datetime else fill.firstDatetimeNs
      lastId := some row.id
      lastDatetimeNs := some row.datetime
      uniqueRows := fill.uniqueRows + 1 }
  match fill.lastId with
  | none => (taken, .ok true)
  | some lastId =>
    if row.id ≤ lastId then (fill, .ok false)
    else if row.id ≠ I64.saturated (lastId + 1) then
      (fill, .error (.invalidResponse ("server Tick fill id gap: expected " ++
        toString (I64.saturated (lastId + 1)) ++ ", got " ++ toString row.id)))
    else (taken, .ok true)

/-- `push`; the texts of the errors hold the ids. -/
def push (chartId : Nat) (row : Tick) : StreamingTickFill × Except DataError Bool :=
  if fill.inRange row then
    let fill := fill.forChart chartId
    match fill.attemptLastId with
    | none => ({ fill with attemptLastId := some row.id }.take row)
    | some previousId =>
      if row.id < previousId then
        (fill, .error (.invalidResponse
          ("server Tick fill ids moved backwards within one chart: " ++ toString previousId ++
            " -> " ++ toString row.id)))
      else if row.id = previousId then (fill, .ok false)
      else ({ fill with attemptLastId := some row.id }.take row)
  else (fill, .ok false)

end StreamingTickFill

/-! ## The fill -/

/-- Errors of a fill: `transient` for those that `is_retryable` accepts. -/
inductive FillError
  | data (error : DataError)
  | transient (message : String)
  deriving DecidableEq

def FillError.isRetryable : FillError → Bool
  | data _ => false
  | transient _ => true

inductive TickFillEvent
  | ticks (symbol : String) (rows : List Tick)
  | chartCompleted (symbol : String)
  | streamCompleted
  | canonicalKlines
  deriving DecidableEq

/-- One source attempt: the refusal before it (cancelled, draining, no credentials), the error of
opening it, its events, the error that `next_event` ends in after them (of the source, its end
without a terminal, or the cancellation), that of closing it and that of waiting for the next. -/
structure FillAttempt where
  refused : Option FillError
  opened : Option FillError
  events : List TickFillEvent
  ended : FillError
  closed : Option FillError
  waited : Option FillError

/-- The variables of `fill_ticks`.  The last four are history: the rows inside the range as they
were delivered with their charts, the rows taken as new, those of successful appends, and those
of appends that failed. -/
structure TickFill where
  fill : StreamingTickFill
  pendingRows : List Tick
  writtenRows : Nat
  appends : Nat
  seen : List (Nat × Tick)
  taken : List Tick
  appended : List Tick
  lost : List Tick

def tickWriteBufferRows : Nat := 8192

def remoteFillRetryAttempts : Nat := 3

section Fill

-- how the storage, or a cancellation before it, answers the appends one after the other
variable (answers : Nat → Option FillError)

/-- `append_partial_ticks` of the pending rows, which are drained also when it fails. -/
def TickFill.appendPending (state : TickFill) : TickFill × Except FillError Unit :=
  let drained := { state with pendingRows := [], appends := state.appends + 1 }
  match answers state.appends with
  | some error => ({ drained with lost := state.lost ++ state.pendingRows }, .error error)
  | none =>
    ({ drained with
        writtenRows := state.writtenRows + state.pendingRows.length
        appended := state.appended ++ state.pendingRows }, .ok ())

def TickFill.consumeRow (chartId : Nat) (row : Tick) (state : TickFill) :
    TickFill × Except FillError Unit :=
  let seen := if state.fill.inRange row then state.seen ++ [(chartId, row)] else state.seen
  match state.fill.push chartId row with
  | (fill, .error error) => ({ state with fill := fill, seen := seen }, .error (.data error))
  | (fill, .ok false) => ({ state with fill := fill, seen := seen }, .ok ())
  | (fill, .ok true) =>
    let next :=
      { state with
        fill := fill
        seen := seen
        pendingRows := state.pendingRows ++ [row]
        taken := state.taken ++ [row] }
    if tickWriteBufferRows ≤ next.pendingRows.length then next.appendPending answers
    else (next, .ok ())

def TickFill.consumeRows (chartId : Nat) : List Tick → TickFill → TickFill × Except FillError Unit
  | [], state => (state, .ok ())
  | row :: rest, state =>
    match state.consumeRow answers chartId row with
    | (next, .error error) => (next, .error error)
    | (next, .ok ()) => next.consumeRows chartId rest

/-- The closure that `fill_ticks` hands to `consume_with_retries`. -/
def TickFill.consumeEvent (symbol : String) (chartId : Nat) (event : TickFillEvent)
    (state : TickFill) : TickFill × Except FillError Bool :=
  match event with
  | .ticks eventSymbol rows =>
    if eventSymbol ≠ symbol then
      (state, .error (.data (.invalidResponse
        ("server Tick fill returned unexpected symbol " ++ eventSymbol))))
    else
      match state.consumeRows answers chartId rows with
      | (next, .error error) => (next, .error error)
      | (next, .ok ()) => (next, .ok false)
  | .chartCompleted eventSymbol =>
    if eventSymbol ≠ symbol then
      (state, .error (.data (.invalidResponse
        ("server Tick fill completed unexpected symbol " ++ eventSymbol))))
    else (state, .ok false)
  | .streamCompleted => (state, .ok true)
  | .canonicalKlines =>
    (state, .error (.data (.invalidResponse "server Tick fill returned canonical-minute rows")))

/-- The loop over the events of one source. -/
def TickFill.consumeEvents (symbol : String) (chartId : Nat) (ended : FillError) :
    List TickFillEvent → TickFill → TickFill × Except FillError Unit
  | [], state => (state, .error ended)
  | event :: rest, state =>
    match state.consumeEvent answers symbol chartId event with
    | (next, .error error) => (next, .error error)
    | (next, .ok true) => (next, .ok ())
    | (next, .ok false) => next.consumeEvents symbol chartId ended rest

/-- An opened attempt with its close. -/
def TickFill.runAttempt (symbol : String) (chartId : Nat) (attempt : FillAttempt)
    (state : TickFill) : TickFill × Except FillError Unit :=
  match attempt.opened with
  | some error => (state, .error error)
  | none =>
    match state.consumeEvents answers symbol chartId attempt.ended attempt.events with
    | (next, .error error) => (next, .error error)
    | (next, .ok ()) =>
      match attempt.closed with
      | some error => (next, .error error)
      | none => (next, .ok ())

/-- `consume_with_retries` from an attempt on, with `remaining` attempts left.  The number of an
attempt is that of its chart; the result names the one that has completed. -/
def TickFill.consumeWithRetries (symbol : String) (attempts : Nat → FillAttempt) :
    Nat → Nat → TickFill → TickFill × Except FillError Nat
  | 0, _, state =>
    (state, .error (.data (.invalidState
      "server backtest history source exhausted its retry budget")))
  | remaining + 1, attempt, state =>
    match (attempts attempt).refused with
    | some error => (state, .error error)
    | none =>
      match state.runAttempt answers symbol attempt (attempts attempt) with
      | (next, .ok ()) => (next, .ok attempt)
      | (next, .error error) =>
        if 0 < remaining ∧ error.isRetryable = true then
          match (attempts attempt).waited with
          | some error => (next, .error error)
          | none => next.consumeWithRetries symbol attempts remaining (attempt + 1)
        else (next, .error error)

/-- What `mark_tick_complete` or `mark_tick_provisional` is called with. -/
structure TickMark where
  range : Int × Int
  asOfNs : Option Int
  rows : Nat
  idRange : Option (Int × Int)
  deriving DecidableEq

/-- The end of a fill: the mark that it has reached, whether the coverage is committed, and the
number of the attempt that completed. -/
structure TickFillOutcome where
  state : TickFill
  completing : Option Nat
  mark : Option TickMark
  committed : Bool
  result : Except FillError Nat

def TickFill.start (range : Int × Int) : TickFill :=
  ⟨.new range, [], 0, 0, [], [], [], []⟩

def ensureFinalTickRangeIsClosed (nowNs : Int) (range : Int × Int) : Except DataError Unit := do
  let current ← tradingDayRange (tradingDayForTimestampNs nowNs)
  if current.startNs < range.2 then
    .error (.invalidState
      "current or future trading-day backtest history cannot be committed as final")
  else .ok ()

def TickFillOutcome.failed (state : TickFill) (error : FillError) : TickFillOutcome :=
  ⟨state, none, none, false, .error error⟩

/-- The part of `fill_ticks` after the attempts: `cancelled` is the answer of
`ensure_not_cancelled`, `marking` the error of the mark. -/
def TickFill.finish (range : Int × Int) (provisionalAsOfNs : Option Int)
    (cancelled marking : Option FillError) (consumed : Except FillError Nat) (state : TickFill) :
    TickFillOutcome :=
  match if state.pendingRows = [] then (state, .ok ()) else state.appendPending answers with
  | (state, .error error) => .failed state error
  | (state, .ok ()) =>
    match consumed, cancelled with
    | .error error, _ => .failed state error
    | .ok _, some error => .failed state error
    | .ok completing, none =>
      let mark : TickMark :=
        ⟨range, provisionalAsOfNs, state.fill.uniqueRows,
          state.fill.firstId.bind fun first => state.fill.lastId.map fun last => (first, last)⟩
      match marking with
      | some error => ⟨state, some completing, some mark, false, .error error⟩
      | none => ⟨state, some completing, some mark, true, .ok state.writtenRows⟩

def fillTicks (symbol : String) (range : Int × Int) (provisionalAsOfNs : Option Int) (nowNs : Int)
    (attempts : Nat → FillAttempt) (cancelled marking : Option FillError) : TickFillOutcome :=
  match if provisionalAsOfNs = none then ensureFinalTickRangeIsClosed nowNs range else .ok () with
  | .error error => .failed (.start range) (.data error)
  | .ok () =>
    let (state, consumed) :=
      (TickFill.start range).consumeWithRetries answers symbol attempts remoteFillRetryAttempts 1
    state.finish answers range provisionalAsOfNs cancelled marking consumed

end Fill

end Tqsdk
