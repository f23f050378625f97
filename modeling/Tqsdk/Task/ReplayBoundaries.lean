import Mathlib
import Tqsdk.Task.ReplayRuns

/-!
# Minutes from two sources

One-minute rows replayed from the minute cache and as rows of the caller.  The minute source queues
open and close row by row; the native source sorts all its events, which puts the open of a bar in
front of the close at the same time.  The two agree exactly on rows that never touch.
-/

namespace Tqsdk

open List Result

section

variable (symbol : String) (startNs endNs : Int) (rows : List Kline)
  (session : KlineSessionTemplate)

/-- The rows as a minute source. -/
def minuteSource : HistoryBacktestMinuteKlineSource :=
  ⟨rows, session.snapshotHash, symbol, symbol, startNs, endNs, minuteKlineDurationNs, session, []⟩

def minuteReplayRequest : HistoryBacktestProjectedReplayRequest where
  startNs := startNs
  endNs := endNs
  nativeKlineSources := []
  minuteKlineSources := [minuteSource symbol startNs endNs rows session]

/-- The rows as the only native source of a request. -/
def nativeReplayRequest : HistoryBacktestProjectedReplayRequest where
  startNs := startNs
  endNs := endNs
  nativeKlineSources := [⟨symbol, minuteKlineDurationNs, rows, []⟩]
  minuteKlineSources := []

end

/-! ## The events of a row -/

def ReplayKlineEvent.unlabelled (event : ReplayKlineEvent) : ReplayKlineEvent :=
  { event with source := "" }

/-- The time of an event, and whether it closes its bar. -/
def ReplayKlineEvent.moment (event : ReplayKlineEvent) : Int ×ₗ Nat :=
  toLex (event.eventTimeNs, if event.row.datetime = event.eventTimeNs then 2 else 3)

def openedAt (source symbol : String) (row : Kline) : QueuedEvent :=
  ⟨⟨source, symbol, row.datetime, row.datetime, none, minuteKlineDurationNs, openingRow row⟩, 2,
    row.id, row.datetime⟩

def closedAt (source symbol : String) (row : Kline) : QueuedEvent :=
  ⟨⟨source, symbol, row.datetime + minuteKlineDurationNs, row.datetime + minuteKlineDurationNs,
    none, minuteKlineDurationNs, row⟩, 3, row.id, row.datetime⟩

/-- The events of a row inside the range. -/
def eventsOf (openSource closeSource symbol : String) (endNs : Int) (row : Kline) :
    List QueuedEvent :=
  openedAt openSource symbol row ::
    if row.datetime + minuteKlineDurationNs < endNs then [closedAt closeSource symbol row] else []

/-- The error of an event that is not accepted. -/
def refusal (symbol : String) : ReplayError :=
  if blank symbol then .invalidState "replay market event symbol must not be empty"
  else .invalidState "replay market event received_at_ns must be non-negative"

theorem minute_pos : (0 : Int) < minuteKlineDurationNs := by
  decide

theorem klineOpenEvent_eq {src symbol : String} {row : Kline} (named : blank src = false)
    (rank : Nat) :
    klineOpenEvent src symbol minuteKlineDurationNs row rank =
      if blank symbol ∨ row.datetime < 0 then .error (refusal symbol)
      else .ok { openedAt src symbol row with sourceRank := rank } := by
  unfold klineOpenEvent ReplayKlineEvent.kline
  rw [if_neg (not_le.mpr minute_pos), named, refusal]
  by_cases unnamed : blank symbol
  · simp [unnamed, bind, Except.bind]
  · by_cases early : row.datetime < 0
    · simp [unnamed, early, bind, Except.bind]
    · simp [unnamed, early, openedAt, bind, Except.bind, pure, Except.pure]

theorem klineCloseEvent_eq {src symbol : String} {row : Kline} (named : blank src = false)
    (accepted : blank symbol = false) (early : 0 ≤ row.datetime) (rank : Nat) :
    klineCloseEvent src symbol minuteKlineDurationNs (row.datetime + minuteKlineDurationNs) row
      rank = .ok { closedAt src symbol row with sourceRank := rank } := by
  have pos := minute_pos
  have late : ¬ row.datetime + minuteKlineDurationNs < 0 := by omega
  unfold klineCloseEvent ReplayKlineEvent.kline
  rw [if_neg (not_le.mpr minute_pos), named, accepted]
  simp [late, closedAt, bind, Except.bind, pure, Except.pure]

section

variable {symbol : String} {startNs endNs : Int} {row : Kline}

section

variable (inside : startNs ≤ row.datetime ∧ row.datetime < endNs)
  (refused : blank symbol ∨ row.datetime < 0)

include inside refused

theorem minuteKlineEvents_refused :
    minuteKlineEvents symbol minuteKlineDurationNs startNs endNs row = .error (refusal symbol) := by
  rw [minuteKlineEvents, onlyIf, if_pos inside, minuteKlineOpenEvent,
    klineOpenEvent_eq (by decide), if_pos refused]
  rfl

theorem nativeRowEvents_refused :
    nativeRowEvents symbol minuteKlineDurationNs startNs endNs row = .error (refusal symbol) := by
  rw [nativeRowEvents, onlyIf, if_pos inside, nativeKlineOpenEvent,
    klineOpenEvent_eq (by decide), if_pos refused]
  rfl

end

variable (inside : startNs ≤ row.datetime ∧ row.datetime < endNs)
  (accepted : blank symbol = false) (nonneg : 0 ≤ row.datetime)

include inside accepted nonneg

theorem opening_accepted {src : String} (named : blank src = false) (rank : Nat) :
    onlyIf (startNs ≤ row.datetime ∧ row.datetime < endNs)
      (klineOpenEvent src symbol minuteKlineDurationNs row rank) =
        .ok [{ openedAt src symbol row with sourceRank := rank }] := by
  rw [onlyIf, if_pos inside, klineOpenEvent_eq named, if_neg]
  · rfl
  · rw [accepted]
    simpa using nonneg

theorem closing_accepted {src : String} (named : blank src = false) (rank : Nat) :
    onlyIf (startNs ≤ row.datetime + minuteKlineDurationNs ∧
        row.datetime + minuteKlineDurationNs < endNs)
      (klineCloseEvent src symbol minuteKlineDurationNs (row.datetime + minuteKlineDurationNs)
        row rank) =
        .ok (if row.datetime + minuteKlineDurationNs < endNs then
          [{ closedAt src symbol row with sourceRank := rank }] else []) := by
  have pos := minute_pos
  have afterStart : startNs ≤ row.datetime + minuteKlineDurationNs := by omega
  rw [onlyIf, klineCloseEvent_eq named accepted nonneg]
  by_cases pre : row.datetime + minuteKlineDurationNs < endNs
  · rw [if_pos ⟨afterStart, pre⟩, if_pos pre]
    rfl
  · rw [if_neg fun due => pre due.2, if_neg pre]

theorem minuteKlineEvents_accepted :
    minuteKlineEvents symbol minuteKlineDurationNs startNs endNs row =
      if I64.InRange (row.datetime + minuteKlineDurationNs) then
        .ok (eventsOf "history-cache-minute-kline-open" "history-cache-minute-kline-close" symbol
          endNs row)
      else .error (.invalidState "canonical minute kline close timestamp overflow") := by
  unfold minuteKlineEvents minuteKlineOpenEvent minuteKlineCloseEvent
  rw [opening_accepted inside accepted nonneg (by decide), ok_bind, I64.checked]
  by_cases fits : I64.InRange (row.datetime + minuteKlineDurationNs)
  · rw [if_pos fits, if_pos fits]
    dsimp only
    rw [closing_accepted inside accepted nonneg (by decide), ok_bind]
    rfl
  · rw [if_neg fits, if_neg fits]

theorem nativeRowEvents_accepted (fits : I64.InRange (row.datetime + minuteKlineDurationNs)) :
    nativeRowEvents symbol minuteKlineDurationNs startNs endNs row =
      .ok (eventsOf "history-cache-native-kline-open" "history-cache-native-kline-close" symbol
        endNs row) := by
  unfold nativeRowEvents nativeKlineOpenEvent nativeKlineCloseEvent
  rw [opening_accepted inside accepted nonneg (by decide), ok_bind, I64.checked,
    if_pos fits]
  dsimp only
  rw [closing_accepted inside accepted nonneg (by decide), ok_bind]
  rfl

/-- A row whose close does not fit has no close in the native source. -/
theorem nativeRowEvents_ok :
    ∃ evs, nativeRowEvents symbol minuteKlineDurationNs startNs endNs row = .ok evs := by
  by_cases fits : I64.InRange (row.datetime + minuteKlineDurationNs)
  · exact ⟨_, nativeRowEvents_accepted inside accepted nonneg fits⟩
  · unfold nativeRowEvents nativeKlineOpenEvent
    rw [opening_accepted inside accepted nonneg (by decide), ok_bind, I64.checked,
      if_neg fits]
    exact ⟨_, rfl⟩

end

/-! ## The two queues -/

def minuteEventsOf (symbol : String) (endNs : Int) (row : Kline) : List QueuedEvent :=
  eventsOf "history-cache-minute-kline-open" "history-cache-minute-kline-close" symbol endNs row

def nativeEventsOf (symbol : String) (endNs : Int) (row : Kline) : List QueuedEvent :=
  eventsOf "history-cache-native-kline-open" "history-cache-native-kline-close" symbol endNs row

/-- The first row is refused, whatever source it comes from. -/
def RefusedFirst (symbol : String) (rows : List Kline) : Prop :=
  ∃ row ∈ rows.head?, blank symbol ∨ row.datetime < 0

/-- Every close is representable. -/
def ClosesFit (rows : List Kline) : Prop :=
  ∀ row ∈ rows, I64.InRange (row.datetime + minuteKlineDurationNs)

section

variable {symbol : String} {startNs endNs : Int} {rows : List Kline}

section

variable (producer : MinuteKlineProducer) (raw : producer.aggregator = none)
  (minutely : producer.durationNs = minuteKlineDurationNs)
  (inside : ∀ row ∈ rows, producer.rangeStartNs ≤ row.datetime ∧ row.datetime < producer.rangeEndNs)

include producer raw minutely inside

theorem queueRows_refused (refused : RefusedFirst symbol rows) :
    MinuteKlineProducer.queueRows symbol rows producer = ([], some (refusal symbol)) := by
  obtain ⟨row, fst, why⟩ := refused
  cases rows with
  | nil => cases fst
  | cons hd rows =>
    obtain rfl : hd = row := Option.some.inj fst
    rw [MinuteKlineProducer.queueRows, MinuteKlineProducer.queueRow, raw]
    dsimp only
    rw [minutely, minuteKlineEvents_refused (inside hd mem_cons_self) why]
    rfl

/-- The minute source queues its rows one after the other, and stops at a close that does not
fit. -/
theorem queueRows_accepted (accepted : blank symbol = false)
    (nonneg : ∀ row ∈ rows, 0 ≤ row.datetime) :
    (ClosesFit rows → MinuteKlineProducer.queueRows symbol rows producer =
        (rows.flatMap (minuteEventsOf symbol producer.rangeEndNs), none)) ∧
      (¬ ClosesFit rows → (MinuteKlineProducer.queueRows symbol rows producer).2 ≠ none) := by
  induction rows generalizing producer with
  | nil => exact ⟨fun _ => rfl, fun unfit => absurd (fun _ mem => by cases mem) unfit⟩
  | cons row rows ih =>
    obtain ⟨isInside, restInside⟩ := forall_mem_cons.mp inside
    obtain ⟨isNonneg, restNonneg⟩ := forall_mem_cons.mp nonneg
    have same : { producer with aggregator := none } = producer := by rw [← raw]
    obtain ⟨fitting, unfitting⟩ := ih producer raw minutely restInside restNonneg
    rw [MinuteKlineProducer.queueRows, MinuteKlineProducer.queueRow, raw]
    dsimp only
    rw [minutely, minuteKlineEvents_accepted isInside accepted isNonneg]
    by_cases fits : I64.InRange (row.datetime + minuteKlineDurationNs)
    · rw [if_pos fits, ok_bind]
      dsimp only [pure, Except.pure]
      rw [← minutely, same]
      refine ⟨fun shuts => ?_, fun unfit => unfitting fun shuts => unfit ?_⟩
      · rw [fitting (forall_mem_cons.mp shuts).2]
        rfl
      · exact forall_mem_cons.mpr ⟨fits, shuts⟩
    · rw [if_neg fits]
      exact ⟨fun shuts => absurd (shuts row mem_cons_self) fits, fun _ => Option.some_ne_none _⟩

end

section

variable (inside : ∀ row ∈ rows, startNs ≤ row.datetime ∧ row.datetime < endNs)

include inside

theorem nativeKlineEvents_refused (refused : RefusedFirst symbol rows) :
    nativeKlineEvents symbol minuteKlineDurationNs startNs endNs rows =
      .error (refusal symbol) := by
  obtain ⟨row, fst, why⟩ := refused
  cases rows with
  | nil => cases fst
  | cons hd rows =>
    obtain rfl : hd = row := Option.some.inj fst
    rw [nativeKlineEvents, mapM_cons, nativeRowEvents_refused (inside hd mem_cons_self) why]
    rfl

theorem nativeKlineEvents_ok (accepted : blank symbol = false)
    (nonneg : ∀ row ∈ rows, 0 ≤ row.datetime) :
    ∃ evs, nativeKlineEvents symbol minuteKlineDurationNs startNs endNs rows = .ok evs := by
  obtain ⟨evs, each⟩ := exists_mapM (f := nativeRowEvents symbol minuteKlineDurationNs
    startNs endNs) fun row mem =>
      nativeRowEvents_ok (inside row mem) accepted (nonneg row mem)
  rw [nativeKlineEvents, each]
  exact ⟨_, rfl⟩

theorem nativeKlineEvents_accepted (accepted : blank symbol = false)
    (nonneg : ∀ row ∈ rows, 0 ≤ row.datetime) (fit : ClosesFit rows) :
    nativeKlineEvents symbol minuteKlineDurationNs startNs endNs rows =
      .ok ((rows.flatMap (nativeEventsOf symbol endNs)).mergeSort fun left right =>
        decide (left.sortKey ≤ right.sortKey)) := by
  rw [nativeKlineEvents, mapM_eq_map fun row mem =>
    nativeRowEvents_accepted (inside row mem) accepted (nonneg row mem) (fit row mem)]
  rfl

end

theorem deliver_none (queue : List QueuedEvent) (out : Option ReplayError) :
    deliver .none queue out = (queue.map QueuedEvent.event, out) := by
  induction queue with
  | nil => rfl
  | cons que queue ih =>
    rw [deliver]
    have projected : HistoryBacktestReplayStream.project .none que = .ok que.event := rfl
    rw [projected]
    dsimp only
    rw [ih]
    rfl

end

/-! ## Order -/

section

variable {openSource closeSource symbol : String} {endNs : Int}

theorem mem_eventsOf {row : Kline} {inQ : QueuedEvent}
    (mem : inQ ∈ eventsOf openSource closeSource symbol endNs row) :
    inQ.event.moment = toLex (inQ.event.eventTimeNs, inQ.sourceRank) ∧
      row.datetime ≤ inQ.event.eventTimeNs ∧
      inQ.event.eventTimeNs ≤ row.datetime + minuteKlineDurationNs := by
  have pos := minute_pos
  rcases mem_cons.mp mem with rfl | closes
  · refine ⟨?_, le_refl _, by simpa [openedAt] using pos.le⟩
    simp [ReplayKlineEvent.moment, openedAt, openingRow]
  · split at closes
    · obtain rfl := mem_singleton.mp closes
      refine ⟨?_, by simpa [closedAt] using pos.le, le_refl _⟩
      have post : row.datetime ≠ row.datetime + minuteKlineDurationNs := by omega
      simp [ReplayKlineEvent.moment, closedAt, post]
    · cases closes

theorem sortKey_le_of_lt {left right : QueuedEvent}
    (pre : left.event.eventTimeNs < right.event.eventTimeNs) : left.sortKey ≤ right.sortKey :=
  (Prod.Lex.toLex_lt_toLex.mpr (.inl pre)).le

theorem moment_le_of_sortKey_le {left right : QueuedEvent} (ord : left.sortKey ≤ right.sortKey) :
    toLex (left.event.eventTimeNs, left.sourceRank) ≤
      toLex (right.event.eventTimeNs, right.sourceRank) := by
  rcases Prod.Lex.toLex_le_toLex.mp ord with pre | ⟨same, rest⟩
  · exact Prod.Lex.toLex_le_toLex.mpr (.inl pre)
  · refine Prod.Lex.toLex_le_toLex.mpr (.inr ⟨same, ?_⟩)
    rcases Prod.Lex.toLex_le_toLex.mp rest with lower | ⟨sameRank, -⟩
    · exact lower.le
    · exact sameRank.le

/-- Rows that never touch have their events in order. -/
theorem sorted_of_apart {rows : List Kline} (sep : rows.Pairwise fun left right =>
      left.datetime + minuteKlineDurationNs < right.datetime) :
    (rows.flatMap (eventsOf openSource closeSource symbol endNs)).Pairwise fun left right =>
      decide (left.sortKey ≤ right.sortKey) = true := by
  rw [pairwise_flatMap]
  refine ⟨fun row _ => ?_, sep.imp fun pre left lMem right rMem => ?_⟩
  · have pos := minute_pos
    rw [eventsOf, pairwise_cons]
    refine ⟨fun closing mem => decide_eq_true (sortKey_le_of_lt ?_), ?_⟩
    · split at mem
      · obtain rfl := mem_singleton.mp mem
        change row.datetime < row.datetime + minuteKlineDurationNs
        omega
      · cases mem
    · split
      · exact pairwise_singleton _ _
      · exact List.Pairwise.nil
  · refine decide_eq_true (sortKey_le_of_lt ?_)
    have leftBound := (mem_eventsOf lMem).2.2
    have rBd := (mem_eventsOf rMem).2.1
    omega

/-- The events of the sorted queue are in order of their moments. -/
theorem moments_sorted (rows : List Kline) :
    (((rows.flatMap (eventsOf openSource closeSource symbol endNs)).mergeSort fun left right =>
      decide (left.sortKey ≤ right.sortKey)).map QueuedEvent.event).Pairwise
        fun left right => left.moment ≤ right.moment := by
  rw [pairwise_map]
  have srt := @List.pairwise_mergeSort _
    (fun left right : QueuedEvent => decide (left.sortKey ≤ right.sortKey))
    (fun hd snd third was latter => decide_eq_true
      ((of_decide_eq_true was).trans (of_decide_eq_true latter)))
    (fun left right => by simpa using le_total left.sortKey right.sortKey)
    (rows.flatMap (eventsOf openSource closeSource symbol endNs))
  refine srt.imp_of_mem fun lMem rMem ord => ?_
  obtain ⟨leftRow, -, isLeft⟩ := mem_flatMap.mp (mem_mergeSort.mp lMem)
  obtain ⟨rightRow, -, isRight⟩ := mem_flatMap.mp (mem_mergeSort.mp rMem)
  rw [(mem_eventsOf isLeft).1, (mem_eventsOf isRight).1]
  exact moment_le_of_sortKey_le (of_decide_eq_true ord)

/-- Row by row, the close of a bar comes in front of the open that touches it. -/
theorem apart_of_moments_sorted {rows : List Kline} (inside : ∀ row ∈ rows, row.datetime < endNs)
    (srt : ((rows.flatMap (eventsOf openSource closeSource symbol endNs)).map
      QueuedEvent.event).Pairwise fun left right => left.moment ≤ right.moment) :
    rows.IsChain fun left right => right.datetime ≠ left.datetime + minuteKlineDurationNs := by
  rw [isChain_iff_forall_rel_of_append_cons_cons]
  rintro left right pre post rfl touching
  have rightInside := inside right (by simp)
  have hasClose : left.datetime + minuteKlineDurationNs < endNs := by omega
  rw [pairwise_map, pairwise_flatMap, pairwise_append, pairwise_cons] at srt
  have ord := srt.2.2.1.1 right mem_cons_self (closedAt closeSource symbol left)
    (by rw [eventsOf, if_pos hasClose]; simp) (openedAt openSource symbol right)
    mem_cons_self
  have later : left.datetime ≠ left.datetime + minuteKlineDurationNs := by
    have pos := minute_pos
    omega
  have closing : (closedAt closeSource symbol left).event.moment =
      toLex (right.datetime, 3) := by
    simp [ReplayKlineEvent.moment, closedAt, touching, later]
  have opn : (openedAt openSource symbol right).event.moment =
      toLex (right.datetime, 2) := by
    simp [ReplayKlineEvent.moment, openedAt, openingRow]
  rw [closing, opn] at ord
  rcases Prod.Lex.toLex_le_toLex.mp ord with no | ⟨-, no⟩
  · exact lt_irrefl _ no
  · exact absurd no (by simp)

theorem apart_pairwise {rows : List Kline}
    (incr : rows.Pairwise fun left right => left.datetime < right.datetime)
    (algn : ∀ row ∈ rows, row.datetime % minuteKlineDurationNs = 0)
    (sep : rows.IsChain fun left right => right.datetime ≠ left.datetime + minuteKlineDurationNs) :
    rows.Pairwise fun left right => left.datetime + minuteKlineDurationNs < right.datetime := by
  induction rows with
  | nil => exact .nil
  | cons row rows ih =>
    obtain ⟨hd, rest⟩ := pairwise_cons.mp incr
    obtain ⟨rowAligned, restAligned⟩ := forall_mem_cons.mp algn
    refine pairwise_cons.mpr ⟨fun alt mem => ?_, ih rest restAligned sep.tail⟩
    cases rows with
    | nil => cases mem
    | cons next rows =>
      have nextApart := (isChain_cons_cons.mp sep).1
      have nextLater := hd next mem_cons_self
      have nextAligned := restAligned next mem_cons_self
      have gap : row.datetime + minuteKlineDurationNs < next.datetime := by
        unfold minuteKlineDurationNs nanosPerSecond at *
        omega
      rcases mem_cons.mp mem with rfl | inRest
      · exact gap
      · exact gap.trans ((pairwise_cons.mp rest).1 alt inRest)

end

/-! ## The two replays -/

section

variable {symbol : String} {startNs endNs : Int} {rows : List Kline}
  {session : KlineSessionTemplate}

section

variable
  (accepted : (minuteSource symbol startNs endNs rows session).validate startNs endNs = .ok ())

include accepted

theorem accepted_source :
    validateReplaySymbol symbol = .ok () ∧ startNs < endNs := by
  obtain ⟨_, nm, rest⟩ := of_bind accepted
  obtain ⟨_, -, rest⟩ := of_bind rest
  split at rest
  · cases rest
  · rename_i ne
    exact ⟨nm, not_le.mp ne⟩

theorem newProjected_minute (inside : ∀ row ∈ rows, startNs ≤ row.datetime ∧ row.datetime < endNs) :
    HistoryBacktestReplayStream.newProjected
        (minuteReplayRequest symbol startNs endNs rows session) =
      HistoryBacktestReplayStream.start
        [⟨symbol, .none, 0, .minuteKline
          ⟨rows, startNs, endNs, minuteKlineDurationNs, none, []⟩, none⟩] := by
  have all : (minuteSource symbol startNs endNs rows session).rows = rows :=
    filter_eq_self.mpr fun row mem => decide_eq_true (inside row mem)
  have projection :
      (minuteSource symbol startNs endNs rows session).underlyingProjection = .none := by
    simp [HistoryBacktestMinuteKlineSource.underlyingProjection, minuteSource]
  have isCursor : (minuteSource symbol startNs endNs rows session).cursor startNs endNs =
      .ok ⟨symbol, .none, 0, .minuteKline
          ⟨rows, startNs, endNs, minuteKlineDurationNs, none, []⟩, none⟩ := by
    rw [HistoryBacktestMinuteKlineSource.cursor, accepted, all, projection]
    rfl
  rw [HistoryBacktestReplayStream.newProjected, minuteReplayRequest]
  dsimp only
  rw [if_neg (not_le.mpr (accepted_source accepted).2), mapM_nil, mapM_cons, isCursor, mapM_nil]
  rfl

theorem newProjected_native :
    HistoryBacktestReplayStream.newProjected (nativeReplayRequest symbol startNs endNs rows) =
      nativeKlineEvents symbol minuteKlineDurationNs startNs endNs rows >>= fun evs =>
        HistoryBacktestReplayStream.start [⟨symbol, .none, 0, .nativeKline evs, none⟩] := by
  obtain ⟨nm, ne⟩ := accepted_source accepted
  rw [HistoryBacktestReplayStream.newProjected, nativeReplayRequest]
  dsimp only
  rw [if_neg (not_le.mpr ne), mapM_nil, mapM_cons, mapM_nil,
    HistoryBacktestNativeKlineSource.cursor, validateReplayKlineRequest, nm]
  cases nativeKlineEvents symbol minuteKlineDurationNs startNs endNs rows <;> rfl

theorem minute_replays (inside : ∀ row ∈ rows, startNs ≤ row.datetime ∧ row.datetime < endNs) :
    let queue := MinuteKlineProducer.queueRows symbol rows
      ⟨rows, startNs, endNs, minuteKlineDurationNs, none, []⟩
    ReplaysRequest (minuteReplayRequest symbol startNs endNs rows session)
      (queue.1.map QueuedEvent.event) queue.2 := by
  have run := replaysRequest_start rfl (newProjected_minute accepted inside)
  rw [HistoryCursor.delivery, deliver_none] at run
  exact run

theorem native_replays {evs : List QueuedEvent}
    (inQ : nativeKlineEvents symbol minuteKlineDurationNs startNs endNs rows = .ok evs) :
    ReplaysRequest (nativeReplayRequest symbol startNs endNs rows)
      (evs.map QueuedEvent.event) none := by
  have los := newProjected_native accepted
  rw [inQ, ok_bind] at los
  have run := replaysRequest_start rfl los
  rw [HistoryCursor.delivery, deliver_none] at run
  exact run

end

theorem unlabelled_eventsOf (row : Kline) :
    (minuteEventsOf symbol endNs row).map (·.event.unlabelled) =
      (nativeEventsOf symbol endNs row).map (·.event.unlabelled) := by
  unfold minuteEventsOf nativeEventsOf eventsOf
  split <;> rfl

theorem unlabelled_flatMap (rows : List Kline) :
    (rows.flatMap (minuteEventsOf symbol endNs)).map (·.event.unlabelled) =
      (rows.flatMap (nativeEventsOf symbol endNs)).map (·.event.unlabelled) := by
  rw [map_flatMap, map_flatMap]
  exact flatMap_congr fun row _ => unlabelled_eventsOf row

/-- Sorting the events of the native source leaves them in the order of the minute source exactly
when no two rows touch. -/
theorem sorted_agrees_iff (incr : rows.Pairwise fun left right => left.datetime < right.datetime)
    (algn : ∀ row ∈ rows, row.datetime % minuteKlineDurationNs = 0)
    (inside : ∀ row ∈ rows, row.datetime < endNs) :
    (rows.flatMap (minuteEventsOf symbol endNs)).map (·.event.unlabelled) =
        ((rows.flatMap (nativeEventsOf symbol endNs)).mergeSort fun left right =>
          decide (left.sortKey ≤ right.sortKey)).map (·.event.unlabelled) ↔
      rows.IsChain fun left right => right.datetime ≠ left.datetime + minuteKlineDurationNs := by
  constructor
  · intro same
    refine @apart_of_moments_sorted "history-cache-minute-kline-open"
      "history-cache-minute-kline-close" symbol endNs rows inside ?_
    have srt := @moments_sorted "history-cache-native-kline-open"
      "history-cache-native-kline-close" symbol endNs rows
    rw [pairwise_map] at srt ⊢
    have relabelled : ∀ que : List QueuedEvent,
        que.Pairwise (fun left right => left.event.moment ≤ right.event.moment) ↔
          (que.map (·.event.unlabelled)).Pairwise fun left right => left.moment ≤ right.moment := by
      intro que
      rw [pairwise_map]
      rfl
    exact (relabelled _).mpr (same ▸ (relabelled _).mp srt)
  · intro sep
    rw [unlabelled_flatMap]
    congr 1
    exact (mergeSort_of_pairwise (sorted_of_apart (apart_pairwise incr algn sep))).symm

end

/-- One-minute rows replayed from the minute cache and as native rows give the same events, labels
apart, when no bar closes where the next one opens and every close is representable, or when the
first row is refused; and only then. -/
theorem replays_agree_iff (symbol : String) (startNs endNs : Int) (rows : List Kline)
    (session : KlineSessionTemplate)
    (accepted : (minuteSource symbol startNs endNs rows session).validate startNs endNs = .ok ())
    (increasing : rows.Pairwise fun left right => left.datetime < right.datetime)
    (aligned : ∀ row ∈ rows, row.datetime % minuteKlineDurationNs = 0)
    (inside : ∀ row ∈ rows, startNs ≤ row.datetime ∧ row.datetime < endNs) :
    ∃ minute minuteEnd native nativeEnd,
      ReplaysRequest (minuteReplayRequest symbol startNs endNs rows session) minute minuteEnd ∧
      ReplaysRequest (nativeReplayRequest symbol startNs endNs rows) native nativeEnd ∧
      ((minute.map ReplayKlineEvent.unlabelled = native.map ReplayKlineEvent.unlabelled ∧
          minuteEnd = nativeEnd) ↔
        RefusedFirst symbol rows ∨
          (rows.IsChain (fun left right =>
            right.datetime ≠ left.datetime + minuteKlineDurationNs) ∧ ClosesFit rows)) := by
  let producer : MinuteKlineProducer :=
    ⟨rows, startNs, endNs, minuteKlineDurationNs, none, []⟩
  have minute := minute_replays accepted inside
  by_cases refused : RefusedFirst symbol rows
  · have queue := queueRows_refused producer rfl rfl inside refused
    rw [queue] at minute
    have los := newProjected_native accepted
    rw [nativeKlineEvents_refused inside refused] at los
    exact ⟨_, _, _, _, minute, .refused los, iff_of_true ⟨rfl, rfl⟩ (.inl refused)⟩
  have nm : rows ≠ [] → blank symbol = false := by
    cases rows with
    | nil => exact fun emp => absurd rfl emp
    | cons row rows =>
      intro _
      by_contra unnamed
      exact refused ⟨row, rfl, .inl (by simpa using unnamed)⟩
  have nonneg : ∀ row ∈ rows, 0 ≤ row.datetime := by
    cases rows with
    | nil => exact fun _ mem => by cases mem
    | cons hd rows =>
      have fstNn : 0 ≤ hd.datetime := by
        by_contra early
        exact refused ⟨hd, rfl, .inr (not_le.mp early)⟩
      intro row mem
      rcases mem_cons.mp mem with rfl | inRest
      · exact fstNn
      · exact fstNn.trans ((pairwise_cons.mp increasing).1 row inRest).le
  by_cases emp : rows = []
  · subst emp
    have nothing : nativeKlineEvents symbol minuteKlineDurationNs startNs endNs [] = .ok [] := by
      simp [nativeKlineEvents, pure, Except.pure, bind, Except.bind]
    exact ⟨_, _, _, _, minute, native_replays accepted nothing,
      iff_of_true ⟨rfl, rfl⟩ (.inr ⟨.nil, fun _ mem => by cases mem⟩)⟩
  have isNamed := nm emp
  obtain ⟨fitting, unfitting⟩ := queueRows_accepted producer rfl rfl inside isNamed nonneg
  by_cases fit : ClosesFit rows
  · rw [fitting fit] at minute
    refine ⟨_, _, _, _, minute,
      native_replays accepted (nativeKlineEvents_accepted inside isNamed nonneg fit), ?_⟩
    rw [map_map, map_map]
    have agr := @sorted_agrees_iff symbol endNs rows increasing aligned
      fun row mem => (inside row mem).2
    exact ⟨fun same => .inr ⟨agr.mp same.1, fit⟩,
      fun cond => ⟨agr.mpr (cond.resolve_left refused).1, rfl⟩⟩
  · obtain ⟨evs, que⟩ := nativeKlineEvents_ok inside isNamed nonneg
    exact ⟨_, _, _, _, minute, native_replays accepted que,
      iff_of_false (fun same => unfitting fit same.2) fun cond =>
        fit (cond.resolve_left refused).2⟩

instance (rows : List Kline) : Decidable (ClosesFit rows) :=
  inferInstanceAs (Decidable (∀ row ∈ rows, I64.InRange (row.datetime + minuteKlineDurationNs)))

def minuteRow (id datetime : Int) : Kline :=
  ⟨id, datetime, .finite 100, .finite 102, .finite 99, .finite 101, 7, 40, 42, none⟩

def allDaySession : KlineSessionTemplate where
  snapshotHash := "session"
  windows := []
  increasing := KlineSessionTemplate.increasing_nil
  ordered := KlineSessionTemplate.ordered_nil

theorem replays_agree_iff_apart :
    ∃ minute minuteEnd native nativeEnd,
      ReplaysRequest (minuteReplayRequest "SHFE.rb2405" 0 600000000000
        [minuteRow 1 0, minuteRow 2 120000000000] allDaySession) minute minuteEnd ∧
      ReplaysRequest (nativeReplayRequest "SHFE.rb2405" 0 600000000000
        [minuteRow 1 0, minuteRow 2 120000000000]) native nativeEnd ∧
      minute.map ReplayKlineEvent.unlabelled = native.map ReplayKlineEvent.unlabelled ∧
      minuteEnd = nativeEnd := by
  obtain ⟨minute, minuteEnd, native, nativeEnd, replaysMinute, replaysNative, agr⟩ :=
    replays_agree_iff "SHFE.rb2405" 0 600000000000 [minuteRow 1 0, minuteRow 2 120000000000]
      allDaySession (by decide) (by decide) (by decide) (by decide)
  exact ⟨minute, minuteEnd, native, nativeEnd, replaysMinute, replaysNative,
    agr.mpr (.inr ⟨by decide, by decide⟩)⟩

/-- Where a bar closes as the next one opens, the native source delivers the open first. -/
theorem not_replays_agree_touching :
    ¬ ∀ (symbol : String) (startNs endNs : Int) (rows : List Kline)
      (session : KlineSessionTemplate),
      (minuteSource symbol startNs endNs rows session).validate startNs endNs = .ok () →
      rows.Pairwise (fun left right => left.datetime < right.datetime) →
      rows.Pairwise (fun left right => left.id < right.id) →
      (∀ row ∈ rows, row.datetime % minuteKlineDurationNs = 0) →
      (∀ row ∈ rows, startNs ≤ row.datetime ∧ row.datetime < endNs) →
      ∀ minute minuteEnd native nativeEnd,
        ReplaysRequest (minuteReplayRequest symbol startNs endNs rows session) minute minuteEnd →
        ReplaysRequest (nativeReplayRequest symbol startNs endNs rows) native nativeEnd →
        minute.map ReplayKlineEvent.unlabelled = native.map ReplayKlineEvent.unlabelled ∧
          minuteEnd = nativeEnd := by
  intro agr
  let rows : List Kline := [minuteRow 1 0, minuteRow 2 60000000000]
  have accepted : (minuteSource "SHFE.rb2405" 0 600000000000 rows allDaySession).validate 0
      600000000000 = .ok () := by decide
  have incr : rows.Pairwise fun left right => left.datetime < right.datetime := by decide
  have algn : ∀ row ∈ rows, row.datetime % minuteKlineDurationNs = 0 := by decide
  have inside : ∀ row ∈ rows, 0 ≤ row.datetime ∧ row.datetime < 600000000000 := by decide
  have nonneg : ∀ row ∈ rows, 0 ≤ row.datetime := fun row mem => (inside row mem).1
  have fit : ClosesFit rows := by decide
  have minute := minute_replays accepted inside
  rw [(queueRows_accepted ⟨rows, 0, 600000000000, minuteKlineDurationNs, none, []⟩ rfl rfl inside
    (by decide) nonneg).1 fit] at minute
  have native := native_replays accepted
    (nativeKlineEvents_accepted inside (by decide) nonneg fit)
  have same := (agr "SHFE.rb2405" 0 600000000000 rows allDaySession accepted incr
    (by decide) algn inside _ _ _ _ minute native).1
  rw [map_map, map_map] at same
  have sep := (sorted_agrees_iff incr algn fun row mem =>
    (inside row mem).2).mp same
  exact absurd sep (by decide)

end Tqsdk
