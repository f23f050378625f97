import Tqsdk.Data.DailyKlineAggregator
import Tqsdk.Data.FrozenPlan

/-!
# Reads of daily history

`execute_daily_plan` of `backtest_history/executor.rs`: the daily rows of the planned slices, as
they are or joined to bars of several days.

A read joins the rows from its own first row on.  Two reads of a series that end alike make the
same bars from the later start on exactly when their first rows are whole bars apart.
-/

namespace Tqsdk

open List

/-! ## The executor -/

/-- A message of a scan of the native daily store. -/
inductive DailyScanMessage
  | failed (message : String)
  | chunk (rows : List Kline)

/-- `sort_by_key(|row| (row.datetime, row.id))`. -/
def sortRows (rows : List Kline) : List Kline :=
  rows.insertionSort fun left right =>
    left.datetime < right.datetime ∨ (left.datetime = right.datetime ∧ left.id ≤ right.id)

def rowsIn (range : Int × Int) (rows : List Kline) : List Kline :=
  rows.filter fun row => decide (range.1 ≤ row.datetime ∧ row.datetime < range.2)

def dailyRowsForSlice (slice : PlannedSourceSlice) :
    DailyScanMessage → Except DataError (List Kline)
  | .failed message => .error (.invalidResponse message)
  | .chunk rows => .ok (sortRows (rowsIn slice.range rows))

def shouldEmitDailyKline (row : Kline) (plan : PlannedBacktestHistoryRequest) (durationNs : Int) :
    Except DataError Bool := do
  let barEndNs ← checkedOr (row.datetime + durationNs) "daily kline bar end overflow"
  return decide (plan.requestedRange.1 ≤ row.datetime ∧ row.datetime < plan.requestedRange.2 ∧
    barEndNs ≤ plan.effectiveEndNs)

/-- A closed bar goes to the output when it is to be emitted. -/
def emitClosed (plan : PlannedBacktestHistoryRequest) (durationNs : Int) (output : List Kline) :
    Option Kline → Except DataError (List Kline)
  | none => .ok output
  | some closed => do
      if ← shouldEmitDailyKline closed plan durationNs then return output ++ [closed]
      else return output

abbrev DailyReadState := DailyKlineAggregator × List Kline

def aggregateRow (plan : PlannedBacktestHistoryRequest) (durationNs : Int)
    (state : DailyReadState) (row : Kline) : Except DataError DailyReadState := do
  let (aggregator, closed) ← state.1.update row
  let output ← emitClosed plan durationNs state.2 closed
  return (aggregator, output)

def aggregateMessage (plan : PlannedBacktestHistoryRequest) (durationNs : Int)
    (slice : PlannedSourceSlice) (state : DailyReadState) (message : DailyScanMessage) :
    Except DataError DailyReadState := do
  let rows ← dailyRowsForSlice slice message
  rows.foldlM (aggregateRow plan durationNs) state

/-- The part of a message that a read of daily bars emits. -/
def emitDailyRows (plan : PlannedBacktestHistoryRequest) (slice : PlannedSourceSlice)
    (output : List Kline) (message : DailyScanMessage) : Except DataError (List Kline) := do
  let rows ← dailyRowsForSlice slice message
  return output ++ rows.filter fun row =>
    decide (plan.requestedRange.1 ≤ row.datetime ∧ row.datetime < plan.effectiveEndNs)

/-- All rows that a plan emits; how they are cut into chunks is left out. -/
def executeDailyPlan (plan : PlannedBacktestHistoryRequest)
    (source : PlannedSourceSlice → List DailyScanMessage) : Except DataError (List Kline) := do
  match plan.durationNs with
  | none => .error (.invalidState "daily backtest plan is missing Kline duration")
  | some durationNs =>
    if durationNs = dailyKlineDurationNs then
      plan.sourceSlices.foldlM (fun output slice =>
        (source slice).foldlM (emitDailyRows plan slice) output) []
    else
      let aggregator ← DailyKlineAggregator.new durationNs
      let (aggregator, output) ← plan.sourceSlices.foldlM (fun state slice =>
        (source slice).foldlM (aggregateMessage plan durationNs slice) state) (aggregator, [])
      let (_, closed) ← aggregator.finishClosedThrough plan.effectiveEndNs
      emitClosed plan durationNs output closed

/-! ## One read -/

/-- The rows that the messages of a scan hold. -/
def scannedRows (messages : List DailyScanMessage) : List Kline :=
  messages.flatMap fun
    | .failed _ => []
    | .chunk rows => rows

/-- A native daily series: one row a day. -/
def DailySeries (rows : List Kline) : Prop :=
  rows.Pairwise fun left right => left.datetime < right.datetime

/-- The bars that a read emits. -/
def emitsDaily (plan : PlannedBacktestHistoryRequest) (durationNs : Int) (bar : Kline) : Bool :=
  decide (plan.requestedRange.1 ≤ bar.datetime ∧ bar.datetime < plan.requestedRange.2 ∧
    bar.datetime + durationNs ≤ plan.effectiveEndNs)

/-- A read that has seen the rows: its output is what it has closed and emits. -/
def DailyReading (plan : PlannedBacktestHistoryRequest) (durationNs : Int)
    (state : DailyReadState) (rows : List Kline) : Prop :=
  ∃ closed, state.1.Saw durationNs rows closed ∧
    state.2 = closed.filter (emitsDaily plan durationNs)

section Read

variable {plan : PlannedBacktestHistoryRequest} {durationNs : Int} {state next : DailyReadState}
  {rows more output emitted : List Kline}

theorem emitClosed_eq_ok {shut : Option Kline}
    (ok : emitClosed plan durationNs output shut = .ok emitted) :
    emitted = output ++ shut.toList.filter (emitsDaily plan durationNs) := by
  cases shut with
  | none =>
    obtain rfl := Except.ok.inj ok
    simp
  | some bar =>
    obtain ⟨emits, isEmitted, ok⟩ := Result.of_bind ok
    obtain ⟨barEndNs, isEnd, isEmitted⟩ := Result.of_bind isEmitted
    obtain ⟨rfl, -⟩ := checkedOr_eq_ok isEnd
    obtain rfl := Except.ok.inj isEmitted
    change (if emitsDaily plan durationNs bar = true then _ else _) = _ at ok
    rw [Option.toList_some, filter_singleton]
    split at ok
    · rename_i emits
      rw [emits]
      exact (Except.ok.inj ok).symm
    · rename_i kept
      rw [Bool.not_eq_true] at kept
      rw [kept]
      simpa using (Except.ok.inj ok).symm

theorem DailyReading.snoc {row : Kline} (reading : DailyReading plan durationNs state rows)
    (pos : 0 < durationNs) (post : ∀ pre ∈ rows, pre.datetime < row.datetime)
    (ok : aggregateRow plan durationNs state row = .ok next) :
    DailyReading plan durationNs next (rows ++ [row]) := by
  obtain ⟨shut, saw, emits⟩ := reading
  obtain ⟨⟨agg, bar⟩, upd, ok⟩ := Result.of_bind ok
  obtain ⟨output, isOutput, ok⟩ := Result.of_bind ok
  obtain rfl := Except.ok.inj ok
  refine ⟨shut ++ bar.toList, saw.update pos post upd, ?_⟩
  rw [emitClosed_eq_ok isOutput, emits, filter_append]

theorem DailyReading.along (reading : DailyReading plan durationNs state rows)
    (pos : 0 < durationNs) (incr : DailySeries (rows ++ more))
    (ok : more.foldlM (aggregateRow plan durationNs) state = .ok next) :
    DailyReading plan durationNs next (rows ++ more) := by
  induction more generalizing state rows with
  | nil =>
    obtain rfl := Except.ok.inj ok
    rwa [append_nil]
  | cons row more ih =>
    rw [foldlM_cons] at ok
    obtain ⟨post, hd, ok⟩ := Result.of_bind ok
    have sep := (pairwise_append.mp incr).2.2
    rw [append_cons] at incr ⊢
    exact ih (reading.snoc pos (fun pre mem => sep pre mem row mem_cons_self) hd) incr ok

theorem sortRows_eq (incr : DailySeries rows) : sortRows rows = rows :=
  List.Pairwise.insertionSort_eq (incr.imp fun pre => .inl pre)

theorem rowsIn_append (rng : Int × Int) (hd snd : List Kline) :
    rowsIn rng (hd ++ snd) = rowsIn rng hd ++ rowsIn rng snd :=
  filter_append ..

theorem DailyReading.scan (reading : DailyReading plan durationNs state rows)
    (pos : 0 < durationNs) {cut : PlannedSourceSlice} {msgs : List DailyScanMessage}
    (incr : DailySeries (rows ++ rowsIn cut.range (scannedRows msgs)))
    (ok : msgs.foldlM (aggregateMessage plan durationNs cut) state = .ok next) :
    DailyReading plan durationNs next (rows ++ rowsIn cut.range (scannedRows msgs)) := by
  induction msgs generalizing state rows with
  | nil =>
    obtain rfl := Except.ok.inj ok
    simpa [scannedRows, rowsIn] using reading
  | cons msg msgs ih =>
    rw [foldlM_cons] at ok
    obtain ⟨post, hd, rem⟩ := Result.of_bind ok
    obtain ⟨chunk, isChunk, aggregated⟩ := Result.of_bind hd
    cases msg with
    | failed msg => cases isChunk
    | chunk scanned =>
      have split : rowsIn cut.range (scannedRows (.chunk scanned :: msgs)) =
          rowsIn cut.range scanned ++ rowsIn cut.range (scannedRows msgs) :=
        rowsIn_append ..
      rw [split, ← append_assoc] at incr ⊢
      have upTo : DailySeries (rows ++ rowsIn cut.range scanned) := (pairwise_append.mp incr).1
      obtain rfl := Except.ok.inj isChunk
      rw [sortRows_eq (pairwise_append.mp upTo).2.1] at aggregated
      exact ih (reading.along pos upTo aggregated) incr rem

/-- A read over one slice makes the bars of the rows in it, and emits those that end in time. -/
theorem executeDailyPlan_bars {src : PlannedSourceSlice → List DailyScanMessage}
    {cut : PlannedSourceSlice} (isDuration : plan.durationNs = some durationNs)
    (multiDay : durationNs ≠ dailyKlineDurationNs) (slcs : plan.sourceSlices = [cut])
    (incr : DailySeries (rowsIn cut.range (scannedRows (src cut))))
    (ok : executeDailyPlan plan src = .ok emitted) :
    0 < durationNs ∧ ∃ bars,
      (∀ hd ∈ (rowsIn cut.range (scannedRows (src cut))).head?,
        Bucketed durationNs hd.datetime (rowsIn cut.range (scannedRows (src cut))) bars) ∧
      (rowsIn cut.range (scannedRows (src cut)) = [] → bars = []) ∧
      emitted = bars.filter (emitsDaily plan durationNs) := by
  unfold executeDailyPlan at ok
  rw [isDuration] at ok
  dsimp only at ok
  rw [if_neg multiDay, slcs] at ok
  obtain ⟨agg, isNew, ok⟩ := Result.of_bind ok
  obtain ⟨⟨last, output⟩, scanned, ok⟩ := Result.of_bind ok
  obtain ⟨⟨done, shut⟩, isFinished, ok⟩ := Result.of_bind ok
  obtain ⟨wide, new⟩ := DailyKlineAggregator.new_saw isNew
  have pos : 0 < durationNs := by
    unfold dailyKlineDurationNs nanosPerSecond at wide
    omega
  rw [foldlM_cons] at scanned
  obtain ⟨post, scanned, same⟩ := Result.of_bind scanned
  obtain rfl := Except.ok.inj same
  have lo : DailyReading plan durationNs (agg, []) [] := ⟨[], new, rfl⟩
  obtain ⟨pre, saw, isOutput⟩ := lo.scan pos (by simpa using incr) scanned
  rw [nil_append] at saw
  obtain ⟨bars, bkt, emp, ends⟩ := saw.finishClosedThrough isFinished
  refine ⟨pos, bars, bkt, emp, ?_⟩
  rw [emitClosed_eq_ok ok, isOutput, ← filter_append]
  rcases ends with rfl | ⟨cur, rfl, rfl, late⟩
  · rfl
  · have drop : emitsDaily plan durationNs cur = false :=
      decide_eq_false fun inTime => absurd inTime.2.2 (by omega)
    rw [Option.toList_none, append_nil, filter_append, filter_singleton, drop]
    simp

end Read

/-! ## Plans -/

/-- Only requests of up to a minute may be provisional. -/
theorem daily_final {req : ValidatedBacktestHistoryRequest}
    (daily : classifyRequest req = .ok .canonicalDaily)
    (may : validateSourcePolicy req = .ok ()) : req.provisionalAsOfNs = none := by
  unfold validateSourcePolicy at may
  rw [daily, Result.ok_bind] at may
  split at may
  · cases may
  · rename_i notBoth
    by_contra isSome
    refine notBoth ⟨Option.isSome_iff_ne_none.mpr isSome, by decide, fun mn => ?_⟩
    unfold classifyRequest at daily
    rw [mn] at daily
    revert daily
    decide

theorem planRequest_daily {parse : String → Except String Int} {c : CacheMetadata}
    {req : ValidatedBacktestHistoryRequest} {plan : PlannedBacktestHistoryRequest}
    (daily : classifyRequest req = .ok .canonicalDaily)
    (planned : planRequest parse c req = .ok plan) :
    plan.durationNs = req.durationNs ∧
      plan.requestedRange = (req.startNs, req.endNs) ∧
      plan.effectiveEndNs = req.endNs ∧
      plan.sourceSlices = [⟨req.symbol, (req.startNs, req.endNs), 0⟩] := by
  obtain ⟨_, may, ok⟩ := Result.of_bind planned
  have fin := effectiveEndNs_final (daily_final daily may)
  obtain ⟨base, classified, ok⟩ := Result.of_bind ok
  obtain rfl := Except.ok.inj (classified.symm.trans daily)
  split at ok
  · cases ok
  obtain ⟨_, -, ok⟩ := Result.of_bind ok
  obtain ⟨_, -, ok⟩ := Result.of_bind ok
  split at ok
  · cases ok
  obtain ⟨_, -, ok⟩ := Result.of_bind ok
  dsimp only at ok
  split at ok
  · cases ok
  obtain ⟨slcs, cuts, ok⟩ := Result.of_bind ok
  obtain ⟨⟨hull, emp, rem⟩, done, ok⟩ := Result.of_bind ok
  obtain rfl := Except.ok.inj cuts
  obtain ⟨rfl, tail⟩ := Prod.mk.inj (Except.ok.inj done)
  obtain ⟨rfl, rfl⟩ := Prod.mk.inj tail
  obtain rfl := Except.ok.inj ok
  exact ⟨rfl, rfl, fin, congrArg (fun stop =>
    [(⟨req.symbol, (req.startNs, stop), 0⟩ : PlannedSourceSlice)]) fin⟩

/-! ## Reads of a series -/

/-- A read of bars of several days that returned: the request was planned, the scan of the slice
delivered the rows of the series that are in it, in any chunks, and the plan was executed. -/
structure MultiDayRead (series : List Kline) (durationNs startNs endNs : Int) where
  parseDate : String → Except String Int
  cache : CacheMetadata
  request : ValidatedBacktestHistoryRequest
  plan : PlannedBacktestHistoryRequest
  source : PlannedSourceSlice → List DailyScanMessage
  emitted : List Kline
  range : (request.startNs, request.endNs) = (startNs, endNs)
  isDuration : request.durationNs = some durationNs
  daily : classifyRequest request = .ok .canonicalDaily
  multiDay : durationNs ≠ dailyKlineDurationNs
  planned : planRequest parseDate cache request = .ok plan
  delivered : rowsIn (startNs, endNs)
      (scannedRows (source ⟨request.symbol, (startNs, endNs), 0⟩)) =
    rowsIn (startNs, endNs) series
  executed : executeDailyPlan plan source = .ok emitted

namespace MultiDayRead

variable {series : List Kline} {durationNs startNs endNs : Int}

theorem mem_rowsIn {rng : Int × Int} {rows : List Kline} {row : Kline} :
    row ∈ rowsIn rng rows ↔ row ∈ rows ∧ rng.1 ≤ row.datetime ∧ row.datetime < rng.2 := by
  unfold rowsIn
  rw [mem_filter, decide_eq_true_eq]

theorem bucketRows_eq {origin lo : Int} (pos : 0 < durationNs)
    (onGrid : durationNs ∣ lo - origin) (rows : List Kline) :
    bucketRows durationNs origin lo rows = rowsIn (lo, lo + durationNs) rows :=
  filter_congr fun _ _ => decide_eq_decide.mpr (dailyBucket_eq_iff pos onGrid)

variable {bar : Kline}

theorem startNs_le {rows bars : List Kline} {hd : Kline} (pos : 0 < durationNs)
    (srt : DailySeries (rowsIn (startNs, endNs) rows))
    (isFirst : (rowsIn (startNs, endNs) rows).head? = some hd)
    (bkt : Bucketed durationNs hd.datetime (rowsIn (startNs, endNs) rows) bars)
    (mem : bar ∈ bars) : startNs ≤ bar.datetime := by
  obtain ⟨row, seen, isBucket⟩ := (bkt.starts bar.datetime).mp ⟨bar, mem, rfl⟩
  have firstIn := (mem_rowsIn.mp (mem_of_head? isFirst)).2
  have firstLe : hd.datetime ≤ row.datetime := by
    obtain ⟨rest, split⟩ := head?_eq_some_iff.mp isFirst
    rw [split] at seen srt
    rcases mem_cons.mp seen with rfl | later
    · exact le_refl _
    · exact le_of_lt (rel_of_pairwise_cons srt later)
  have post := origin_le_dailyBucket pos firstLe
  rw [isBucket] at post
  exact firstIn.1.trans post

/-- What a read makes of the rows in its range: bars of all their buckets, of which it emits those
that end in it. -/
theorem bars (read : MultiDayRead series durationNs startNs endNs) (incr : DailySeries series) :
    0 < durationNs ∧ ∃ bars,
      (∀ hd ∈ (rowsIn (startNs, endNs) series).head?,
        Bucketed durationNs hd.datetime (rowsIn (startNs, endNs) series) bars) ∧
      (rowsIn (startNs, endNs) series = [] → bars = []) ∧
      read.emitted = bars.filter fun bar => decide (bar.datetime + durationNs ≤ endNs) := by
  obtain ⟨parse, c, req, plan, src, emitted, rng, isDuration, daily, multiDay,
    planned, delivered, executed⟩ := read
  obtain ⟨rfl, rfl⟩ := Prod.mk.inj rng
  obtain ⟨sameDur, asked, effective, slcs⟩ := planRequest_daily daily planned
  rw [isDuration] at sameDur
  have srt : DailySeries (rowsIn (req.startNs, req.endNs) series) := List.Pairwise.filter _ incr
  obtain ⟨pos, bars, bkt, emp, rfl⟩ :=
    executeDailyPlan_bars sameDur multiDay slcs (by rw [delivered]; exact srt) executed
  rw [delivered] at bkt emp
  refine ⟨pos, bars, bkt, emp, filter_congr fun bar mem => ?_⟩
  unfold emitsDaily
  rw [asked, effective]
  refine decide_eq_decide.mpr ⟨fun inn => inn.2.2, fun inTime => ⟨?_, by omega, inTime⟩⟩
  cases fst : (rowsIn (req.startNs, req.endNs) series).head? with
  | none =>
    rw [emp (head?_eq_none_iff.mp fst)] at mem
    cases mem
  | some hd => exact startNs_le pos srt fst (bkt hd fst) mem

theorem rowsIn_rowsIn {rng inner : Int × Int} (lo : rng.1 ≤ inner.1)
    (stop : inner.2 ≤ rng.2) (rows : List Kline) :
    rowsIn inner (rowsIn rng rows) = rowsIn inner rows := by
  unfold rowsIn
  rw [filter_filter]
  refine filter_congr fun row _ => ?_
  rw [← Bool.decide_and]
  exact decide_eq_decide.mpr ⟨fun both => both.1, fun mem => ⟨mem, by omega, by omega⟩⟩

theorem dailyBar_eq_some {lo : Int} {rows : List Kline} (made : dailyBar lo rows = some bar) :
    rows ≠ [] := by
  rintro rfl
  cases made

variable (read : MultiDayRead series durationNs startNs endNs)

/-- A bar is emitted when it lies on the grid of the first row read, ends in the range, and is
made of all rows of the series in its span. -/
theorem mem_emitted (incr : DailySeries series) (bar : Kline) :
    bar ∈ read.emitted ↔ startNs ≤ bar.datetime ∧ bar.datetime + durationNs ≤ endNs ∧
      (∀ hd ∈ (rowsIn (startNs, endNs) series).head?, durationNs ∣ bar.datetime - hd.datetime) ∧
      dailyBar bar.datetime (rowsIn (bar.datetime, bar.datetime + durationNs) series) =
        some bar := by
  obtain ⟨pos, bars, bkt, emp, isEmitted⟩ := read.bars incr
  have srt : DailySeries (rowsIn (startNs, endNs) series) := List.Pairwise.filter _ incr
  rw [isEmitted, mem_filter, decide_eq_true_eq]
  cases fst : (rowsIn (startNs, endNs) series).head? with
  | none =>
    have none_ := head?_eq_none_iff.mp fst
    rw [emp none_]
    refine ⟨fun inn => absurd inn.1 not_mem_nil, ?_⟩
    rintro ⟨lo, stop, -, made⟩
    rw [← @rowsIn_rowsIn (startNs, endNs) (bar.datetime, bar.datetime + durationNs) lo stop,
      none_] at made
    exact absurd rfl (dailyBar_eq_some made)
  | some hd =>
    have own := bkt hd fst
    have rowsOf : startNs ≤ bar.datetime → bar.datetime + durationNs ≤ endNs →
        durationNs ∣ bar.datetime - hd.datetime →
        bucketRows durationNs hd.datetime bar.datetime (rowsIn (startNs, endNs) series) =
          rowsIn (bar.datetime, bar.datetime + durationNs) series := by
      intro lo stop onGrid
      rw [bucketRows_eq pos onGrid, rowsIn_rowsIn lo stop]
    constructor
    · rintro ⟨mem, inTime⟩
      obtain ⟨row, seen, isBucket⟩ := (own.starts bar.datetime).mp ⟨bar, mem, rfl⟩
      have lo := startNs_le pos srt fst own mem
      have onGrid : durationNs ∣ bar.datetime - hd.datetime := isBucket ▸ dvd_dailyBucket
      refine ⟨lo, inTime, fun other alt => ?_, ?_⟩
      · rw [← Option.some.inj alt]
        exact onGrid
      · rw [← rowsOf lo inTime onGrid]
        exact own.made bar mem
    · rintro ⟨lo, inTime, onGrid, made⟩
      rw [← rowsOf lo inTime (onGrid hd rfl)] at made
      obtain ⟨row, seen⟩ := exists_mem_of_ne_nil _ (dailyBar_eq_some made)
      obtain ⟨seen, isBucket⟩ := mem_filter.mp seen
      obtain ⟨bar', mem, sameStart⟩ :=
        (own.starts bar.datetime).mpr ⟨row, seen, of_decide_eq_true isBucket⟩
      have made' := own.made bar' mem
      rw [sameStart, made] at made'
      exact ⟨Option.some.inj made' ▸ mem, inTime⟩

/-- A read counts every row of its range in one bucket, makes a bar of all rows of a bucket, and
emits the bars that end in the range, each once. -/
def CountsOnce : Prop :=
  ∃ bars : List Kline,
    bars.Pairwise (fun left right => left.datetime < right.datetime) ∧
    (∀ row ∈ rowsIn (startNs, endNs) series, ∃! bar, bar ∈ bars ∧
      bar.datetime ≤ row.datetime ∧ row.datetime < bar.datetime + durationNs) ∧
    (∀ bar ∈ bars, dailyBar bar.datetime (rowsIn (bar.datetime, bar.datetime + durationNs)
      (rowsIn (startNs, endNs) series)) = some bar) ∧
    read.emitted = bars.filter fun bar => decide (bar.datetime + durationNs ≤ endNs)

theorem countsOnce (incr : DailySeries series) : read.CountsOnce := by
  obtain ⟨pos, bars, bkt, emp, isEmitted⟩ := read.bars incr
  cases fst : (rowsIn (startNs, endNs) series).head? with
  | none =>
    have none_ := head?_eq_none_iff.mp fst
    have noBars := emp none_
    subst noBars
    exact ⟨[], .nil, by rw [none_]; simp, by simp, isEmitted⟩
  | some hd =>
    have own := bkt hd fst
    have onGrid : ∀ bar ∈ bars, durationNs ∣ bar.datetime - hd.datetime := by
      intro bar mem
      obtain ⟨row, -, isBucket⟩ := (own.starts bar.datetime).mp ⟨bar, mem, rfl⟩
      exact isBucket ▸ dvd_dailyBucket
    refine ⟨bars, own.increasing, fun row seen => ?_, fun bar mem => ?_, isEmitted⟩
    · obtain ⟨bar, mem, sameStart⟩ := (own.starts _).mpr ⟨row, seen, rfl⟩
      have inSpan := @dailyBucket_le durationNs hd.datetime row.datetime pos
      rw [← sameStart] at inSpan
      refine ⟨bar, ⟨mem, inSpan⟩, ?_⟩
      rintro alt ⟨altM, otherSpan⟩
      have otherStart : dailyBucket durationNs hd.datetime row.datetime = alt.datetime :=
        (dailyBucket_eq_iff pos (onGrid alt altM)).mpr otherSpan
      have made := own.made bar mem
      have otherMade := own.made alt altM
      rw [← otherStart, ← sameStart, made] at otherMade
      exact (Option.some.inj otherMade).symm
    · rw [← bucketRows_eq pos (onGrid bar mem)]
      exact own.made bar mem

/-- A bar that one read emits is emitted by another that starts no later than it and has its first
row whole bars away. -/
theorem emitted_of_emitted {laterNs : Int} (read : MultiDayRead series durationNs startNs endNs)
    (alt : MultiDayRead series durationNs laterNs endNs) (incr : DailySeries series)
    (sep : ∀ first ∈ (rowsIn (startNs, endNs) series).head?,
      ∀ first' ∈ (rowsIn (laterNs, endNs) series).head?,
      durationNs ∣ first.datetime - first'.datetime)
    (post : laterNs ≤ bar.datetime) (emitted : bar ∈ read.emitted) : bar ∈ alt.emitted := by
  obtain ⟨lo, stop, onGrid, made⟩ := (read.mem_emitted incr bar).mp emitted
  refine (alt.mem_emitted incr bar).mpr ⟨post, stop, fun first' isFirst' => ?_, made⟩
  obtain ⟨row, inSpan⟩ := exists_mem_of_ne_nil _ (dailyBar_eq_some made)
  rw [← @rowsIn_rowsIn (startNs, endNs) (bar.datetime, bar.datetime + durationNs) lo stop] at inSpan
  have seen := (mem_rowsIn.mp inSpan).1
  cases isFirst : (rowsIn (startNs, endNs) series).head? with
  | none =>
    rw [head?_eq_none_iff.mp isFirst] at seen
    cases seen
  | some first =>
    have sum := Int.dvd_add (onGrid first isFirst) (sep first isFirst first' isFirst')
    rwa [sub_add_sub_cancel] at sum

/-- Two reads of a series with one end: bars that start together are the same, and from the later
start on the reads emit the same bars when their first rows are whole bars apart. -/
theorem agree {laterNs : Int} (read : MultiDayRead series durationNs startNs endNs)
    (other : MultiDayRead series durationNs laterNs endNs) (increasing : DailySeries series) :
    (∀ bar ∈ read.emitted, ∀ bar' ∈ other.emitted, bar.datetime = bar'.datetime → bar = bar') ∧
      ((∀ first ∈ (rowsIn (startNs, endNs) series).head?,
          ∀ first' ∈ (rowsIn (laterNs, endNs) series).head?,
          durationNs ∣ first.datetime - first'.datetime) →
        ∀ bar : Kline, max startNs laterNs ≤ bar.datetime →
          (bar ∈ read.emitted ↔ bar ∈ other.emitted)) ∧
      read.CountsOnce ∧ other.CountsOnce := by
  refine ⟨fun bar emitted bar' emitted' sameStart => ?_, fun sep bar post => ⟨?_, ?_⟩,
    read.countsOnce increasing, other.countsOnce increasing⟩
  · obtain ⟨-, -, -, made⟩ := (read.mem_emitted increasing bar).mp emitted
    obtain ⟨-, -, -, made'⟩ := (other.mem_emitted increasing bar').mp emitted'
    rw [← sameStart, made] at made'
    exact Option.some.inj made'
  · exact read.emitted_of_emitted other increasing sep (le_of_max_le_right post)
  · refine other.emitted_of_emitted read increasing (fun first' isFirst' first isFirst => ?_)
      (le_of_max_le_left post)
    rw [← Int.dvd_neg, neg_sub]
    exact sep first isFirst first' isFirst'

/-! ## Reads a day apart -/

def dayRow (day : Int) : Kline :=
  ⟨0, day * dailyKlineDurationNs, .finite 1, .finite 1, .finite 1, .finite 1, 1, 0, 0, none⟩

/-- A series of four days. -/
def fourDays : List Kline := [dayRow 0, dayRow 1, dayRow 2, dayRow 3]

def twoDayRequest (day : Int) : ValidatedBacktestHistoryRequest :=
  ⟨1, "SHFE.rb2610", .kline 172800000000000, some (2 * dailyKlineDurationNs),
    day * dailyKlineDurationNs, 4 * dailyKlineDurationNs, none⟩

/-- The plan of a read of two-day bars from a day on, in a cache without metadata. -/
def twoDayPlan (day : Int) : Except DataError PlannedBacktestHistoryRequest :=
  planRequest (fun _ => .error "") .empty (twoDayRequest day)

/-- The bar of two of the days. -/
def twoDayBar (day : Int) : Kline :=
  ⟨day * dailyKlineDurationNs, day * dailyKlineDurationNs, .finite 1, .finite 1, .finite 1,
    .finite 1, 2, 0, 0, none⟩

theorem exists_twoDayRead {day : Int} {bars : List Kline}
    (ran : (twoDayPlan day >>= fun plan => executeDailyPlan plan fun _ => [.chunk fourDays]) =
      .ok bars) (daily : classifyRequest (twoDayRequest day) = .ok .canonicalDaily) :
    ∃ read : MultiDayRead fourDays (2 * dailyKlineDurationNs) (day * dailyKlineDurationNs)
      (4 * dailyKlineDurationNs), read.emitted = bars := by
  obtain ⟨plan, planned, exec⟩ := Result.of_bind ran
  exact ⟨⟨_, _, twoDayRequest day, plan, fun _ => [.chunk fourDays], bars, rfl, rfl, daily,
    by decide, planned, by simp [scannedRows], exec⟩, rfl⟩

/-- From the first day on two bars are made, from the second on one, of other days. -/
theorem not_agree_dayLater :
    ∃ (read : MultiDayRead fourDays (2 * dailyKlineDurationNs) (0 * dailyKlineDurationNs)
        (4 * dailyKlineDurationNs))
      (other : MultiDayRead fourDays (2 * dailyKlineDurationNs) (1 * dailyKlineDurationNs)
        (4 * dailyKlineDurationNs)),
      max (0 * dailyKlineDurationNs) (1 * dailyKlineDurationNs) ≤ (twoDayBar 2).datetime ∧
        twoDayBar 2 ∈ read.emitted ∧ twoDayBar 2 ∉ other.emitted := by
  obtain ⟨read, emitted⟩ := @exists_twoDayRead 0 [twoDayBar 0, twoDayBar 2]
    (by decide +kernel) (by decide +kernel)
  obtain ⟨other, otherEmitted⟩ := @exists_twoDayRead 1 [twoDayBar 1]
    (by decide +kernel) (by decide +kernel)
  refine ⟨read, other, by decide, ?_, ?_⟩
  · rw [emitted]
    decide +kernel
  · rw [otherEmitted]
    decide +kernel

theorem agree_twoDaysLater :
    ∃ (read : MultiDayRead fourDays (2 * dailyKlineDurationNs) (0 * dailyKlineDurationNs)
        (4 * dailyKlineDurationNs))
      (other : MultiDayRead fourDays (2 * dailyKlineDurationNs) (2 * dailyKlineDurationNs)
        (4 * dailyKlineDurationNs)),
      twoDayBar 2 ∈ read.emitted ↔ twoDayBar 2 ∈ other.emitted := by
  obtain ⟨read, -⟩ := @exists_twoDayRead 0 [twoDayBar 0, twoDayBar 2]
    (by decide +kernel) (by decide +kernel)
  obtain ⟨other, -⟩ := @exists_twoDayRead 2 [twoDayBar 2] (by decide +kernel) (by decide +kernel)
  have incr : DailySeries fourDays := by
    unfold DailySeries
    decide
  refine ⟨read, other, (read.agree other incr).2.1 ?_ (twoDayBar 2) (by decide)⟩
  have first : (rowsIn (0 * dailyKlineDurationNs, 4 * dailyKlineDurationNs) fourDays).head? =
      some (dayRow 0) := by decide +kernel
  have first' : (rowsIn (2 * dailyKlineDurationNs, 4 * dailyKlineDurationNs) fourDays).head? =
      some (dayRow 2) := by decide +kernel
  rw [first, first']
  intro left isLeft right isRight
  rw [← Option.some.inj isLeft, ← Option.some.inj isRight]
  decide

end MultiDayRead

end Tqsdk
