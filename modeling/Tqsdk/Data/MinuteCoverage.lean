import Tqsdk.Data.MinuteCheckpoint
import Tqsdk.Data.Session

/-!
# What reads a minute checkpoint

The three places that take the interval of a provisional checkpoint for covered time:
`missing_ranges` of a canonical-minute fill, `open_history_query_reader`, and
`finalize_provisional_after_session_close`, which turns it into final coverage.
-/

namespace Tqsdk

open List

/-! ## Final coverage -/

def mergeRanges (ranges : List (Int × Int)) : List (Int × Int) :=
  Ranges.coalesce (Ranges.sort (ranges.filter fun range => decide (range.1 < range.2)))

def intersectRanges (left right : Int × Int) : Option (Int × Int) :=
  let start := max left.1 right.1
  let stop := min left.2 right.2
  if start < stop then some (start, stop) else none

structure MinuteKlineCoverage where
  cachedRanges : List (Int × Int)
  missingRanges : List (Int × Int)
  deriving DecidableEq

/-- `coverage`, over the final coverage that the monthly files of the symbol hold. -/
def minuteCoverage (final : List (Int × Int)) (startNs endNs : Int) : MinuteKlineCoverage :=
  let cached := mergeRanges (final.filterMap fun range => intersectRanges range (startNs, endNs))
  ⟨cached, Ranges.gaps startNs endNs cached⟩

def MinuteKlineCoverage.isComplete (coverage : MinuteKlineCoverage) : Bool :=
  coverage.missingRanges.isEmpty

variable {day : Int} {session : KlineSessionTemplate} {ranges : List (Int × Int)}

theorem covers_mergeRanges {instant : Int} :
    Ranges.Covers (mergeRanges ranges) instant ↔ Ranges.Covers ranges instant := by
  unfold mergeRanges
  rw [Ranges.covers_coalesce_sort]
  constructor
  · exact Ranges.Covers.of_subset fun rng mem => (mem_filter.mp mem).1
  · rintro ⟨rng, mem, start, stop⟩
    exact ⟨rng, mem_filter.mpr ⟨mem, by simpa using start.trans_lt stop⟩, start, stop⟩

theorem normal_mergeRanges (ranges : List (Int × Int)) : Ranges.Normal (mergeRanges ranges) :=
  Ranges.normal_coalesce_sort fun _ mem => of_decide_eq_true (mem_filter.mp mem).2

theorem covers_intersections {bds : Int × Int} {instant : Int} :
    Ranges.Covers (ranges.filterMap fun rng => intersectRanges rng bds) instant ↔
      Ranges.Covers ranges instant ∧ bds.1 ≤ instant ∧ instant < bds.2 := by
  unfold Ranges.Covers intersectRanges
  simp only [mem_filterMap]
  constructor
  · rintro ⟨part, ⟨rng, mem, isPart⟩, start, stop⟩
    split_ifs at isPart
    obtain rfl := Option.some.inj isPart
    simp only [max_le_iff, lt_min_iff] at start stop
    exact ⟨⟨rng, mem, start.1, stop.1⟩, start.2, stop.2⟩
  · rintro ⟨⟨rng, mem, start, stop⟩, start', stop'⟩
    refine ⟨(max rng.1 bds.1, min rng.2 bds.2), ⟨rng, mem, ?_⟩, ?_, ?_⟩
    · exact if_pos ((max_le start start').trans_lt (lt_min stop stop'))
    · exact max_le start start'
    · exact lt_min stop stop'

theorem covers_cachedRanges {final : List (Int × Int)} {lo hi instant : Int} :
    Ranges.Covers (minuteCoverage final lo hi).cachedRanges instant ↔
      Ranges.Covers final instant ∧ lo ≤ instant ∧ instant < hi := by
  unfold minuteCoverage
  rw [covers_mergeRanges, covers_intersections]

/-- Every instant of a request is cached or missing. -/
theorem covers_missingRanges {final : List (Int × Int)} {lo hi instant : Int} :
    Ranges.Covers (minuteCoverage final lo hi).missingRanges instant ↔
      (lo ≤ instant ∧ instant < hi) ∧ ¬ Ranges.Covers final instant := by
  have cached := @covers_cachedRanges final lo hi instant
  unfold minuteCoverage at cached ⊢
  dsimp only at cached ⊢
  rw [Ranges.covers_gaps (normal_mergeRanges _).sorted, cached]
  exact and_congr_right fun mem => not_congr ⟨fun both => both.1, fun cov => ⟨cov, mem⟩⟩

/-! ## The ranges a fill still has to fetch -/

/-- The loop of `subtract_ranges` of `fill.rs`. -/
def uncovered (cursor stop : Int) : List (Int × Int) → List (Int × Int)
  | [] => if cursor < stop then [(cursor, stop)] else []
  | range :: rest =>
    (if cursor < range.1 then [(cursor, range.1)] else []) ++
      uncovered (max cursor range.2) stop rest

def subtractRanges (request : Int × Int) (covered : List (Int × Int)) : List (Int × Int) :=
  uncovered request.1 request.2
    (Ranges.sort (covered.filterMap fun range => intersectRanges request range))

/-- `provisional_checkpoint`. -/
def provisionalCheckpoint (slot : ProvisionalSlot) (existing : Option ProvisionalFile)
    (symbol : String) (snapshot : MinuteKlineCacheSnapshot) :
    Except DataError (Option ProvisionalFile) := do
  validateSymbol symbol
  snapshot.validate
  match existing with
  | none => return none
  | some file =>
    validateProvisionalIdentity slot file.metadata symbol snapshot
    return some file

/-- `missing_ranges` of a canonical-minute fill. -/
def missingMinuteRanges (slot : ProvisionalSlot) (existing : Option ProvisionalFile)
    (final : List (Int × Int)) (symbol : String) (snapshot : MinuteKlineCacheSnapshot)
    (request : Int × Int) (provisionalAsOfNs : Option Int) :
    Except DataError (List (Int × Int)) := do
  let cached := (minuteCoverage final request.1 request.2).cachedRanges
  match provisionalAsOfNs with
  | none => return subtractRanges request cached
  | some asOfNs =>
    match ← provisionalCheckpoint slot existing symbol snapshot with
    | some file =>
      if asOfNs ≤ file.metadata.asOfNs then
        return subtractRanges request
          (cached ++ [(file.metadata.rangeStartNs, file.metadata.rangeEndNs)])
      else return subtractRanges request cached
    | none => return subtractRanges request cached

/-- Ranges that are sorted and clipped leave exactly what they do not cover. -/
theorem covers_uncovered {cur stop instant : Int}
    (srt : ranges.Pairwise fun left right => left.1 ≤ right.1)
    (inn : ∀ rng ∈ ranges, rng.1 < rng.2 ∧ rng.2 ≤ stop) :
    Ranges.Covers (uncovered cur stop ranges) instant ↔
      (cur ≤ instant ∧ instant < stop) ∧ ¬ Ranges.Covers ranges instant := by
  induction ranges generalizing cur with
  | nil =>
    unfold uncovered
    split
    · simp
    · rename_i emp
      simp only [Ranges.covers_nil, not_false_eq_true, and_true, false_iff]
      omega
  | cons rng ranges ih =>
    obtain ⟨ne, lt⟩ := inn rng mem_cons_self
    have post : Ranges.Covers ranges instant → rng.1 ≤ instant := by
      rintro ⟨alt, mem, start, -⟩
      exact (rel_of_pairwise_cons srt mem).trans start
    have hd : Ranges.Covers (if cur < rng.1 then [(cur, rng.1)] else []) instant ↔
        cur ≤ instant ∧ instant < rng.1 := by
      split
      · simp
      · simp only [Ranges.covers_nil, false_iff]
        omega
    unfold uncovered
    rw [Ranges.covers_append, Ranges.covers_cons, hd, ih srt.of_cons
      fun alt mem => inn alt (mem_cons_of_mem _ mem)]
    grind

theorem covers_subtractRanges {req : Int × Int} {cov : List (Int × Int)} {instant : Int} :
    Ranges.Covers (subtractRanges req cov) instant ↔
      (req.1 ≤ instant ∧ instant < req.2) ∧ ¬ Ranges.Covers cov instant := by
  have flipped : (cov.filterMap fun rng => intersectRanges req rng) =
      cov.filterMap fun rng => intersectRanges rng req := by
    refine filterMap_congr fun rng _ => ?_
    unfold intersectRanges
    rw [max_comm, min_comm]
  unfold subtractRanges
  rw [covers_uncovered (Ranges.sorted_sort _), Ranges.covers_sort, flipped, covers_intersections]
  · exact and_congr_right fun inn => not_congr ⟨fun both => both.1, fun cov => ⟨cov, inn⟩⟩
  · intro rng mem
    obtain ⟨src, -, isPart⟩ := mem_filterMap.mp (Ranges.mem_sort.mp mem)
    unfold intersectRanges at isPart
    dsimp only at isPart
    split_ifs at isPart with ne
    obtain rfl := Option.some.inj isPart
    exact ⟨ne, min_le_left _ _⟩

/-! ## Reading history -/

/-- The segments of a `MinuteKlineHistoryReader` with the ranges they were opened for. -/
inductive MinuteKlineHistorySegment
  | final (startNs endNs : Int)
  | provisional (startNs endNs : Int) (rows : List Kline)
  deriving DecidableEq

def MinuteKlineHistorySegment.startNs : MinuteKlineHistorySegment → Int
  | .final startNs _ => startNs
  | .provisional startNs _ _ => startNs

def openReader (final : List (Int × Int)) (startNs endNs : Int) :
    Except DataError MinuteKlineHistorySegment :=
  if (minuteCoverage final startNs endNs).isComplete then .ok (.final startNs endNs)
  else .error (.invalidState "minute kline cache coverage is incomplete")

/-- The turn of the loop over the missing ranges. -/
def provisionalSegment (file : ProvisionalFile) (range : Int × Int) :
    Except DataError MinuteKlineHistorySegment :=
  if range.1 < file.metadata.rangeStartNs ∨ file.metadata.rangeEndNs < range.2 then
    .error (.invalidState
      "minute kline final and provisional coverage do not cover the requested view")
  else
    .ok (.provisional range.1 range.2
      (file.rows.filter fun row => decide (range.1 ≤ row.datetime ∧ row.datetime < range.2)))

def openHistoryQueryReader (slot : ProvisionalSlot) (existing : Option ProvisionalFile)
    (final : List (Int × Int)) (symbol : String) (startNs endNs : Int)
    (snapshot : MinuteKlineCacheSnapshot) (provisionalAsOfNs : Option Int) :
    Except DataError (List MinuteKlineHistorySegment) := do
  match provisionalAsOfNs with
  | none => return [← openReader final startNs endNs]
  | some asOfNs =>
    let status := minuteCoverage final startNs endNs
    if status.isComplete then return [← openReader final startNs endNs]
    else
      let provisionalDay ← tradingDayRange (tradingDayForTimestampNs asOfNs)
      if endNs ≤ provisionalDay.startNs then return [← openReader final startNs endNs]
      else
        match existing with
        | none => .error (.invalidState "minute kline provisional checkpoint is missing")
        | some file =>
          validateProvisionalIdentity slot file.metadata symbol snapshot
          if file.metadata.tradingDay ≠ provisionalDay.tradingDay ∨
              file.metadata.asOfNs < asOfNs ∨ file.metadata.rangeEndNs < endNs then
            .error (.invalidState
              "minute kline provisional checkpoint is older than the requested view")
          else
            let finals ← status.cachedRanges.mapM fun range => openReader final range.1 range.2
            let provisionals ← status.missingRanges.mapM (provisionalSegment file)
            return (finals ++ provisionals).insertionSort
              fun left right => left.startNs ≤ right.startNs

/-! ## Final coverage from a checkpoint -/

/-- `finalize_provisional_after_session_close`: the coverage and the rows that are handed to the
monthly file. -/
def finalizeProvisional (slot : ProvisionalSlot) (existing : Option ProvisionalFile)
    (symbol : String) (snapshot : MinuteKlineCacheSnapshot) (session : KlineSessionTemplate)
    (nowNs graceNs : Int) : Except DataError (Option ((Int × Int) × List Kline)) := do
  slot.ensureWritable
  validateSymbol symbol
  snapshot.validate
  if graceNs < 0 then
    .error (.validation "minute kline session-close grace must not be negative")
  else if session.snapshotHash ≠ snapshot.sessionHash then
    .error (.validation "minute kline session template does not match cache snapshot")
  else
    match session.windows.getLast?, existing with
    | none, _ => return none
    | _, none => return none
    | some lastWindow, some file =>
      validateProvisionalIdentity slot file.metadata symbol snapshot
      let dayRange ← tradingDayRange (tradingDayForTimestampNs file.metadata.asOfNs)
      let sessionCloseNs ← checkedOr (dayRange.startNs + lastWindow.endOffsetNs)
        "minute kline session close timestamp overflow"
      if dayRange.endNs < sessionCloseNs then
        .error (.validation "minute kline session close exceeds canonical trading day")
      else
        let finalAfterNs ← checkedOr (sessionCloseNs + graceNs)
          "minute kline finality timestamp overflow"
        if nowNs < finalAfterNs ∨ file.metadata.completeThroughNs < sessionCloseNs then
          return none
        else return some ((file.metadata.rangeStartNs, dayRange.endNs), file.rows)

/-! ## Only fetched time is claimed -/

/-- An instant in the range of one of the calls. -/
def Fetched (accepted : List ProvisionalCall) (instant : Int) : Prop :=
  ∃ call ∈ accepted, call.rangeStartNs ≤ instant ∧ instant < call.rangeEndNs

/-- The minute that a checkpoint ends in; of this one it holds no row. -/
def InOpenMinute (file : ProvisionalFile) (instant : Int) : Prop :=
  file.metadata.completeThroughNs ≤ instant ∧
    instant < file.metadata.completeThroughNs + nanosPerMinute

theorem fetched_of_lastCovering {accepted : List ProvisionalCall} {instant : Int}
    {call : ProvisionalCall} (last : lastCovering accepted instant = some call) :
    Fetched accepted instant := by
  unfold lastCovering at last
  have mem := mem_reverse.mp (mem_of_find?_eq_some last)
  have cov := find?_some last
  exact ⟨call, mem, of_decide_eq_true cov⟩

namespace Checkpointed

variable {accepted : List ProvisionalCall} {file : ProvisionalFile} {instant : Int}

section

variable (checkpointed : Checkpointed accepted file) (start : file.metadata.rangeStartNs ≤ instant)

include checkpointed start

/-- Where a checkpoint is complete, the last call over the instant has given its row. -/
theorem lastCovering_row (less : instant < file.metadata.completeThroughNs) :
    ∃ call, lastCovering accepted instant = some call ∧
      rowAt file.rows instant = call.rowAt instant := by
  obtain ⟨call, last, mem⟩ := checkpointed.reach instant start less
  refine ⟨call, lastCovering_of_lastStarting last (mem.trans_le call.completeThroughNs_le), ?_⟩
  rw [checkpointed.rows instant, last]
  rfl

theorem fetched (less : instant < file.metadata.completeThroughNs) : Fetched accepted instant := by
  obtain ⟨call, last, -⟩ := checkpointed.lastCovering_row start less
  exact fetched_of_lastCovering last

theorem fetched_or_open (less : instant < file.metadata.rangeEndNs) :
    Fetched accepted instant ∨ InOpenMinute file instant := by
  rcases lt_or_ge instant file.metadata.completeThroughNs with mem | after
  · exact .inl (checkpointed.fetched start mem)
  · refine .inr ⟨after, ?_⟩
    rw [checkpointed.complete]
    unfold floorMinute nanosPerMinute nanosPerSecond
    omega

end

end Checkpointed

section Readers

variable {slot : ProvisionalSlot} {existing : Option ProvisionalFile} {final : List (Int × Int)}
  {symbol : String} {snapshot : MinuteKlineCacheSnapshot}

/-- What a fill does not fetch is final or in the interval of the checkpoint. -/
theorem missingMinuteRanges_complete {req : Int × Int} {asOf : Option Int} {miss : List (Int × Int)}
    (ok : missingMinuteRanges slot existing final symbol snapshot req asOf =
      .ok miss) {instant : Int} (start : req.1 ≤ instant) (stop : instant < req.2)
    (notMissing : ¬ Ranges.Covers miss instant) :
    Ranges.Covers final instant ∨ ∃ file, existing = some file ∧
      file.metadata.rangeStartNs ≤ instant ∧ instant < file.metadata.rangeEndNs := by
  have cov : ∀ cov : List (Int × Int), subtractRanges req cov = miss →
      Ranges.Covers cov instant := by
    rintro cov rfl
    by_contra outside
    exact notMissing (covers_subtractRanges.mpr ⟨⟨start, stop⟩, outside⟩)
  have final_of : Ranges.Covers (minuteCoverage final req.1 req.2).cachedRanges instant →
      Ranges.Covers final instant := fun cached => (covers_cachedRanges.mp cached).1
  unfold missingMinuteRanges at ok
  cases asOf with
  | none => exact .inl (final_of (cov _ (Except.ok.inj ok)))
  | some asOfNs =>
    obtain ⟨hit, isFound, ok⟩ := Result.of_bind ok
    cases hit with
    | none => exact .inl (final_of (cov _ (Except.ok.inj ok)))
    | some file =>
      dsimp only at ok
      split at ok
      · rcases Ranges.covers_append.mp (cov _ (Except.ok.inj ok)) with cached | inFile
        · exact .inl (final_of cached)
        · refine .inr ⟨file, ?_, by simpa using inFile⟩
          obtain ⟨_, -, isFound⟩ := Result.of_bind isFound
          obtain ⟨_, -, isFound⟩ := Result.of_bind isFound
          cases existing with
          | none => cases Except.ok.inj isFound
          | some existing =>
            obtain ⟨_, -, isFound⟩ := Result.of_bind isFound
            rw [Except.ok.inj isFound]
      · exact .inl (final_of (cov _ (Except.ok.inj ok)))

theorem openReader_complete {lo hi : Int} {seg : MinuteKlineHistorySegment}
    (ok : openReader final lo hi = .ok seg) {instant : Int}
    (start : lo ≤ instant) (stop : instant < hi) : Ranges.Covers final instant := by
  unfold openReader at ok
  split at ok
  · rename_i full
    by_contra outside
    have miss := covers_missingRanges.mpr ⟨⟨start, stop⟩, outside⟩
    unfold MinuteKlineCoverage.isComplete at full
    rw [isEmpty_iff.mp full] at miss
    exact Ranges.covers_nil miss
  · cases ok

/-- What a history reader was opened for is final or in the interval of the checkpoint. -/
theorem openHistoryQueryReader_complete {lo hi : Int} {asOf : Option Int}
    {segs : List MinuteKlineHistorySegment}
    (ok : openHistoryQueryReader slot existing final symbol lo hi snapshot
      asOf = .ok segs) {instant : Int} (start : lo ≤ instant) (stop : instant < hi) :
    Ranges.Covers final instant ∨ ∃ file, existing = some file ∧
      file.metadata.rangeStartNs ≤ instant ∧ instant < file.metadata.rangeEndNs := by
  unfold openHistoryQueryReader at ok
  cases asOf with
  | none =>
    obtain ⟨_, opn, -⟩ := Result.of_bind ok
    exact .inl (openReader_complete opn start stop)
  | some asOfNs =>
    dsimp only at ok
    split at ok
    · obtain ⟨_, opn, -⟩ := Result.of_bind ok
      exact .inl (openReader_complete opn start stop)
    · obtain ⟨day, -, ok⟩ := Result.of_bind ok
      split at ok
      · obtain ⟨_, opn, -⟩ := Result.of_bind ok
        exact .inl (openReader_complete opn start stop)
      · cases existing with
        | none => cases ok
        | some file =>
          obtain ⟨_, -, ok⟩ := Result.of_bind ok
          split at ok
          · cases ok
          · obtain ⟨_, -, ok⟩ := Result.of_bind ok
            obtain ⟨provisionals, provided, -⟩ := Result.of_bind ok
            by_cases cov : Ranges.Covers final instant
            · exact .inl cov
            · -- a missing range was opened on the checkpoint
              obtain ⟨rng, mem, inn⟩ := covers_missingRanges.mpr ⟨⟨start, stop⟩, cov⟩
              obtain ⟨_, -, opn⟩ := Result.mem_of_mapM provided mem
              unfold provisionalSegment at opn
              split at opn
              · cases opn
              · rename_i win
                exact .inr ⟨file, rfl, by omega, by omega⟩

end Readers

/-! ## Days and their last cycle -/

theorem tradingDayRange_eq_ok {rng : TradingDayRange} (ok : tradingDayRange day = .ok rng)
    (wday : isWeekend day = false) :
    rng.startNs = dayEndNs (previousTradingDay day) ∧ rng.endNs = dayEndNs day := by
  obtain ⟨-, -, rfl⟩ := (tradingDayRange_iff wday).mp ok
  exact ⟨rfl, rfl⟩

/-- In the last 24 hours of a trading day the cycle is these 24 hours. -/
theorem cycleStart_eq {instant : Int} (start : dayEndNs day - nanosPerDay ≤ instant)
    (stop : instant < dayEndNs day) : cycleStart instant = dayEndNs day - nanosPerDay := by
  unfold cycleStart dayEndNs cstSessionAnchorUtcNs nanosPerHour nanosPerDay nanosPerSecond at *
  omega

theorem KlineSessionTemplate.endOffset_le_last {last wnd : KlineSessionWindow}
    (isLast : session.windows.getLast? = some last) (mem : wnd ∈ session.windows) :
    wnd.endOffsetNs ≤ last.endOffsetNs := by
  obtain ⟨init, wnds⟩ := getLast?_eq_some_iff.mp isLast
  have ord := session.ordered
  have incr := session.increasing
  rw [wnds] at mem ord incr
  rcases mem_append.mp mem with prior | here
  · have pre := (pairwise_append.mp ord).2.2 wnd prior last mem_cons_self
    have post := incr last (mem_append_right _ mem_cons_self)
    omega
  · rw [mem_singleton.mp here]

/-- After the close of its last window no instant of the last cycle is in a session. -/
theorem KlineSessionTemplate.locate_after_close {last : KlineSessionWindow} {instant : Int}
    (isLast : session.windows.getLast? = some last)
    (shut : dayEndNs day - nanosPerDay + last.endOffsetNs ≤ instant)
    (stop : instant < dayEndNs day) (at_ : KlineSessionPosition) :
    session.locate instant ≠ .ok (some at_) := by
  intro loc
  obtain ⟨⟨lo, hi⟩, bnds, loc⟩ := Result.of_bind loc
  obtain ⟨rfl, rfl⟩ := Prod.mk.inj (canonicalSessionCycleBounds_eq_ok bnds)
  have lastMem := mem_of_getLast? isLast
  dsimp only at loc
  rw [if_neg (by rw [List.isEmpty_iff]; exact ne_nil_of_mem lastMem)] at loc
  obtain ⟨wnd, mem, -, windowEnd, -, -, -, inn, -⟩ := locateWindow_inside loc
  have ord := session.endOffset_le_last isLast mem
  have pos := session.increasing last lastMem
  rw [windowEnd, cycleStart_eq (by omega) stop] at inn
  omega

/-- The session that a checkpoint is finalized for closes in the 24 hours after the start of its
trading day: the day does not follow a weekend, or the checkpoint reaches the close in the last
24 hours of the day. -/
def ClosesInLastCycle (file : ProvisionalFile) (session : KlineSessionTemplate) : Prop :=
  isWeekend (tradingDayForTimestampNs file.metadata.asOfNs - 1) = false ∨
    ∀ window ∈ session.windows,
      dayEndNs (tradingDayForTimestampNs file.metadata.asOfNs) - nanosPerDay +
        window.endOffsetNs ≤ file.metadata.completeThroughNs

section

variable {slot : ProvisionalSlot} {existing : Option ProvisionalFile} {symbol : String}
  {snapshot : MinuteKlineCacheSnapshot}

theorem finalizeProvisional_eq {session : KlineSessionTemplate} {nowNs graceNs : Int}
    {cov : Int × Int} {rows : List Kline}
    (ok : finalizeProvisional slot existing symbol snapshot session nowNs graceNs =
      .ok (some (cov, rows))) :
    ∃ file last, existing = some file ∧ session.windows.getLast? = some last ∧
      cov = (file.metadata.rangeStartNs, dayEndNs (tradingDayForTimestampNs file.metadata.asOfNs)) ∧
      rows = file.rows ∧
      dayEndNs (previousTradingDay (tradingDayForTimestampNs file.metadata.asOfNs)) +
        last.endOffsetNs ≤ file.metadata.completeThroughNs := by
  obtain ⟨_, -, ok⟩ := Result.of_bind ok
  obtain ⟨_, -, ok⟩ := Result.of_bind ok
  obtain ⟨_, -, ok⟩ := Result.of_bind ok
  split_ifs at ok
  cases fin : session.windows.getLast? with
  | none => rw [fin] at ok; cases Except.ok.inj ok
  | some last =>
    cases existing with
    | none => rw [fin] at ok; cases Except.ok.inj ok
    | some file =>
      rw [fin] at ok
      obtain ⟨_, -, ok⟩ := Result.of_bind ok
      obtain ⟨dayRange, isRange, ok⟩ := Result.of_bind ok
      obtain ⟨closeNs, isClose, ok⟩ := Result.of_bind ok
      obtain ⟨rfl, -⟩ := checkedOr_eq_ok isClose
      obtain ⟨start, stop⟩ := tradingDayRange_eq_ok isRange
        (not_isWeekend_tradingDayForTimestampNs _)
      split_ifs at ok
      obtain ⟨_, -, ok⟩ := Result.of_bind ok
      split_ifs at ok with notYet
      · cases Except.ok.inj ok
      · obtain ⟨rfl, rfl⟩ := Prod.mk.inj (Option.some.inj (Except.ok.inj ok))
        refine ⟨file, last, rfl, rfl, by rw [stop], rfl, ?_⟩
        rw [start] at notYet
        omega

/-- Final coverage made from a checkpoint holds fetched time and time without a session. -/
theorem finalizeProvisional_complete {nowNs graceNs : Int} {cov : Int × Int}
    {rows : List Kline} {accepted : List ProvisionalCall}
    (ok : finalizeProvisional slot existing symbol snapshot session nowNs graceNs =
      .ok (some (cov, rows)))
    (checkpointed : ∀ file, existing = some file → Checkpointed accepted file)
    (shuts : ∀ file, existing = some file → ClosesInLastCycle file session) {instant : Int}
    (start : cov.1 ≤ instant) (stop : instant < cov.2) :
    Fetched accepted instant ∨
      ∀ at_, session.locate instant ≠ .ok (some at_) := by
  obtain ⟨file, last, rfl, fin, rfl, -, full⟩ := finalizeProvisional_eq ok
  rcases lt_or_ge instant file.metadata.completeThroughNs with mem | after
  · exact .inl ((checkpointed file rfl).fetched start mem)
  · refine .inr (session.locate_after_close fin (le_trans ?_ after) stop)
    rcases shuts file rfl with notMonday | reaches
    · have prev : previousTradingDay (tradingDayForTimestampNs file.metadata.asOfNs) =
          tradingDayForTimestampNs file.metadata.asOfNs - 1 := by
        unfold previousTradingDay
        rw [notMonday]
        rfl
      rw [prev] at full
      refine le_trans (le_of_eq ?_) full
      unfold dayEndNs nanosPerDay nanosPerHour nanosPerSecond
      omega
    · exact reaches last (mem_of_getLast? fin)

end

/-! ## Runs -/

theorem CheckpointState.Sound.checkpointed {st : CheckpointState} (snd : st.Sound day)
    {file : ProvisionalFile} (isFile : st.file = some file)
    (ofDay : file.metadata.tradingDay = day) : Checkpointed st.accepted file := by
  rcases snd with ⟨otherDay, -⟩ | ⟨file', isFile', -, checkpointed⟩
  · exact absurd ofDay (otherDay file isFile)
  · rw [isFile] at isFile'
    obtain rfl := Option.some.inj isFile'
    exact checkpointed

/-- Over every run whose calls go on with the stored checkpoint: the last accepted call over an
instant that the checkpoint is complete for has given its row, later checkpoints are not older,
and what a fill, a reader and the finalizer take for covered was fetched. -/
theorem CheckpointState.claims_only_fetched (slot : ProvisionalSlot) (day : Int)
    (start state : CheckpointState)
    (fresh : ∀ file, start.file = some file → file.metadata.tradingDay ≠ day)
    (noCalls : start.accepted = [])
    (run : Relation.ReflTransGen (SafeStep slot day) start state) (file : ProvisionalFile)
    (isFile : state.file = some file) (ofDay : file.metadata.tradingDay = day) :
    (∀ instant, file.metadata.rangeStartNs ≤ instant →
      instant < file.metadata.completeThroughNs →
      ∃ call, lastCovering state.accepted instant = some call ∧
        rowAt file.rows instant = call.rowAt instant) ∧
    (∀ later, Relation.ReflTransGen (SafeStep slot day) state later →
      ∃ file', later.file = some file' ∧ file'.metadata.tradingDay = day ∧
        file.metadata.asOfNs ≤ file'.metadata.asOfNs ∧
        file.metadata.completeThroughNs ≤ file'.metadata.completeThroughNs) ∧
    (∀ final symbol snapshot request provisionalAsOfNs missing,
      missingMinuteRanges slot state.file final symbol snapshot request provisionalAsOfNs =
        .ok missing →
      ∀ instant, request.1 ≤ instant → instant < request.2 → ¬ Ranges.Covers missing instant →
        Ranges.Covers final instant ∨ Fetched state.accepted instant ∨
          InOpenMinute file instant) ∧
    (∀ final symbol startNs endNs snapshot provisionalAsOfNs segments,
      openHistoryQueryReader slot state.file final symbol startNs endNs snapshot
        provisionalAsOfNs = .ok segments →
      ∀ instant, startNs ≤ instant → instant < endNs →
        Ranges.Covers final instant ∨ Fetched state.accepted instant ∨
          InOpenMinute file instant) ∧
    (∀ symbol snapshot session nowNs graceNs coverage rows,
      ClosesInLastCycle file session →
      finalizeProvisional slot state.file symbol snapshot session nowNs graceNs =
        .ok (some (coverage, rows)) →
      rows = file.rows ∧ ∀ instant, coverage.1 ≤ instant → instant < coverage.2 →
        Fetched state.accepted instant ∨
          ∀ position, session.locate instant ≠ .ok (some position)) := by
  have snd : state.Sound day := Sound.run (.inl ⟨fresh, noCalls⟩) run
  have checkpointed := snd.checkpointed isFile ofDay
  -- an instant of the interval of the checkpoint was fetched, or is in its open minute
  have inInterval : ∀ instant, (∃ file, state.file = some file ∧
      file.metadata.rangeStartNs ≤ instant ∧ instant < file.metadata.rangeEndNs) →
      Fetched state.accepted instant ∨ InOpenMinute file instant := by
    rintro instant ⟨file', isFile', start, stop⟩
    rw [isFile] at isFile'
    obtain rfl := Option.some.inj isFile'
    exact checkpointed.fetched_or_open start stop
  refine ⟨fun instant start lt => checkpointed.lastCovering_row start lt, ?_, ?_, ?_, ?_⟩
  · exact fun later laterRun => newer_run laterRun file isFile ofDay
  · intro final symbol snapshot request provisionalAsOfNs missing ok instant start stop notMissing
    exact (missingMinuteRanges_complete ok start stop notMissing).imp_right (inInterval instant)
  · intro final symbol startNs endNs snapshot provisionalAsOfNs segments ok instant start stop
    exact (openHistoryQueryReader_complete ok start stop).imp_right (inInterval instant)
  · intro symbol snapshot session nowNs graceNs coverage rows shuts ok
    have sameFile : ∀ file', state.file = some file' → file' = file := by
      intro file' isFile'
      rw [isFile] at isFile'
      exact (Option.some.inj isFile').symm
    constructor
    · obtain ⟨file', -, isFile', -, -, rows, -⟩ := finalizeProvisional_eq ok
      rw [rows, sameFile file' isFile']
    · intro instant start stop
      refine finalizeProvisional_complete ok ?_ ?_ start stop
      · intro file' isFile'
        rw [sameFile file' isFile']
        exact checkpointed
      · intro file' isFile'
        rw [sameFile file' isFile']
        exact shuts

/-! ## Two calls with a gap, and a checkpoint of Monday morning -/

section Morning

/-- 09:00 CST of a day. -/
def morningNs (day : Int) : Int := day * nanosPerDay + nanosPerHour

def morningSlot : ProvisionalSlot := ⟨false, "SHFE.rb2610.provisional"⟩

def morningSnapshot : MinuteKlineCacheSnapshot := ⟨1, "calendar", "session"⟩

def morningRow (datetime : Int) : Kline :=
  ⟨0, datetime, .finite 1, .finite 1, .finite 1, .finite 1, 1, 0, 0, none⟩

/-- A call for the minutes from `first` to `last` after 09:00. -/
def morningCall (day first last : Int) : ProvisionalCall where
  symbol := "SHFE.rb2610"
  rangeStartNs := morningNs day + first * nanosPerMinute
  rangeEndNs := morningNs day + last * nanosPerMinute
  asOfNs := morningNs day + last * nanosPerMinute
  snapshot := morningSnapshot
  rows := [morningRow (morningNs day + first * nanosPerMinute)]

/-- The day session, 09:00 to 15:00, counted from 18:00 of the evening before. -/
def morningSession : KlineSessionTemplate where
  snapshotHash := "session"
  windows := [⟨15 * nanosPerHour, 21 * nanosPerHour⟩]
  increasing := by decide
  ordered := by decide

def afterMorningCalls (calls : List ProvisionalCall) : CheckpointState :=
  calls.foldl (fun state call => state.store morningSlot call .none) ⟨none, []⟩

/-- Minute 0 and minute 5 of a Tuesday make a checkpoint that claims minute 2, and a fill does not
fetch it.  Of a Monday minute 0 is enough for final coverage of the whole day. -/
theorem checkpoint_claims_unfetched :
    (∃ file, (afterMorningCalls [morningCall 20662 0 1, morningCall 20662 5 6]).file = some file ∧
      file.metadata.rangeStartNs ≤ morningNs 20662 + 2 * nanosPerMinute ∧
      morningNs 20662 + 2 * nanosPerMinute < file.metadata.completeThroughNs ∧
      ¬ Fetched (afterMorningCalls [morningCall 20662 0 1, morningCall 20662 5 6]).accepted
        (morningNs 20662 + 2 * nanosPerMinute) ∧
      missingMinuteRanges morningSlot (some file) [] "SHFE.rb2610" morningSnapshot
        (morningNs 20662, morningNs 20662 + 6 * nanosPerMinute)
        (some (morningNs 20662 + 6 * nanosPerMinute)) = .ok []) ∧
    ∃ file, (afterMorningCalls [morningCall 20661 0 1]).file = some file ∧
      finalizeProvisional morningSlot (some file) "SHFE.rb2610" morningSnapshot morningSession
        (morningNs 20661 + nanosPerHour) 0 =
        .ok (some ((morningNs 20661, morningNs 20661 + 9 * nanosPerHour), file.rows)) ∧
      ¬ Fetched (afterMorningCalls [morningCall 20661 0 1]).accepted
        (morningNs 20661 + 2 * nanosPerHour) ∧
      (morningSession.locate (morningNs 20661 + 2 * nanosPerHour)).toOption.join.isSome = true := by
  unfold Fetched
  refine ⟨⟨?_, ?_, ?_⟩, ⟨?_, ?_, ?_⟩⟩
  · exact (morningCall 20662 5 6).file (morningNs 20662)
      (morningNs 20662 + 6 * nanosPerMinute)
      [(0, morningRow (morningNs 20662)), (0, morningRow (morningNs 20662 + 5 * nanosPerMinute))]
  · decide +kernel
  · decide +kernel
  · exact (morningCall 20661 0 1).file (morningNs 20661) (morningNs 20661 + nanosPerMinute)
      [(0, morningRow (morningNs 20661))]
  · decide +kernel
  · decide +kernel

/-- Two calls of a Tuesday, the second of which starts where the first is complete. -/
theorem claims_only_fetched_morning :
    rowAt [morningRow (morningNs 20662), morningRow (morningNs 20662 + nanosPerMinute)]
        (morningNs 20662 + nanosPerMinute) =
      (morningCall 20662 1 2).rowAt (morningNs 20662 + nanosPerMinute) := by
  have hd : CheckpointState.SafeStep morningSlot 20662 ⟨none, []⟩
      (afterMorningCalls [morningCall 20662 0 1]) :=
    ⟨morningCall 20662 0 1, .none, by decide, fun _ isSome => (by cases isSome), rfl⟩
  have snd : CheckpointState.SafeStep morningSlot 20662
      (afterMorningCalls [morningCall 20662 0 1])
      (afterMorningCalls [morningCall 20662 0 1, morningCall 20662 1 2]) := by
    refine ⟨morningCall 20662 1 2, .none, by decide, fun file isSome _ => .inl ?_, rfl⟩
    have isFile : (afterMorningCalls [morningCall 20662 0 1]).file =
        some ((morningCall 20662 0 1).file (morningNs 20662) (morningNs 20662 + nanosPerMinute)
          [(0, morningRow (morningNs 20662))]) := by decide +kernel
    rw [isFile] at isSome
    obtain rfl := Option.some.inj isSome
    decide
  have claims := CheckpointState.claims_only_fetched morningSlot 20662 ⟨none, []⟩ _
    (fun _ isSome => (by cases isSome)) rfl (.tail (.single hd) snd)
    ((morningCall 20662 1 2).file (morningNs 20662) (morningNs 20662 + 2 * nanosPerMinute)
      [(0, morningRow (morningNs 20662)), (0, morningRow (morningNs 20662 + nanosPerMinute))])
    (by decide +kernel) (by decide)
  obtain ⟨call, last, row⟩ := claims.1 (morningNs 20662 + nanosPerMinute) (by decide) (by decide)
  have isCall : lastCovering
      (afterMorningCalls [morningCall 20662 0 1, morningCall 20662 1 2]).accepted
      (morningNs 20662 + nanosPerMinute) = some (morningCall 20662 1 2) := by decide +kernel
  rw [isCall] at last
  obtain rfl := Option.some.inj last
  exact row

end Morning

end Tqsdk
