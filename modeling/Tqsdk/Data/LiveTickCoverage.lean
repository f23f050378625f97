import Tqsdk.Data.LiveTicks

/-!
# What live tick capture claims

The states of `LiveTickCacheWriter` against the series that its rows come from.  A segment is a
run of consecutive ids, so a range is complete up to the ticks at its two edges: where these
differ in datetime from their neighbours outside the segment, nothing is claimed that was not
written.
-/

namespace Tqsdk

open List Option

/-- The ticks of a symbol: consecutive ids, datetimes that do not decrease. -/
structure TickSeries extends TickSource where
  ordered : ∀ left ∈ rows, ∀ right ∈ rows, left.id ≤ right.id → left.datetime ≤ right.datetime
  consecutive : ∀ left ∈ rows, ∀ right ∈ rows, ∀ id, left.id ≤ id → id ≤ right.id →
    ∃ row ∈ rows, row.id = id

/-- The tick before a row, if there is one, is older. -/
def TickSeries.CleanBefore (source : TickSeries) (row : Tick) : Prop :=
  ∀ other ∈ source.rows, other.id + 1 = row.id → other.datetime < row.datetime

/-- The tick after a row, if there is one, is newer. -/
def TickSeries.CleanAfter (source : TickSeries) (row : Tick) : Prop :=
  ∀ other ∈ source.rows, other.id = row.id + 1 → row.datetime < other.datetime

/-- In a batch that is written, a row that does not follow a row of the batch or of those written
before is newer than the tick before it, and one that no row of the batch follows is older than
the tick after it. -/
def CleanEdges (source : TickSeries) (written batch : List Tick) : Prop :=
  ∀ row ∈ batch,
    ((∀ other ∈ written ++ batch, other.id + 1 ≠ row.id) → source.CleanBefore row) ∧
      ((∀ other ∈ batch, other.id ≠ row.id + 1) → source.CleanAfter row)

/-! ## Segments -/

/-- The accepted rows hold every id from that of `first` to that of `last`, and none before. -/
structure Segment (source : TickSeries) (written pending : List Tick) (first last : Tick) :
    Prop where
  first_mem : first ∈ written ++ pending
  last_mem : last ∈ written ++ pending
  between : ∀ id, first.id ≤ id → id ≤ last.id → ∃ row ∈ written ++ pending, row.id = id
  starts : ∀ row ∈ written ++ pending, row.id + 1 ≠ first.id
  clean : first ∈ written → source.CleanBefore first

/-- A commit is the range of a segment. -/
def PendingCoverageCommit.Of (commit : PendingCoverageCommit) (first last : Tick) : Prop :=
  commit.rangeStartNs = first.datetime ∧ commit.rangeEndNs = last.datetime + 1 ∧
    commit.idRange = (first.id, last.id)

/-- The segment of a commit has ended: a later row is accepted, and not the next one. -/
def Ended (written pending : List Tick) (last : Tick) : Prop :=
  (∀ row ∈ written ++ pending, row.id ≠ last.id + 1) ∧
    ∃ later ∈ written ++ pending, last.id + 1 < later.id

/-- The state of a symbol keeps up with the rows that it has accepted. -/
structure Tracks (source : TickSeries) (written : List Tick) (state : LiveTickSymbolState) :
    Prop where
  increasing : (written ++ state.pendingRows).Pairwise fun left right => left.id < right.id
  inSource : ∀ row ∈ written ++ state.pendingRows, row ∈ source.rows
  fresh : written ++ state.pendingRows = [] → state.lastSeenId = none ∧
    state.segmentStartId = none
  noCommits : state.pendingRows = [] → state.pendingCommits = []
  current : ∀ last, (written ++ state.pendingRows).getLast? = some last →
    state.lastSeenId = some last.id ∧
      ∃ first, Segment source written state.pendingRows first last ∧
        state.segmentStartId = some first.id ∧ state.segmentStartNs = some first.datetime ∧
        ∀ commit, state.pendingCommits.getLast? = some commit → commit.Of first last
  closed : ∀ commit ∈ state.pendingCommits.dropLast, ∃ first last,
    Segment source written state.pendingRows first last ∧ last ∈ state.pendingRows ∧
      commit.Of first last ∧ Ended written state.pendingRows last

theorem Tracks.default (source : TickSeries) : Tracks source [] .default where
  increasing := .nil
  inSource _ member := by cases member
  fresh _ := ⟨rfl, rfl⟩
  noCommits _ := rfl
  current _ isLast := by cases isLast
  closed _ member := by cases member

theorem le_getLast {rows : List Tick}
    (incr : rows.Pairwise fun left right => left.id < right.id) {last row : Tick}
    (isLast : rows.getLast? = some last) (mem : row ∈ rows) : row.id ≤ last.id := by
  obtain ⟨init, rfl⟩ := getLast?_eq_some_iff.mp isLast
  rcases mem_append.mp mem with pre | here
  · exact ((pairwise_append.mp incr).2.2 row pre last mem_cons_self).le
  · rw [mem_singleton.mp here]

section Append

variable {source : TickSeries} {written pending : List Tick} {first last row : Tick}

theorem Segment.starts_concat (seg : Segment source written pending first last)
    (above : ∀ alt ∈ written ++ pending, alt.id < row.id) :
    ∀ alt ∈ written ++ (pending ++ [row]), alt.id + 1 ≠ first.id := by
  intro alt mem
  rw [← append_assoc, mem_append, mem_singleton] at mem
  rcases mem with pre | rfl
  · exact seg.starts alt pre
  · have := above first seg.first_mem
    omega

theorem Segment.snoc (seg : Segment source written pending first last)
    (next : row.id = last.id + 1) (above : ∀ alt ∈ written ++ pending, alt.id < row.id) :
    Segment source written (pending ++ [row]) first row where
  first_mem := by
    rw [← append_assoc]
    exact mem_append_left _ seg.first_mem
  last_mem := by simp
  between id low high := by
    rw [← append_assoc]
    rcases Int.lt_or_le last.id id with new | old
    · exact ⟨row, by simp, by omega⟩
    · obtain ⟨alt, mem, isId⟩ := seg.between id low old
      exact ⟨alt, mem_append_left _ mem, isId⟩
  starts := seg.starts_concat above
  clean := seg.clean

theorem Segment.keep (seg : Segment source written pending first last)
    (above : ∀ alt ∈ written ++ pending, alt.id < row.id) :
    Segment source written (pending ++ [row]) first last where
  first_mem := by
    rw [← append_assoc]
    exact mem_append_left _ seg.first_mem
  last_mem := by
    rw [← append_assoc]
    exact mem_append_left _ seg.last_mem
  between id low high := by
    rw [← append_assoc]
    obtain ⟨alt, mem, isId⟩ := seg.between id low high
    exact ⟨alt, mem_append_left _ mem, isId⟩
  starts := seg.starts_concat above
  clean := seg.clean

theorem Segment.single (above : ∀ alt ∈ written ++ pending, alt.id + 1 < row.id) :
    Segment source written (pending ++ [row]) row row where
  first_mem := by simp
  last_mem := by simp
  between id low high := ⟨row, by simp, by omega⟩
  starts alt member := by
    rw [← append_assoc, mem_append, mem_singleton] at member
    rcases member with pre | rfl
    · exact (above alt pre).ne
    · omega
  clean member := absurd (above row (mem_append_left _ member)) (by omega)

theorem Ended.keep (ended : Ended written pending last)
    (above : ∀ alt ∈ written ++ pending, alt.id < row.id) :
    Ended written (pending ++ [row]) last := by
  obtain ⟨noNext, later, mem, post⟩ := ended
  unfold Ended
  rw [← append_assoc]
  refine ⟨fun alt inRows => ?_, later, mem_append_left _ mem, post⟩
  rcases mem_append.mp inRows with pre | here
  · exact noNext alt pre
  · have := above later mem
    rw [mem_singleton.mp here]
    omega

end Append

/-! ## Accepting rows -/

theorem LiveTickSymbolState.extendSegment_cases {state next : LiveTickSymbolState} {row : Tick}
    (ok : state.extendSegment row = .ok next) :
    ∃ startId lo rows,
      state.segmentStartId = some startId ∧ state.segmentStartNs = some lo ∧
      next.segmentStartId = some startId ∧ next.segmentStartNs = some lo ∧
      next.lastSeenId = some row.id ∧ next.pendingRows = state.pendingRows ++ [row] ∧
      next.pendingCommits = updatePendingCommit state.pendingCommits
        ⟨lo, row.datetime + 1, rows, (startId, row.id)⟩ := by
  unfold extendSegment at ok
  split at ok
  · cases ok
  · rename_i lo isStartNs
    split_ifs at ok with backwards
    split at ok
    · cases ok
    · rename_i hit
      obtain ⟨-, rfl⟩ := I64.checked_eq_some.mp hit
      split at ok
      · cases ok
      · rename_i startId isStartId
        obtain rfl := Except.ok.inj ok
        exact ⟨startId, lo, _, isStartId, isStartNs, isStartId, isStartNs, rfl, rfl, rfl⟩

theorem LiveTickSymbolState.getLast?_updatePendingCommit
    (commits : List PendingCoverageCommit) (commit : PendingCoverageCommit) :
    (updatePendingCommit commits commit).getLast? = some commit := by
  unfold updatePendingCommit
  split
  · split <;> exact getLast?_concat
  · rfl

section Accept

variable {source : TickSeries} {written : List Tick} {state next : LiveTickSymbolState} {row : Tick}

section

variable (tracks : Tracks source written state)

include tracks

/-- A row that was not seen comes after all accepted ones. -/
theorem Tracks.above (notSeen : state.isSeen row = false) :
    ∀ alt ∈ written ++ state.pendingRows, alt.id < row.id := by
  intro alt mem
  cases fin : (written ++ state.pendingRows).getLast? with
  | none =>
    rw [getLast?_eq_none_iff.mp fin] at mem
    cases mem
  | some last =>
    obtain ⟨seen, -⟩ := tracks.current last fin
    unfold LiveTickSymbolState.isSeen at notSeen
    rw [seen, any_some, decide_eq_false_iff_not, not_le] at notSeen
    exact (le_getLast tracks.increasing fin mem).trans_lt notSeen

theorem Tracks.contiguous_iff {last : Tick}
    (isLast : (written ++ state.pendingRows).getLast? = some last) (inSource : row ∈ source.rows)
    (notSeen : state.isSeen row = false) :
    state.isContiguous row = true ↔ row.id = last.id + 1 := by
  have above := tracks.above notSeen last (mem_of_getLast? isLast)
  have high := (source.inRange row inSource).2
  have low := (source.inRange last (tracks.inSource last (mem_of_getLast? isLast))).1
  obtain ⟨seen, -⟩ := tracks.current last isLast
  unfold LiveTickSymbolState.isContiguous
  rw [seen]
  dsimp only
  rw [I64.saturated_eq ⟨by omega, by omega⟩]
  exact decide_eq_true_iff

theorem Tracks.closed_keep (above : ∀ alt ∈ written ++ state.pendingRows, alt.id < row.id)
    {commit : PendingCoverageCommit} (mem : commit ∈ state.pendingCommits.dropLast) :
    ∃ first last, Segment source written (state.pendingRows ++ [row]) first last ∧
      last ∈ state.pendingRows ++ [row] ∧ commit.Of first last ∧
      Ended written (state.pendingRows ++ [row]) last := by
  obtain ⟨first, last, seg, lastPending, of, fin⟩ := tracks.closed commit mem
  exact ⟨first, last, seg.keep above, mem_append_left _ lastPending, of, fin.keep above⟩

/-- What holds of the state after a row, whichever segment it is in. -/
theorem Tracks.of_append (inSource : row ∈ source.rows)
    (above : ∀ alt ∈ written ++ state.pendingRows, alt.id < row.id) {first : Tick} {rows : Nat}
    (seen : next.lastSeenId = some row.id)
    (isPending : next.pendingRows = state.pendingRows ++ [row])
    (isStartId : next.segmentStartId = some first.id)
    (isStartNs : next.segmentStartNs = some first.datetime)
    (isCommits : next.pendingCommits = LiveTickSymbolState.updatePendingCommit
      state.pendingCommits ⟨first.datetime, row.datetime + 1, rows, (first.id, row.id)⟩)
    (seg : Segment source written (state.pendingRows ++ [row]) first row)
    (closed : ∀ commit ∈ next.pendingCommits.dropLast, ∃ first last,
      Segment source written (state.pendingRows ++ [row]) first last ∧
        last ∈ state.pendingRows ++ [row] ∧ commit.Of first last ∧
        Ended written (state.pendingRows ++ [row]) last) :
    Tracks source written next where
  increasing := by
    rw [isPending, ← append_assoc, pairwise_append]
    refine ⟨tracks.increasing, pairwise_singleton _ _, fun alt mem last isLast => ?_⟩
    rw [mem_singleton.mp isLast]
    exact above alt mem
  inSource alt mem := by
    rw [isPending, ← append_assoc, mem_append, mem_singleton] at mem
    rcases mem with pre | rfl
    · exact tracks.inSource alt pre
    · exact inSource
  fresh empty := by simp [isPending] at empty
  noCommits empty := by simp [isPending] at empty
  current last isLast := by
    rw [isPending, ← append_assoc, getLast?_concat] at isLast
    obtain rfl := some.inj isLast
    refine ⟨seen, first, isPending ▸ seg, isStartId, isStartNs, fun commit isCommit => ?_⟩
    rw [isCommits, LiveTickSymbolState.getLast?_updatePendingCommit] at isCommit
    obtain rfl := some.inj isCommit
    exact ⟨rfl, rfl, rfl⟩
  closed := by
    rw [isPending]
    exact closed

theorem Tracks.append (inSource : row ∈ source.rows) (notSeen : state.isSeen row = false)
    (ok : state.append row = .ok next) :
    Tracks source written next := by
  have above := tracks.above notSeen
  obtain ⟨startId, lo, rows, isId, isNs, isId', isNs', seen, pend, isCommits⟩ :=
    LiveTickSymbolState.extendSegment_cases ok
  unfold LiveTickSymbolState.openSegment at isId isNs pend isCommits
  split at isId
  · rename_i los
    rw [if_pos los] at isNs pend isCommits
    obtain rfl := some.inj isId
    obtain rfl := some.inj isNs
    change next.pendingRows = state.pendingRows ++ [row] at pend
    change next.pendingCommits = LiveTickSymbolState.updatePendingCommit state.pendingCommits
      _ at isCommits
    -- no accepted row is the one before
    have gap : ∀ alt ∈ written ++ state.pendingRows, alt.id + 1 < row.id := by
      intro alt mem
      cases isLast : (written ++ state.pendingRows).getLast? with
      | none =>
        rw [getLast?_eq_none_iff.mp isLast] at mem
        cases mem
      | some last =>
        obtain ⟨-, first, -, isStart, -⟩ := tracks.current last isLast
        have notNext : row.id ≠ last.id + 1 := by
          intro isNext
          rw [(tracks.contiguous_iff isLast inSource notSeen).mpr isNext, isStart] at los
          exact los.elim (fun absurd => by cases absurd) (fun absurd => by cases absurd)
        have := above last (mem_of_getLast? isLast)
        have := le_getLast tracks.increasing isLast mem
        omega
    refine tracks.of_append inSource above seen pend isId' isNs' isCommits (Segment.single gap) ?_
    intro commit mem
    rw [isCommits] at mem
    unfold LiveTickSymbolState.updatePendingCommit at mem
    split at mem
    · rename_i pending isLastCommit
      -- the commit of the segment before is closed now
      have some_pending : state.pendingRows ≠ [] := by
        intro emp
        rw [tracks.noCommits emp] at isLastCommit
        cases isLastCommit
      obtain ⟨last, isLast⟩ : ∃ last, state.pendingRows.getLast? = some last :=
        ⟨_, getLast?_eq_some_getLast some_pending⟩
      have isLast' : (written ++ state.pendingRows).getLast? = some last := by
        rw [getLast?_append_of_ne_nil _ some_pending, isLast]
      obtain ⟨-, first, seg, -, -, isCommit⟩ := tracks.current last isLast'
      have of := isCommit pending isLastCommit
      have pre := gap first seg.first_mem
      have ne : pending.idRange.1 ≠ row.id := by
        rw [of.2.2]
        dsimp only
        omega
      rw [if_neg ne, dropLast_concat] at mem
      obtain ⟨init, isInit⟩ := getLast?_eq_some_iff.mp isLastCommit
      rw [isInit] at mem
      rcases mem_append.mp mem with prior | here
      · refine tracks.closed_keep above ?_
        rw [isInit, dropLast_concat]
        exact prior
      · obtain rfl := mem_singleton.mp here
        have lastGap := gap last seg.last_mem
        refine ⟨first, last, seg.keep above,
          mem_append_left _ (mem_of_getLast? isLast), of, ?_, row, by simp, lastGap⟩
        intro alt inRows
        rw [← append_assoc, mem_append, mem_singleton] at inRows
        rcases inRows with old | rfl
        · have := le_getLast tracks.increasing isLast' old
          omega
        · omega
    · cases mem
  · rename_i continues
    rw [if_neg continues] at isNs pend isCommits
    obtain ⟨contiguous, isStart⟩ := not_or.mp continues
    rw [Bool.not_eq_false] at contiguous
    cases isLast : (written ++ state.pendingRows).getLast? with
    | none => exact absurd (tracks.fresh (getLast?_eq_none_iff.mp isLast)).2 isStart
    | some last =>
      obtain ⟨-, first, seg, fst, isFirstNs, isCommit⟩ := tracks.current last isLast
      have isNext := (tracks.contiguous_iff isLast inSource notSeen).mp contiguous
      rw [fst] at isId
      rw [isFirstNs] at isNs
      obtain rfl := some.inj isId
      obtain rfl := some.inj isNs
      refine tracks.of_append inSource above seen pend isId' isNs' isCommits
        (seg.snoc isNext above) ?_
      intro commit mem
      refine tracks.closed_keep above ?_
      rw [isCommits] at mem
      unfold LiveTickSymbolState.updatePendingCommit at mem
      split at mem
      · rename_i pending pend
        rwa [if_pos (by rw [(isCommit pending pend).2.2]), dropLast_concat] at mem
      · cases mem

end

theorem LiveTickSymbolState.append_lastSeenId (ok : state.append row = .ok next) :
    next.lastSeenId = some row.id ∧ next.pendingRows = state.pendingRows ++ [row] := by
  obtain ⟨_, _, _, -, -, -, -, seen, pend, -⟩ := LiveTickSymbolState.extendSegment_cases ok
  refine ⟨seen, pend.trans ?_⟩
  unfold openSegment
  split <;> rfl

/-- The loop takes the rows that were not seen before the call. -/
theorem Tracks.accept {rows : List Tick} {gap gap' : Bool} (tracks : Tracks source written state)
    (incr : rows.Pairwise fun left right => left.id < right.id)
    (inSource : ∀ row ∈ rows, row ∈ source.rows)
    (ok : LiveTickSymbolState.accept rows (state, gap) = .ok (next, gap')) :
    Tracks source written next ∧
      next.pendingRows = state.pendingRows ++ rows.filter fun row => !state.isSeen row := by
  induction rows generalizing state gap with
  | nil =>
    obtain ⟨rfl, -⟩ := Prod.mk.inj (Except.ok.inj ok)
    exact ⟨tracks, (append_nil _).symm⟩
  | cons row rest ih =>
    have inRest : ∀ row ∈ rest, row ∈ source.rows :=
      fun alt mem => inSource alt (mem_cons_of_mem _ mem)
    unfold LiveTickSymbolState.accept at ok
    split at ok
    · rename_i seen
      rw [filter_cons_of_neg (by rw [seen]; decide)]
      exact ih tracks incr.of_cons inRest ok
    · rename_i notSeen
      rw [Bool.not_eq_true] at notSeen
      obtain ⟨mid, app, ok⟩ := Result.of_bind ok
      obtain ⟨lastSeen, pend⟩ := LiveTickSymbolState.append_lastSeenId app
      obtain ⟨res, pending⟩ := ih (tracks.append (inSource row mem_cons_self) notSeen app)
        incr.of_cons inRest ok
      refine ⟨res, ?_⟩
      -- every later row is above this one, and so above those seen before it
      have post : ∀ alt ∈ rest, (!mid.isSeen alt) = !state.isSeen alt := by
        intro alt mem
        have less := rel_of_pairwise_cons incr mem
        unfold LiveTickSymbolState.isSeen at notSeen ⊢
        rw [lastSeen]
        cases fin : state.lastSeenId with
        | none => simpa using less
        | some last =>
          rw [fin, any_some, decide_eq_false_iff_not] at notSeen
          rw [any_some, any_some, decide_eq_false (by omega),
            decide_eq_false (by omega)]
      rw [pending, pend, filter_cons_of_pos (by rw [notSeen]; decide),
        filter_congr post, append_assoc, singleton_append]

theorem Tracks.buffer {rows : List Tick} {now : Nat} {gap : Bool}
    (tracks : Tracks source written state) (inSource : ∀ row ∈ rows, row ∈ source.rows)
    (ok : state.buffer rows now = .ok (next, gap)) :
    Tracks source written next ∧ next.pendingRows = state.pendingRows ++ state.freshRows rows := by
  obtain ⟨⟨mid, gap'⟩, acc, ok⟩ := Result.of_bind ok
  obtain ⟨rfl, -⟩ := Prod.mk.inj (Except.ok.inj ok)
  obtain ⟨res, pending⟩ := tracks.accept (normalizeLiveTickRows_increasing rows)
    (fun row mem => inSource row (mem_of_mem_normalizeLiveTickRows mem)) acc
  exact ⟨⟨res.increasing, res.inSource, res.fresh, res.noCommits, res.current, res.closed⟩, pending⟩

end Accept

/-! ## Writing -/

section Write

variable {source : TickSeries} {written : List Tick} {state : LiveTickSymbolState}

theorem Segment.cleanBefore {pending : List Tick} {first last : Tick}
    (seg : Segment source written pending first last)
    (clean : CleanEdges source written pending) : source.CleanBefore first := by
  rcases mem_append.mp seg.first_mem with old | new
  · exact seg.clean old
  · exact (clean first new).1 seg.starts

/-- A segment whose last row no row of the batch follows holds all ticks of its range. -/
theorem Segment.complete {pending : List Tick} {first last row : Tick}
    (seg : Segment source written pending first last)
    (inSource : ∀ row ∈ written ++ pending, row ∈ source.rows)
    (clean : CleanEdges source written pending) (lastPending : last ∈ pending)
    (ends : ∀ row ∈ written ++ pending, row.id ≠ last.id + 1) (mem : row ∈ source.rows)
    (lo : first.datetime ≤ row.datetime) (stop : row.datetime < last.datetime + 1) :
    row ∈ written ++ pending := by
  have firstSource := inSource first seg.first_mem
  have lastSource := inSource last seg.last_mem
  rcases Int.lt_or_le row.id first.id with early | low
  · obtain ⟨prev, previousSource, isId⟩ :=
      source.consecutive row mem first firstSource (first.id - 1) (by omega) (by omega)
    have older := seg.cleanBefore clean prev previousSource (by omega)
    have := source.ordered row mem prev previousSource (by omega)
    omega
  rcases Int.lt_or_le last.id row.id with late | high
  · obtain ⟨foll, followingSource, isId⟩ :=
      source.consecutive last lastSource row mem (last.id + 1) (by omega) (by omega)
    have newer := (clean last lastPending).2
      (fun alt inBatch => ends alt (mem_append_right _ inBatch)) foll
      followingSource isId
    have := source.ordered foll followingSource row mem (by omega)
    omega
  · obtain ⟨alt, inRows, isId⟩ := seg.between row.id low high
    rw [← source.unique alt (inSource alt inRows) row mem isId]
    exact inRows

section

variable (tracks : Tracks source written state)
  (clean : CleanEdges source written state.pendingRows)

include tracks clean

theorem Tracks.complete {row : Tick} (mem : row ∈ source.rows)
    (cov : Ranges.Covers state.pendingRanges row.datetime) :
    row ∈ written ++ state.pendingRows := by
  obtain ⟨rng, inRanges, lo, stop⟩ := cov
  obtain ⟨commit, inCommits, rfl⟩ := mem_map.mp inRanges
  have some_pending : state.pendingRows ≠ [] := by
    intro emp
    rw [tracks.noCommits emp] at inCommits
    cases inCommits
  have isLastPending := getLast?_eq_some_getLast some_pending
  have fin : (written ++ state.pendingRows).getLast? =
      some (state.pendingRows.getLast some_pending) := by
    rw [getLast?_append_of_ne_nil _ some_pending, isLastPending]
  have isLastCommit := getLast?_eq_some_getLast (ne_nil_of_mem inCommits)
  rw [← dropLast_append_getLast (ne_nil_of_mem inCommits)] at inCommits
  rcases mem_append.mp inCommits with pre | here
  · obtain ⟨first, last, seg, lastPending, ⟨isStart, isEnd, -⟩, ends, -⟩ := tracks.closed commit pre
    rw [isStart] at lo
    rw [isEnd] at stop
    exact seg.complete tracks.inSource clean lastPending ends mem lo stop
  · obtain ⟨-, first, seg, -, -, isCommit⟩ := tracks.current _ fin
    obtain ⟨isStart, isEnd, -⟩ := isCommit _ isLastCommit
    rw [mem_singleton.mp here, isStart] at lo
    rw [mem_singleton.mp here, isEnd] at stop
    refine seg.complete tracks.inSource clean (mem_of_getLast? isLastPending) ?_ mem lo stop
    intro alt inRows
    have := le_getLast tracks.increasing fin inRows
    omega

/-- After a write the buffer is empty and its rows are written. -/
theorem Tracks.cleared :
    Tracks source (written ++ state.pendingRows) state.cleared := by
  have sameRows : written ++ state.pendingRows ++ state.cleared.pendingRows =
      written ++ state.pendingRows := append_nil _
  constructor
  case noCommits => exact fun _ => rfl
  case closed => exact fun _ mem => (by cases mem)
  case current =>
    intro last fin
    rw [sameRows] at fin
    obtain ⟨seen, first, seg, isStart, isStartNs, -⟩ := tracks.current last fin
    refine ⟨seen, first, ?_, isStart, isStartNs, fun commit isCommit => (by cases isCommit)⟩
    constructor <;> (try rw [sameRows])
    · exact seg.first_mem
    · exact seg.last_mem
    · exact seg.between
    · exact seg.starts
    · exact fun _ => seg.cleanBefore clean
  all_goals rw [sameRows]
  · exact tracks.increasing
  · exact tracks.inSource
  · exact tracks.fresh

end

end Write

/-! ## The whole writer -/

/-- The cache of a symbol holds what was written, and what it claims of the source. -/
structure Holds (source : TickSeries) (written : List Tick) (cache : TickCache) : Prop where
  written_mem : ∀ row ∈ written, row ∈ cache.rows
  claimed_mem : ∀ row ∈ source.rows, Ranges.Covers cache.coverage row.datetime → row ∈ cache.rows

/-- A write of the pending rows and ranges, whether it succeeds or not. -/
theorem Holds.append {source : TickSeries} {written : List Tick} {cache : TickCache}
    {state : LiveTickSymbolState} (holds : Holds source written cache)
    (tracks : Tracks source written state)
    (clean : CleanEdges source written state.pendingRows) (symbol : String) (fault : Option Nat) :
    Holds source written (appendPartialTicksWithCoverage cache symbol state.pendingRows
      state.pendingRanges fault).1 ∧
    ((appendPartialTicksWithCoverage cache symbol state.pendingRows state.pendingRanges
        fault).2 = .ok () →
      Holds source (written ++ state.pendingRows) (appendPartialTicksWithCoverage cache symbol
        state.pendingRows state.pendingRanges fault).1) := by
  unfold appendPartialTicksWithCoverage
  split
  · exact ⟨holds, fun ok => (by cases ok)⟩
  · rw [normalizeTickRows_of_increasing (pairwise_append.mp tracks.increasing).2.1]
    obtain ⟨writes, backed, isCache, full⟩ :=
      cache.perform_spec state.pendingRows state.pendingRanges fault
    rw [isCache]
    have res : Holds source written
        ⟨cache.rows ++ writes.flatMap (·.rows), cache.coverage ++ writes.flatMap (·.coverage)⟩ := by
      refine ⟨fun row mem => mem_append_left _ (holds.written_mem row mem), ?_⟩
      intro row mem cov
      rcases Ranges.covers_append.mp cov with old | new
      · exact mem_append_left _ (holds.claimed_mem row mem old)
      · obtain ⟨inRanges, allRows⟩ := backed.covered _ new
        rcases mem_append.mp (tracks.complete clean mem inRanges) with pre | pending
        · exact mem_append_left _ (holds.written_mem row pre)
        · exact mem_append_right _ (allRows row pending)
    refine ⟨res, fun ok => ⟨fun row mem => ?_, res.claimed_mem⟩⟩
    rcases mem_append.mp mem with pre | pending
    · exact res.written_mem row pre
    · refine mem_append_right _ ?_
      rw [(full ok).1]
      exact pending

namespace LiveTickCacheWriter

/-- What holds of every symbol after every call. -/
structure Sound (sources : String → TickSeries) (writer : LiveTickCacheWriter) : Prop where
  tracks : ∀ symbol, Tracks (sources symbol) (writer.written symbol) (writer.stateOf symbol)
  holds : ∀ symbol, Holds (sources symbol) (writer.written symbol) (writer.caches symbol)
  accepted : ∀ symbol, writer.accepted symbol =
    writer.written symbol ++ (writer.stateOf symbol).pendingRows

theorem stateOf_insert (writer : LiveTickCacheWriter) (symbol alt : String)
    (state : LiveTickSymbolState) (caches : String → TickCache) (acc written : String → List Tick) :
    stateOf ⟨OrdMap.insert symbol state writer.states, caches, acc, written⟩ alt =
      if alt = symbol then state else writer.stateOf alt := by
  unfold stateOf
  rw [OrdMap.get?_insert]
  split <;> rfl

/-- What `flush_pending_symbol` does with the parts of the writer. -/
theorem flushPendingSymbol_cases (writer : LiveTickCacheWriter) (symbol : String)
    (state : LiveTickSymbolState) (fault : Option Nat) :
    (∃ error cache, writer.flushPendingSymbol symbol state fault =
        ({ writer with caches := Function.update writer.caches symbol cache }, .error error) ∧
      cache = (appendPartialTicksWithCoverage (writer.caches symbol) symbol state.pendingRows
        state.pendingRanges fault).1) ∨
    ∃ cache, writer.flushPendingSymbol symbol state fault =
        ({ states := OrdMap.insert symbol state.cleared writer.states
           caches := Function.update writer.caches symbol cache
           accepted := writer.accepted
           written := Function.update writer.written symbol
             (writer.written symbol ++ state.pendingRows) }, .ok (state.report symbol)) ∧
      (state.pendingRows = [] ∧ cache = writer.caches symbol ∨
        appendPartialTicksWithCoverage (writer.caches symbol) symbol state.pendingRows
          state.pendingRanges fault = (cache, .ok ())) := by
  unfold flushPendingSymbol
  dsimp only
  split
  · rename_i emp
    have noRows := isEmpty_iff.mp emp
    refine .inr ⟨writer.caches symbol, ?_, .inl ⟨noRows, rfl⟩⟩
    rw [noRows, append_nil, Function.update_eq_self, Function.update_eq_self]
  · split
    · rename_i cache error err
      exact .inl ⟨error, cache, rfl, by rw [err]⟩
    · rename_i cache isOk
      exact .inr ⟨cache, rfl, .inr isOk⟩

variable {sources : String → TickSeries} {writer : LiveTickCacheWriter}

variable {symbol : String}

/-- A failed write keeps the states, and the cache keeps what it claims. -/
theorem Sound.failed (sound : writer.Sound sources) {cache : TickCache}
    (holds : Holds (sources symbol) (writer.written symbol) cache) :
    Sound sources { writer with caches := Function.update writer.caches symbol cache } where
  tracks := sound.tracks
  holds other := by
    dsimp only
    rcases eq_or_ne other symbol with rfl | differ
    · rw [Function.update_self]
      exact holds
    · rw [Function.update_of_ne differ]
      exact sound.holds other
  accepted := sound.accepted

/-- A symbol gets a new state, whose rows are those accepted before and `fresh`. -/
theorem Sound.replace (sound : writer.Sound sources) {state : LiveTickSymbolState}
    (cache : TickCache) (fresh : List Tick) {written : List Tick}
    (tracks : Tracks (sources symbol) written state) (holds : Holds (sources symbol) written cache)
    (rows : written ++ state.pendingRows = writer.accepted symbol ++ fresh) :
    Sound sources
      { states := OrdMap.insert symbol state writer.states
        caches := Function.update writer.caches symbol cache
        accepted := Function.update writer.accepted symbol (writer.accepted symbol ++ fresh)
        written := Function.update writer.written symbol written } := by
  constructor
  all_goals
    intro alt
    try rw [stateOf_insert]
    dsimp only
    rcases eq_or_ne alt symbol with rfl | differ
  · rw [if_pos rfl, Function.update_self]
    exact tracks
  · rw [if_neg differ, Function.update_of_ne differ]
    exact sound.tracks alt
  · rw [Function.update_self, Function.update_self]
    exact holds
  · rw [Function.update_of_ne differ, Function.update_of_ne differ]
    exact sound.holds alt
  · rw [if_pos rfl, Function.update_self, Function.update_self]
    exact rows.symm
  · rw [if_neg differ, Function.update_of_ne differ, Function.update_of_ne differ]
    exact sound.accepted alt

/-- The writes of `flush_pending_symbol`, for a state that has taken `fresh`. -/
theorem Sound.flushPendingSymbol (sound : writer.Sound sources) {state : LiveTickSymbolState}
    (fresh : List Tick) (fault : Option Nat)
    (tracks : Tracks (sources symbol) (writer.written symbol) state)
    (clean : CleanEdges (sources symbol) (writer.written symbol) state.pendingRows)
    (rows : state.pendingRows = (writer.stateOf symbol).pendingRows ++ fresh) :
    (∃ error, (writer.flushPendingSymbol symbol state fault).2 = .error error ∧
      (writer.flushPendingSymbol symbol state fault).1.Sound sources) ∨
    ∃ rep, (writer.flushPendingSymbol symbol state fault).2 = .ok rep ∧
      ((writer.flushPendingSymbol symbol state fault).1.accept symbol fresh).Sound sources := by
  obtain ⟨kept, full⟩ := (sound.holds symbol).append tracks clean symbol fault
  have acc : writer.written symbol ++ state.pendingRows =
      writer.accepted symbol ++ fresh := by
    rw [sound.accepted symbol, rows, append_assoc]
  obtain ⟨error, cache, err, rfl⟩ | ⟨cache, isOk, isCache⟩ :=
    writer.flushPendingSymbol_cases symbol state fault
  · rw [err]
    exact .inl ⟨error, rfl, sound.failed kept⟩
  · rw [isOk]
    refine .inr ⟨_, rfl, sound.replace cache fresh (tracks.cleared clean) ?_ ?_⟩
    · rcases isCache with ⟨emp, rfl⟩ | wrote
      · rw [emp, append_nil]
        exact sound.holds symbol
      · rw [wrote] at full
        exact full rfl
    · rw [← acc]
      exact append_nil _

theorem accept_nil (writer : LiveTickCacheWriter) (symbol : String) :
    writer.accept symbol [] = writer := by
  unfold accept
  rw [append_nil, Function.update_eq_self]

theorem Sound.pushTicks (sound : writer.Sound sources) {symbol : String} {rows : List Tick}
    {now : Nat} (fault : Option Nat) (ofSource : ∀ row ∈ rows, row ∈ (sources symbol).rows)
    (clean : CleanEdges (sources symbol) (writer.written symbol)
      ((writer.stateOf symbol).batch rows now)) :
    (writer.pushTicks symbol rows now fault).1.Sound sources := by
  unfold LiveTickCacheWriter.pushTicks
  unfold LiveTickSymbolState.batch at clean
  split
  · exact sound
  · dsimp only
    cases isNext : (writer.stateOf symbol).buffer rows now with
    | error error => exact sound
    | ok res =>
      obtain ⟨next, gapDetected⟩ := res
      obtain ⟨tracks, pending⟩ := (sound.tracks symbol).buffer ofSource isNext
      rw [isNext] at clean
      dsimp only at clean ⊢
      split
      · rename_i flushes
        rw [if_pos flushes] at clean
        have fld := sound.flushPendingSymbol _ fault tracks clean pending
        split
        · rename_i fail
          rw [fail] at fld
          obtain ⟨_, -, res⟩ | ⟨_, isOk, -⟩ := fld
          · exact res
          · cases isOk
        · rename_i ok_
          rw [ok_] at fld
          obtain ⟨_, err, -⟩ | ⟨_, -, res⟩ := fld
          · cases err
          · exact res
      · have replaced := sound.replace (writer.caches symbol)
          ((writer.stateOf symbol).freshRows rows) tracks (sound.holds symbol)
          (by rw [pending, ← append_assoc, ← sound.accepted symbol])
        rw [Function.update_eq_self, Function.update_eq_self] at replaced
        exact replaced

/-! ## Flushing all symbols -/

/-- A symbol was left alone, or its rows were written and its buffer is empty. -/
def LeftOrFlushed (before after : LiveTickCacheWriter) (symbol : String) : Prop :=
  after.stateOf symbol = before.stateOf symbol ∧ after.written symbol = before.written symbol ∨
    after.stateOf symbol = (before.stateOf symbol).cleared ∧
      after.written symbol = before.written symbol ++ (before.stateOf symbol).pendingRows

theorem LeftOrFlushed.trans {first snd third : LiveTickCacheWriter}
    (left : LeftOrFlushed first snd symbol) (right : LeftOrFlushed snd third symbol) :
    LeftOrFlushed first third symbol := by
  obtain ⟨state, written⟩ | ⟨state, written⟩ := left
  · unfold LeftOrFlushed at right
    rwa [state, written] at right
  · refine .inr ?_
    obtain ⟨state', written'⟩ | ⟨state', written'⟩ := right
    · rw [state', written', state, written]
      exact ⟨rfl, rfl⟩
    · rw [state', written', state, written]
      exact ⟨rfl, append_nil _⟩

theorem leftOrFlushed_flushPendingSymbol (writer : LiveTickCacheWriter) (symbol alt : String)
    (fault : Option Nat) :
    LeftOrFlushed writer
      (writer.flushPendingSymbol symbol (writer.stateOf symbol) fault).1 alt := by
  obtain ⟨error, cache, err, -⟩ | ⟨cache, isOk, -⟩ :=
    writer.flushPendingSymbol_cases symbol (writer.stateOf symbol) fault
  · rw [err]
    exact .inl ⟨rfl, rfl⟩
  · rw [isOk]
    unfold LeftOrFlushed
    rw [stateOf_insert]
    dsimp only
    rcases eq_or_ne alt symbol with rfl | differ
    · rw [if_pos rfl, Function.update_self]
      exact .inr ⟨rfl, rfl⟩
    · rw [if_neg differ, Function.update_of_ne differ]
      exact .inl ⟨rfl, rfl⟩

theorem leftOrFlushed_flushSymbols (faults : String → Option Nat) (syms : List String)
    (writer : LiveTickCacheWriter) (alt : String) :
    LeftOrFlushed writer (flushSymbols faults syms writer).1 alt := by
  induction syms generalizing writer with
  | nil => exact .inl ⟨rfl, rfl⟩
  | cons symbol rest ih =>
    have first := leftOrFlushed_flushPendingSymbol writer symbol alt (faults symbol)
    unfold flushSymbols
    split
    · rename_i fail
      rw [fail] at first
      exact first
    · rename_i mid _ ok_
      rw [ok_] at first
      have post := first.trans (ih mid)
      split
      · rename_i fail
        rw [fail] at post
        exact post
      · rename_i done
        rw [done] at post
        exact post

theorem Sound.flushSymbols {faults : String → Option Nat} {syms : List String}
    (sound : writer.Sound sources)
    (clean : ∀ symbol, CleanEdges (sources symbol) (writer.written symbol)
      (writer.stateOf symbol).pendingRows) :
    (LiveTickCacheWriter.flushSymbols faults syms writer).1.Sound sources := by
  induction syms generalizing writer with
  | nil => exact sound
  | cons symbol rest ih =>
    have fld := sound.flushPendingSymbol [] (faults symbol) (sound.tracks symbol)
      (clean symbol) (append_nil _).symm
    have each := fun alt => leftOrFlushed_flushPendingSymbol writer symbol alt (faults symbol)
    unfold LiveTickCacheWriter.flushSymbols
    split
    · rename_i fail
      rw [fail] at fld
      obtain ⟨_, -, res⟩ | ⟨_, isOk, -⟩ := fld
      · exact res
      · cases isOk
    · rename_i mid _ ok_
      rw [ok_] at fld each
      obtain ⟨_, err, -⟩ | ⟨_, -, res⟩ := fld
      · cases err
      · rw [accept_nil] at res
        have post := ih res fun alt => by
          obtain ⟨state, written⟩ | ⟨state, -⟩ := each alt
          · rw [state, written]
            exact clean alt
          · rw [state]
            exact fun _ mem => (by cases mem)
        split
        · rename_i fail
          rw [fail] at post
          exact post
        · rename_i done
          rw [done] at post
          exact post

/-! ## Runs -/

/-- A call whose batches have clean edges. -/
inductive SafeStep (sources : String → TickSeries) (writer : LiveTickCacheWriter) :
    LiveTickCacheWriter → Prop
  | push (symbol : String) (rows : List Tick) (now : Nat) (fault : Option Nat)
    (ofSource : ∀ row ∈ rows, row ∈ (sources symbol).rows)
    (clean : CleanEdges (sources symbol) (writer.written symbol)
      ((writer.stateOf symbol).batch rows now)) :
    SafeStep sources writer (writer.pushTicks symbol rows now fault).1
  | flush (faults : String → Option Nat)
    (clean : ∀ symbol, CleanEdges (sources symbol) (writer.written symbol)
      (writer.stateOf symbol).pendingRows) :
    SafeStep sources writer (writer.flush faults).1

theorem Sound.step {writer' : LiveTickCacheWriter} (sound : writer.Sound sources)
    (step : SafeStep sources writer writer') : writer'.Sound sources := by
  cases step with
  | push symbol rows now fault ofSource clean => exact sound.pushTicks fault ofSource clean
  | flush faults clean => exact sound.flushSymbols clean

theorem Sound.run {writer' : LiveTickCacheWriter} (sound : writer.Sound sources)
    (run : Relation.ReflTransGen (SafeStep sources) writer writer') : writer'.Sound sources := by
  induction run with
  | refl => exact sound
  | tail _ step ih => exact ih.step step

/-- `LiveTickCacheWriter::new` over caches that may hold ticks already. -/
def new (caches : String → TickCache) : LiveTickCacheWriter :=
  ⟨[], caches, fun _ => [], fun _ => []⟩

theorem pushTicks_error {rows : List Tick} {now : Nat} {fault : Option Nat} {error : DataError}
    (failed : (writer.pushTicks symbol rows now fault).2 = .error error) :
    (writer.pushTicks symbol rows now fault).1.states = writer.states := by
  unfold pushTicks at failed ⊢
  split at failed
  · rename_i isEmpty
    rw [if_pos isEmpty]
  · rename_i notEmpty
    rw [if_neg notEmpty]
    dsimp only at failed ⊢
    cases isNext : (writer.stateOf symbol).buffer rows now with
    | error error => rfl
    | ok res =>
      rw [isNext] at failed
      dsimp only at failed ⊢
      split at failed
      · rename_i flushes
        rw [if_pos flushes]
        obtain ⟨_, cache, err, -⟩ | ⟨cache, isOk, -⟩ :=
          writer.flushPendingSymbol_cases symbol res.1 fault
        · rw [err]
        · rw [isOk] at failed
          cases failed
      · cases failed

/-- Over every run whose batches have clean edges: each tick of the source in a range that is
marked complete is in the cache; the written rows have increasing ids and are, with the buffered
ones, all that was accepted; and a call that fails leaves the symbols that it did not flush. -/
theorem claims_only_written (sources : String → TickSeries) (caches : String → TickCache)
    (held : ∀ symbol, ∀ row ∈ (sources symbol).rows,
      Ranges.Covers (caches symbol).coverage row.datetime → row ∈ (caches symbol).rows)
    (writer : LiveTickCacheWriter)
    (run : Relation.ReflTransGen (SafeStep sources) (new caches) writer) :
    (∀ symbol, ∀ row ∈ (sources symbol).rows,
      Ranges.Covers (writer.caches symbol).coverage row.datetime →
        row ∈ (writer.caches symbol).rows) ∧
    (∀ symbol, (writer.written symbol).Pairwise (fun left right => left.id < right.id) ∧
      (∀ row ∈ writer.written symbol, row ∈ (writer.caches symbol).rows) ∧
      writer.accepted symbol = writer.written symbol ++ (writer.stateOf symbol).pendingRows) ∧
    (∀ symbol rows now fault error,
      (writer.pushTicks symbol rows now fault).2 = .error error →
      (writer.pushTicks symbol rows now fault).1.states = writer.states) ∧
    (∀ faults error, (writer.flush faults).2 = .error error → ∀ symbol,
      (writer.flush faults).1.stateOf symbol = writer.stateOf symbol ∨
        (writer.flush faults).1.stateOf symbol = (writer.stateOf symbol).cleared ∧
          (writer.flush faults).1.written symbol =
            writer.written symbol ++ (writer.stateOf symbol).pendingRows) := by
  have initial : (new caches).Sound sources :=
    ⟨fun symbol => Tracks.default (sources symbol),
      fun symbol => ⟨fun _ mem => (by cases mem), held symbol⟩, fun _ => rfl⟩
  have sound := initial.run run
  refine ⟨fun symbol => (sound.holds symbol).claimed_mem, fun symbol => ⟨?_, ?_, ?_⟩, ?_, ?_⟩
  · exact (pairwise_append.mp (sound.tracks symbol).increasing).1
  · exact (sound.holds symbol).written_mem
  · exact sound.accepted symbol
  · exact fun symbol rows now fault error => pushTicks_error
  · intro faults error _ symbol
    exact (leftOrFlushed_flushSymbols faults _ writer symbol).imp_left fun left => left.1

/-! ## Ticks that share a datetime -/

/-- Tick 1 and tick 2 share a datetime. -/
def sharedTick (id : Int) : Tick := ⟨id, if id ≤ 2 then 10 else 20, [], none⟩

def sharedSeries : TickSeries where
  rows := { row | ∃ id, 1 ≤ id ∧ id ≤ 4 ∧ row = sharedTick id }
  inRange := by
    rintro _ ⟨id, low, high, rfl⟩
    unfold I64.InRange I64.minimum I64.maximum sharedTick
    dsimp only
    omega
  unique := by
    rintro _ ⟨left, _, _, rfl⟩ _ ⟨right, _, _, rfl⟩ same
    rw [show left = right from same]
  ordered := by
    rintro _ ⟨left, _, _, rfl⟩ _ ⟨right, _, _, rfl⟩ le
    change left ≤ right at le
    unfold sharedTick
    dsimp only
    split_ifs <;> omega
  consecutive := by
    rintro _ ⟨left, low, _, rfl⟩ _ ⟨right, _, high, rfl⟩ id after before
    change left ≤ id at after
    change id ≤ right at before
    exact ⟨sharedTick id, ⟨id, by omega, by omega, rfl⟩, rfl⟩

def sharedWriter (calls : List (List Tick)) : LiveTickCacheWriter :=
  calls.foldl (fun writer rows => (writer.pushTicks "SHFE.rb2610" rows 0 none).1)
    (new fun _ => ⟨[], []⟩)

/-- A capture that begins with tick 2 claims tick 1. -/
theorem capture_claims_unwritten :
    sharedTick 1 ∈ sharedSeries.rows ∧ (∀ row ∈ [sharedTick 2, sharedTick 3, sharedTick 4],
      row ∈ sharedSeries.rows) ∧
    ((new fun _ => ⟨[], []⟩).pushTicks "SHFE.rb2610" [sharedTick 2, sharedTick 3, sharedTick 4] 0
      none).2 = .ok ⟨"SHFE.rb2610", 3, [(10, 21)], some 4, false⟩ ∧
    ((sharedWriter [[sharedTick 2, sharedTick 3, sharedTick 4]]).caches "SHFE.rb2610").coverage =
      [(10, 21)] ∧
    sharedTick 1 ∉ ((sharedWriter [[sharedTick 2, sharedTick 3, sharedTick 4]]).caches
      "SHFE.rb2610").rows := by
  refine ⟨⟨1, by decide, by decide, rfl⟩, ?_, by decide +kernel, by decide +kernel,
    by decide +kernel⟩
  intro row mem
  simp only [mem_cons, not_mem_nil, or_false] at mem
  rcases mem with rfl | rfl | rfl
  · exact ⟨2, by decide, by decide, rfl⟩
  · exact ⟨3, by decide, by decide, rfl⟩
  · exact ⟨4, by decide, by decide, rfl⟩

/-- A capture of ticks 1 and 2, the last ones of their datetime. -/
theorem claims_only_written_shared :
    sharedTick 1 ∈ ((sharedWriter [[sharedTick 1, sharedTick 2]]).caches "SHFE.rb2610").rows ∧
      sharedTick 2 ∈ ((sharedWriter [[sharedTick 1, sharedTick 2]]).caches "SHFE.rb2610").rows := by
  have isBatch : ((new fun _ => ⟨[], []⟩).stateOf "SHFE.rb2610").batch
      [sharedTick 1, sharedTick 2] 0 = [sharedTick 1, sharedTick 2] := by decide +kernel
  have inSeries : ∀ row ∈ [sharedTick 1, sharedTick 2], row ∈ sharedSeries.rows := by
    intro row mem
    simp only [mem_cons, not_mem_nil, or_false] at mem
    rcases mem with rfl | rfl
    · exact ⟨1, by decide, by decide, rfl⟩
    · exact ⟨2, by decide, by decide, rfl⟩
  have clean : CleanEdges sharedSeries [] [sharedTick 1, sharedTick 2] := by
    intro row mem
    simp only [mem_cons, not_mem_nil, or_false] at mem
    rcases mem with rfl | rfl
    · refine ⟨fun _ => ?_, fun noNext => absurd rfl (noNext (sharedTick 2) (by simp))⟩
      rintro _ ⟨id, low, -, rfl⟩ pre
      change id + 1 = 1 at pre
      omega
    · refine ⟨fun noPrevious => absurd rfl (noPrevious (sharedTick 1) (by simp)), fun _ => ?_⟩
      rintro _ ⟨id, -, -, rfl⟩ post
      obtain rfl : id = 3 := post
      decide
  have step : SafeStep (fun _ => sharedSeries) (new fun _ => ⟨[], []⟩)
      (sharedWriter [[sharedTick 1, sharedTick 2]]) :=
    .push "SHFE.rb2610" [sharedTick 1, sharedTick 2] 0 none inSeries (by rw [isBatch]; exact clean)
  have claims := claims_only_written (fun _ => sharedSeries) (fun _ => ⟨[], []⟩)
    (fun _ _ _ cov => absurd cov Ranges.covers_nil) _ (.single step)
  have cov : Ranges.Covers ((sharedWriter [[sharedTick 1, sharedTick 2]]).caches
      "SHFE.rb2610").coverage 10 := by
    rw [show ((sharedWriter [[sharedTick 1, sharedTick 2]]).caches "SHFE.rb2610").coverage =
      [(10, 11)] by decide +kernel]
    exact ⟨(10, 11), by simp, by decide, by decide⟩
  exact ⟨claims.1 "SHFE.rb2610" (sharedTick 1) (inSeries _ (by simp)) cov,
    claims.1 "SHFE.rb2610" (sharedTick 2) (inSeries _ (by simp)) cov⟩

end LiveTickCacheWriter

end Tqsdk
