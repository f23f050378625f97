import Tqsdk.Data.HistoryRequest
import Tqsdk.Data.Session

/-!
# Multi-day bars

`aggregation/daily.rs`: daily rows become bars of several days.  The buckets are counted from
the first row that an aggregator sees.
-/

namespace Tqsdk

open List

structure DailyKlineAggregator where
  durationNs : Int
  bucketOriginNs : Option Int
  current : Option Kline

namespace DailyKlineAggregator

def new (durationNs : Int) : Except DataError DailyKlineAggregator :=
  if durationNs ≤ dailyKlineDurationNs ∨ durationNs % dailyKlineDurationNs ≠ 0 then
    .error (.validation
      "aggregated daily kline duration must be an integer multiple of 1d greater than 1d")
  else .ok ⟨durationNs, none, none⟩

variable (aggregator : DailyKlineAggregator)

/-- The origin of the buckets once a row at `datetime` has come. -/
def originFor (datetime : Int) : Except DataError Int :=
  match aggregator.bucketOriginNs with
  | some origin =>
    if origin % dailyKlineDurationNs ≠ datetime % dailyKlineDurationNs then
      .error (.invalidResponse "native daily kline timestamps changed day-boundary phase")
    else .ok origin
  | none => .ok datetime

def bucketStart (durationNs originNs datetime : Int) : Except DataError Int :=
  let start :=
    (I64.checked (datetime - originNs)).bind fun offset =>
      (I64.checked (offset / durationNs)).bind fun bucket =>
        (I64.checked (bucket * durationNs)).bind fun start => I64.checked (start + originNs)
  match start with
  | some start => .ok start
  | none => .error (.validation "daily kline bucket overflow")

/-- The bar that a row opens. -/
def openBar (bucketStart : Int) (daily : Kline) : Kline :=
  ⟨bucketStart, bucketStart, daily.open_, daily.high, daily.low, daily.close, max daily.volume 0,
    daily.openOi, daily.closeOi, daily.epoch⟩

/-- The bar with one more row. -/
def joinBar (current daily : Kline) : Kline :=
  { current with
    high := current.high.max daily.high
    low := current.low.min daily.low
    close := daily.close
    volume := I64.saturated (current.volume + max daily.volume 0)
    closeOi := daily.closeOi
    epoch := daily.epoch.or current.epoch }

def update (daily : Kline) :
    Except DataError (DailyKlineAggregator × Option Kline) := do
  let originNs ← aggregator.originFor daily.datetime
  let start ← bucketStart aggregator.durationNs originNs daily.datetime
  match aggregator.current with
  | some current =>
    if current.datetime ≠ start then
      return (⟨aggregator.durationNs, some originNs, some (openBar start daily)⟩, some current)
    else return (⟨aggregator.durationNs, some originNs, some (joinBar current daily)⟩, none)
  | none => return (⟨aggregator.durationNs, some originNs, some (openBar start daily)⟩, none)

def finishClosedThrough (endNs : Int) : Except DataError (DailyKlineAggregator × Option Kline) :=
  match aggregator.current with
  | none => .ok (aggregator, none)
  | some current => do
      let barEndNs ← checkedOr (current.datetime + aggregator.durationNs)
        "daily kline bar end overflow"
      if barEndNs ≤ endNs then return ({ aggregator with current := none }, some current)
      else return (aggregator, none)

end DailyKlineAggregator

/-! ## Buckets -/

/-- The start of the bucket of a timestamp, without the limits of an `i64`. -/
def dailyBucket (durationNs originNs datetime : Int) : Int :=
  (datetime - originNs) / durationNs * durationNs + originNs

/-- The bar of a bucket and its rows. -/
def dailyBar (start : Int) : List Kline → Option Kline
  | [] => none
  | first :: rest =>
    some (rest.foldl DailyKlineAggregator.joinBar (DailyKlineAggregator.openBar start first))

/-- The rows of the bucket that starts at `start`. -/
def bucketRows (durationNs originNs start : Int) (rows : List Kline) : List Kline :=
  rows.filter fun row => dailyBucket durationNs originNs row.datetime = start

section Buckets

variable {durationNs originNs datetime : Int}

theorem dailyBucket_le (pos : 0 < durationNs) :
    dailyBucket durationNs originNs datetime ≤ datetime ∧
      datetime < dailyBucket durationNs originNs datetime + durationNs := by
  have low := Int.mul_ediv_self_le (x := datetime - originNs) (k := durationNs) (by omega)
  have high := Int.lt_mul_ediv_self_add (x := datetime - originNs) pos
  unfold dailyBucket
  rw [Int.mul_comm]
  omega

theorem origin_le_dailyBucket (pos : 0 < durationNs) (post : originNs ≤ datetime) :
    originNs ≤ dailyBucket durationNs originNs datetime := by
  have nn : 0 ≤ (datetime - originNs) / durationNs * durationNs :=
    Int.mul_nonneg (Int.ediv_nonneg (by omega) (by omega)) (by omega)
  unfold dailyBucket
  omega

/-- Buckets start whole durations away from their origin. -/
theorem dvd_dailyBucket : durationNs ∣ dailyBucket durationNs originNs datetime - originNs :=
  ⟨(datetime - originNs) / durationNs, by unfold dailyBucket; rw [Int.mul_comm]; omega⟩

/-- A timestamp is in the bucket that starts no later than it and ends after it. -/
theorem dailyBucket_eq_iff (positive : 0 < durationNs) {lo : Int}
    (onGrid : durationNs ∣ lo - originNs) :
    dailyBucket durationNs originNs datetime = lo ↔ lo ≤ datetime ∧ datetime < lo + durationNs := by
  constructor
  · rintro rfl
    exact dailyBucket_le positive
  · rintro ⟨low, high⟩
    obtain ⟨own, next⟩ := @dailyBucket_le durationNs originNs datetime positive
    obtain ⟨step, gridStep⟩ := Int.dvd_sub (@dvd_dailyBucket durationNs originNs datetime) onGrid
    have small : -durationNs < durationNs * step ∧ durationNs * step < durationNs := by
      constructor <;> omega
    have zero : step = 0 := by
      by_contra nonzero
      rcases Int.lt_or_gt_of_ne nonzero with negative | positive'
      · have := Int.mul_le_mul_of_nonneg_left (show step ≤ -1 by omega) (Int.le_of_lt positive)
        omega
      · have := Int.mul_le_mul_of_nonneg_left (show 1 ≤ step by omega) (Int.le_of_lt positive)
        omega
    rw [zero] at gridStep
    omega

theorem dailyBucket_mono (pos : 0 < durationNs) {post : Int} (ord : datetime ≤ post) :
    dailyBucket durationNs originNs datetime ≤ dailyBucket durationNs originNs post := by
  have steps : (datetime - originNs) / durationNs ≤ (post - originNs) / durationNs :=
    Int.ediv_le_ediv pos (by omega)
  have scaled := Int.mul_le_mul_of_nonneg_right steps (Int.le_of_lt pos)
  unfold dailyBucket
  omega

theorem bucketStart_eq_ok {lo : Int}
    (ok : DailyKlineAggregator.bucketStart durationNs originNs datetime = .ok lo) :
    lo = dailyBucket durationNs originNs datetime := by
  unfold DailyKlineAggregator.bucketStart at ok
  dsimp only at ok
  split at ok
  · rename_i hit
    obtain rfl := Except.ok.inj ok
    simp only [Option.bind_eq_some_iff, I64.checked_eq_some] at hit
    obtain ⟨_, ⟨-, rfl⟩, _, ⟨-, rfl⟩, _, ⟨-, rfl⟩, -, same⟩ := hit
    exact same.symm
  · cases ok

end Buckets

/-! ## Bars of the rows so far -/

theorem dailyBar_snoc (lo : Int) (rows : List Kline) (row : Kline) :
    dailyBar lo (rows ++ [row]) =
      some (match dailyBar lo rows with
        | none => DailyKlineAggregator.openBar lo row
        | some bar => DailyKlineAggregator.joinBar bar row) := by
  cases rows with
  | nil => rfl
  | cons hd rest => simp [dailyBar, foldl_append]

theorem bucketRows_snoc (durationNs originNs lo : Int) (rows : List Kline) (row : Kline) :
    bucketRows durationNs originNs lo (rows ++ [row]) =
      bucketRows durationNs originNs lo rows ++
        if dailyBucket durationNs originNs row.datetime = lo then [row] else [] := by
  unfold bucketRows
  rw [filter_append]
  congr 1
  by_cases inBucket : dailyBucket durationNs originNs row.datetime = lo <;> simp [inBucket]

/-- The bars are those of the buckets that have rows, in order, each made of all rows of its
bucket. -/
structure Bucketed (durationNs originNs : Int) (rows bars : List Kline) : Prop where
  increasing : bars.Pairwise fun left right => left.datetime < right.datetime
  starts : ∀ start, (∃ bar ∈ bars, bar.datetime = start) ↔
    ∃ row ∈ rows, dailyBucket durationNs originNs row.datetime = start
  made : ∀ bar ∈ bars,
    dailyBar bar.datetime (bucketRows durationNs originNs bar.datetime rows) = some bar

namespace Bucketed

variable {durationNs originNs : Int} {rows bars closed : List Kline} {row last : Kline}

theorem nil : Bucketed durationNs originNs [] [] where
  increasing := .nil
  starts start := by simp
  made bar member := absurd member not_mem_nil

/-- A row of a bucket after all bars opens the next bar. -/
theorem opens (bkt : Bucketed durationNs originNs rows bars)
    (post : ∀ bar ∈ bars, bar.datetime < dailyBucket durationNs originNs row.datetime) :
    Bucketed durationNs originNs (rows ++ [row])
      (bars ++ [DailyKlineAggregator.openBar
        (dailyBucket durationNs originNs row.datetime) row]) where
  increasing := by
    refine pairwise_append.mpr ⟨bkt.increasing, pairwise_singleton _ _, ?_⟩
    intro bar member opn isOpened
    obtain rfl := mem_singleton.mp isOpened
    exact post bar member
  starts start := by
    have pre := bkt.starts start
    constructor
    · rintro ⟨bar, member, rfl⟩
      rcases mem_append.mp member with old | new
      · obtain ⟨row', member', same⟩ := pre.mp ⟨bar, old, rfl⟩
        exact ⟨row', mem_append_left _ member', same⟩
      · obtain rfl := mem_singleton.mp new
        exact ⟨row, mem_append_right _ mem_cons_self, rfl⟩
    · rintro ⟨row', member, same⟩
      rcases mem_append.mp member with old | new
      · obtain ⟨bar, member', same'⟩ := pre.mpr ⟨row', old, same⟩
        exact ⟨bar, mem_append_left _ member', same'⟩
      · obtain rfl := mem_singleton.mp new
        exact ⟨_, mem_append_right _ mem_cons_self, same⟩
  made bar member := by
    rw [bucketRows_snoc]
    rcases mem_append.mp member with old | new
    · rw [if_neg (by have := post bar old; omega), append_nil]
      exact bkt.made bar old
    · obtain rfl := mem_singleton.mp new
      have fresh : bucketRows durationNs originNs
          (dailyBucket durationNs originNs row.datetime) rows = [] := by
        refine filter_eq_nil_iff.mpr fun row' member' same => ?_
        obtain ⟨bar, old, isStart⟩ := (bkt.starts _).mpr ⟨row', member', of_decide_eq_true same⟩
        exact absurd (post bar old) (by omega)
      have own : (DailyKlineAggregator.openBar (dailyBucket durationNs originNs row.datetime)
          row).datetime = dailyBucket durationNs originNs row.datetime := rfl
      rw [own, fresh, if_pos rfl]
      rfl

/-- A row of the bucket of the last bar joins it. -/
theorem joins (bkt : Bucketed durationNs originNs rows (closed ++ [last]))
    (inLast : dailyBucket durationNs originNs row.datetime = last.datetime) :
    Bucketed durationNs originNs (rows ++ [row])
      (closed ++ [DailyKlineAggregator.joinBar last row]) := by
  have own : (DailyKlineAggregator.joinBar last row).datetime = last.datetime := rfl
  have dts : ∀ lo, (∃ bar ∈ closed ++ [DailyKlineAggregator.joinBar last row],
      bar.datetime = lo) ↔ ∃ bar ∈ closed ++ [last], bar.datetime = lo := by
    simp [or_and_right, exists_or, own]
  have incr := pairwise_append.mp bkt.increasing
  have pre : ∀ bar ∈ closed, bar.datetime < last.datetime := fun bar mem =>
    incr.2.2 bar mem last mem_cons_self
  refine ⟨?_, fun lo => ?_, fun bar mem => ?_⟩
  · refine pairwise_append.mpr ⟨incr.1, pairwise_singleton _ _, ?_⟩
    intro bar mem join isJoined
    obtain rfl := mem_singleton.mp isJoined
    exact pre bar mem
  · rw [dts, bkt.starts]
    constructor
    · rintro ⟨row', mem, same⟩
      exact ⟨row', mem_append_left _ mem, same⟩
    · rintro ⟨row', mem, same⟩
      rcases mem_append.mp mem with old | new
      · exact ⟨row', old, same⟩
      · obtain rfl := mem_singleton.mp new
        obtain ⟨hd, hit, fst⟩ := (bkt.starts last.datetime).mp
          ⟨last, mem_append_right _ mem_cons_self, rfl⟩
        exact ⟨hd, hit, by omega⟩
  · rw [bucketRows_snoc]
    rcases mem_append.mp mem with old | new
    · rw [if_neg (by have := pre bar old; omega), append_nil]
      exact bkt.made bar (mem_append_left _ old)
    · obtain rfl := mem_singleton.mp new
      have made := bkt.made last (mem_append_right _ mem_cons_self)
      rw [own, if_pos inLast, dailyBar_snoc, made]

end Bucketed

/-! ## Updates -/

/-- An aggregator that has seen the rows and closed the bars. -/
structure DailyKlineAggregator.Saw (aggregator : DailyKlineAggregator) (durationNs : Int)
    (rows closed : List Kline) : Prop where
  durationNs_eq : aggregator.durationNs = durationNs
  bars : (rows = [] ∧ closed = [] ∧ aggregator.bucketOriginNs = none ∧
      aggregator.current = none) ∨
    ∃ first rest current, rows = first :: rest ∧
      aggregator.bucketOriginNs = some first.datetime ∧ aggregator.current = some current ∧
      Bucketed durationNs first.datetime rows (closed ++ [current])

namespace DailyKlineAggregator

variable {aggregator next : DailyKlineAggregator} {durationNs : Int} {rows closed : List Kline}
  {row : Kline} {emit : Option Kline}

theorem new_saw (ok : new durationNs = .ok aggregator) :
    dailyKlineDurationNs < durationNs ∧ aggregator.Saw durationNs [] [] := by
  unfold new at ok
  split at ok
  · cases ok
  · rename_i wide
    obtain rfl := Except.ok.inj ok
    exact ⟨by omega, rfl, .inl ⟨rfl, rfl, rfl, rfl⟩⟩

theorem originFor_eq {origin : Int} (seen : aggregator.bucketOriginNs = some origin)
    {datetime hit : Int} (ok : aggregator.originFor datetime = .ok hit) : hit = origin := by
  unfold originFor at ok
  rw [seen] at ok
  dsimp only at ok
  split at ok
  · cases ok
  · exact (Except.ok.inj ok).symm

/-- A row that comes after the rows seen is counted, and closes the bar before it or none. -/
theorem Saw.update (saw : aggregator.Saw durationNs rows closed) (pos : 0 < durationNs)
    (post : ∀ prior ∈ rows, prior.datetime < row.datetime)
    (ok : aggregator.update row = .ok (next, emit)) :
    next.Saw durationNs (rows ++ [row]) (closed ++ emit.toList) := by
  obtain ⟨sameDur, ⟨rfl, rfl, noOrigin, noCurrent⟩ |
    ⟨first, rest, current, rfl, origin, isCurrent, bucketed⟩⟩ := saw
  · obtain ⟨originNs, isOrigin, ok⟩ := Result.of_bind ok
    obtain ⟨lo, isStart, ok⟩ := Result.of_bind ok
    rw [noCurrent] at ok
    obtain ⟨rfl, rfl⟩ := Prod.mk.inj (Except.ok.inj ok)
    unfold originFor at isOrigin
    rw [noOrigin] at isOrigin
    obtain rfl := Except.ok.inj isOrigin
    rw [sameDur] at isStart
    refine ⟨sameDur, .inr ⟨row, [], _, rfl, rfl, rfl, ?_⟩⟩
    rw [bucketStart_eq_ok isStart]
    exact Bucketed.nil.opens fun bar mem => absurd mem not_mem_nil
  · obtain ⟨originNs, isOrigin, ok⟩ := Result.of_bind ok
    obtain ⟨lo, isStart, ok⟩ := Result.of_bind ok
    obtain rfl := originFor_eq origin isOrigin
    rw [sameDur] at isStart
    obtain rfl := bucketStart_eq_ok isStart
    rw [isCurrent] at ok
    dsimp only at ok
    have incr := pairwise_append.mp bucketed.increasing
    -- the current bar is that of a row seen, so its bucket is not after the new one
    have currentLe : current.datetime ≤
        dailyBucket durationNs first.datetime row.datetime := by
      obtain ⟨seen, mem, isBucket⟩ := (bucketed.starts current.datetime).mp
        ⟨current, mem_append_right _ mem_cons_self, rfl⟩
      rw [← isBucket]
      exact dailyBucket_mono pos (Int.le_of_lt (post seen mem))
    split at ok
    · rename_i ne
      obtain ⟨rfl, rfl⟩ := Prod.mk.inj (Except.ok.inj ok)
      refine ⟨sameDur, .inr ⟨first, rest ++ [row], _, rfl, rfl, rfl, ?_⟩⟩
      refine bucketed.opens fun bar mem => ?_
      rcases mem_append.mp mem with pre | here
      · have := incr.2.2 bar pre current mem_cons_self
        omega
      · rw [mem_singleton.mp here]
        omega
    · rename_i same
      obtain ⟨rfl, rfl⟩ := Prod.mk.inj (Except.ok.inj ok)
      refine ⟨sameDur, .inr ⟨first, rest ++ [row], _, rfl, rfl, rfl, ?_⟩⟩
      rw [Option.toList_none, append_nil]
      exact bucketed.joins (not_not.mp same).symm

theorem Saw.finishClosedThrough (saw : aggregator.Saw durationNs rows closed) {hi : Int}
    (ok : aggregator.finishClosedThrough hi = .ok (next, emit)) :
    ∃ bars, (∀ hd ∈ rows.head?, Bucketed durationNs hd.datetime rows bars) ∧
      (rows = [] → bars = []) ∧
      ((bars = closed ++ emit.toList) ∨ ∃ cur, bars = closed ++ [cur] ∧
        emit = none ∧ hi < cur.datetime + durationNs) := by
  obtain ⟨sameDur, ⟨rfl, rfl, noOrigin, noCurrent⟩ |
    ⟨hd, rest, cur, rfl, origin, isCurrent, bucketed⟩⟩ := saw
  · unfold DailyKlineAggregator.finishClosedThrough at ok
    rw [noCurrent] at ok
    obtain ⟨rfl, rfl⟩ := Prod.mk.inj (Except.ok.inj ok)
    exact ⟨[], by simp, fun _ => rfl, .inl rfl⟩
  · unfold DailyKlineAggregator.finishClosedThrough at ok
    rw [isCurrent] at ok
    obtain ⟨barEndNs, isEnd, ok⟩ := Result.of_bind ok
    obtain ⟨rfl, -⟩ := checkedOr_eq_ok isEnd
    refine ⟨closed ++ [cur], by simpa using bucketed, by simp, ?_⟩
    split at ok
    · obtain ⟨rfl, rfl⟩ := Prod.mk.inj (Except.ok.inj ok)
      exact .inl rfl
    · rename_i open_
      obtain ⟨rfl, rfl⟩ := Prod.mk.inj (Except.ok.inj ok)
      exact .inr ⟨cur, rfl, rfl, by rw [← sameDur]; omega⟩

end DailyKlineAggregator

end Tqsdk
