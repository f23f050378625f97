import Tqsdk.Data.TradingDay
import Tqsdk.Data.Rows
import Tqsdk.Lib.Ranges
import Mathlib.Data.List.SplitBy
import Mathlib.Data.List.Flatten

/-!
# The writes behind a tick segment with its coverage

`write_segment_with_coverage` of `history_series_cache/tqbn/mod.rs`: a segment that stays in the
file of one trading day is one update of that file, rows and coverage together.  Any other one is
written day by day, first all rows and then the coverage.  The storage may fail at each of the
updates; those before it are kept.
-/

namespace Tqsdk

open List

/-! ## Partitions -/

structure TqbnPartitionRange where
  day : Int
  startNs : Int
  endNs : Int
  deriving DecidableEq

def TqbnPartitionRange.range (partition : TqbnPartitionRange) : Int × Int :=
  (partition.startNs, partition.endNs)

def validateCoverageRange (startNs endNs : Int) : Except DataError Unit :=
  if endNs ≤ startNs then
    .error (.invalidState "history TQBN declared range start must be less than end")
  else .ok ()

/-- The loop of `partition_ranges`, for at most `fuel` partitions. -/
def partitionLoop (endNs : Int) : Nat → Int → Except DataError (List TqbnPartitionRange)
  | 0, _ => .ok []
  | fuel + 1, cursor =>
    if cursor < endNs then do
      let day := tradingDayForTimestampNs cursor
      let boundary ← tradingDayEndNs day
      -- the boundary of the day of `cursor` is always after `cursor`
      let next := if boundary ≤ cursor then cursor + 1 else min boundary endNs
      return ⟨day, cursor, next⟩ :: (← partitionLoop endNs fuel next)
    else .ok []

/-- Every partition but the first and the last one has at least a day. -/
def partitionFuel (startNs endNs : Int) : Nat := ((endNs - startNs) / nanosPerDay).toNat + 2

def partitionRanges (startNs endNs : Int) : Except DataError (List TqbnPartitionRange) := do
  validateCoverageRange startNs endNs
  partitionLoop endNs (partitionFuel startNs endNs) startNs

/-- `partition_rows_by_trading_day`. -/
def partitionTickSlices (rows : List Tick) : List (List Tick) :=
  rows.splitBy fun left right =>
    decide (tradingDayForTimestampNs left.datetime = tradingDayForTimestampNs right.datetime)

/-- 18:00 CST of some day. -/
def AtCutoff (timestampNs : Int) : Prop :=
  ∃ day : Int, timestampNs = day * nanosPerDay + 10 * nanosPerHour

theorem tradingDayEnd_spec {ts bdry : Int}
    (ok : tradingDayEndNs (tradingDayForTimestampNs ts) = .ok bdry) :
    ts < bdry ∧ AtCutoff bdry := by
  unfold tradingDayEndNs tradingDayBoundaryNs at ok
  split at ok
  · rename_i hit
    obtain ⟨-, rfl⟩ := I64.checked_eq_some.mp hit
    obtain rfl := Except.ok.inj ok
    constructor
    · unfold tradingDayForTimestampNs normalizeWeekendTradingDay
      dsimp only
      unfold cstOffsetNs nanosPerDay nanosPerHour nanosPerSecond
      split_ifs <;> omega
    · refine ⟨tradingDayForTimestampNs ts, ?_⟩
      unfold cstOffsetNs nanosPerHour
      omega
  · cases ok

/-- The fuel reaches the end.  After the first partition the cursor is at a cutoff, and every
further one but the last has a day or more. -/
def EnoughFuel (endNs cursor : Int) (fuel : Nat) : Prop :=
  endNs ≤ cursor ∨ (AtCutoff cursor ∧ endNs - cursor ≤ fuel * nanosPerDay) ∨
    endNs - cursor + nanosPerDay ≤ fuel * nanosPerDay

variable {endNs : Int} {coverage : List (Int × Int)}

theorem enoughFuel_next {cur bdry : Int} {fuel : Nat} (post : cur < bdry)
    (atCutoff : AtCutoff bdry) (fits : EnoughFuel endNs cur (fuel + 1)) :
    EnoughFuel endNs (min bdry endNs) fuel := by
  unfold EnoughFuel at *
  rcases le_total endNs bdry with last | more
  · exact .inl (le_min last le_rfl)
  · rw [min_eq_left more]
    refine .inr (.inl ⟨atCutoff, ?_⟩)
    obtain ⟨day, rfl⟩ := atCutoff
    rcases fits with emp | ⟨⟨lo, rfl⟩, bound⟩ | bound
    · omega
    · push_cast at bound
      unfold nanosPerDay nanosPerHour nanosPerSecond at *
      omega
    · push_cast at bound
      unfold nanosPerDay nanosPerHour nanosPerSecond at *
      omega

theorem enoughFuel_partitionFuel (lo endNs : Int) :
    EnoughFuel endNs lo (partitionFuel lo endNs) := by
  refine .inr (.inr ?_)
  unfold partitionFuel nanosPerDay nanosPerSecond
  push_cast
  omega

/-- With enough fuel the partitions tile the range. -/
theorem covers_partitionLoop {cur : Int} {fuel : Nat} {ps : List TqbnPartitionRange}
    (ok : partitionLoop endNs fuel cur = .ok ps) (fits : EnoughFuel endNs cur fuel) (time : Int) :
    Ranges.Covers (ps.map (·.range)) time ↔ cur ≤ time ∧ time < endNs := by
  induction fuel generalizing cur ps with
  | zero =>
    obtain rfl := Except.ok.inj ok
    unfold EnoughFuel nanosPerDay nanosPerSecond at fits
    simp only [map_nil, Ranges.covers_nil, false_iff]
    omega
  | succ fuel ih =>
    unfold partitionLoop at ok
    split at ok
    · rename_i mem
      obtain ⟨bdry, isBoundary, ok⟩ := Result.bind_eq_ok.mp ok
      obtain ⟨rest, isRest, ok⟩ := Result.bind_eq_ok.mp ok
      obtain rfl := Except.ok.inj ok
      obtain ⟨post, atCutoff⟩ := tradingDayEnd_spec isBoundary
      rw [if_neg post.not_ge] at isRest ⊢
      have more := enoughFuel_next post atCutoff fits
      rw [map_cons, Ranges.covers_cons, ih isRest more]
      unfold TqbnPartitionRange.range
      dsimp only
      omega
    · obtain rfl := Except.ok.inj ok
      simp only [map_nil, Ranges.covers_nil, false_iff]
      omega

theorem covers_partitionRanges {lo : Int} {ps : List TqbnPartitionRange}
    (ok : partitionRanges lo endNs = .ok ps) (time : Int) :
    Ranges.Covers (ps.map (·.range)) time ↔ lo ≤ time ∧ time < endNs := by
  obtain ⟨_, -, ok⟩ := Result.bind_eq_ok.mp ok
  exact covers_partitionLoop ok (enoughFuel_partitionFuel lo endNs) time

/-! ## The writes -/

/-- One update of the file of a trading day. -/
structure TickWrite where
  rows : List Tick
  coverage : List (Int × Int)
  deriving DecidableEq

/-- The updates of a call in their order, and the error that the call itself raises after them. -/
structure TickWritePlan where
  writes : List TickWrite
  error : Option DataError

/-- `append_coverage` of one commit after the other. -/
def coverageWrites : List (Int × Int) → TickWritePlan
  | [] => ⟨[], none⟩
  | range :: rest =>
    match partitionRanges range.1 range.2 with
    | .error error => ⟨[], some error⟩
    | .ok partitions =>
      let later := coverageWrites rest
      ⟨partitions.map (fun partition => ⟨[], [partition.range]⟩) ++ later.writes, later.error⟩

/-- `write_segment_with_coverage_fallback`. -/
def fallbackWrites (rows : List Tick) (coverage : List (Int × Int)) : TickWritePlan :=
  let later := coverageWrites coverage
  ⟨(partitionTickSlices rows).map (fun slice => ⟨slice, []⟩) ++ later.writes, later.error⟩

/-- The loop over the commits of `write_segment_with_coverage`; `none` for the fallback. -/
def inOneDay (day : Int) : List (Int × Int) → Except DataError (Option (List (Int × Int)))
  | [] => .ok (some [])
  | range :: rest => do
      match ← partitionRanges range.1 range.2 with
      | [partition] =>
        if partition.day = day then
          return (← inOneDay day rest).map (partition.range :: ·)
        else return none
      | _ => return none

/-- `write_segment_with_coverage` of ticks without a declared range. -/
def segmentWrites (rows : List Tick) (coverage : List (Int × Int)) : TickWritePlan :=
  match partitionTickSlices rows with
  | [first :: slice] =>
    match inOneDay (tradingDayForTimestampNs first.datetime) coverage with
    | .error error => ⟨[], some error⟩
    | .ok none => fallbackWrites rows coverage
    | .ok (some []) => fallbackWrites rows coverage
    | .ok (some ranges) => ⟨[⟨first :: slice, ranges⟩], none⟩
  | _ => fallbackWrites rows coverage

/-- The ticks of a symbol in the cache and the ranges that are marked complete. -/
structure TickCache where
  rows : List Tick
  coverage : List (Int × Int)
  deriving DecidableEq

def TickCache.apply (cache : TickCache) (write : TickWrite) : TickCache :=
  ⟨cache.rows ++ write.rows, cache.coverage ++ write.coverage⟩

/-- A call whose first `n` updates reach the storage under the fault `some n`, before it fails. -/
def TickCache.perform (cache : TickCache) (plan : TickWritePlan) (fault : Option Nat) :
    TickCache × Except DataError Unit :=
  match fault with
  | some done =>
    ((plan.writes.take done).foldl TickCache.apply cache,
      .error (.io "history TQBN file was not written"))
  | none =>
    (plan.writes.foldl TickCache.apply cache,
      match plan.error with
      | some error => .error error
      | none => .ok ())

/-! ## Rows before their coverage -/

theorem TickCache.foldl_apply (c : TickCache) (ws : List TickWrite) :
    ws.foldl TickCache.apply c =
      ⟨c.rows ++ ws.flatMap (·.rows), c.coverage ++ ws.flatMap (·.coverage)⟩ := by
  induction ws generalizing c with
  | nil => simp
  | cons w rest ih =>
    rw [foldl_cons, ih]
    simp [TickCache.apply]

/-- Updates write nothing but the given rows and coverage, and coverage only after all rows. -/
structure Backed (rows : List Tick) (coverage : List (Int × Int)) (writes : List TickWrite) :
    Prop where
  rows_mem : ∀ row ∈ writes.flatMap (·.rows), row ∈ rows
  covered : ∀ instant, Ranges.Covers (writes.flatMap (·.coverage)) instant →
    Ranges.Covers coverage instant ∧ ∀ row ∈ rows, row ∈ writes.flatMap (·.rows)

theorem coverageWrites_rows (coverage : List (Int × Int)) :
    ∀ w ∈ (coverageWrites coverage).writes, w.rows = [] := by
  induction coverage with
  | nil => exact fun _ mem => (by cases mem)
  | cons rng rest ih =>
    unfold coverageWrites
    split
    · exact fun _ mem => (by cases mem)
    · intro w mem
      rcases mem_append.mp mem with here | later
      · obtain ⟨part, -, rfl⟩ := mem_map.mp here
        rfl
      · exact ih w later

theorem flatMap_partitions (ps : List TqbnPartitionRange) :
    (ps.map fun part => (⟨[], [part.range]⟩ : TickWrite)).flatMap (·.coverage) =
      ps.map (·.range) := by
  induction ps with
  | nil => rfl
  | cons part rest ih => simpa using ih

theorem covers_coverageWrites (coverage : List (Int × Int)) (inst : Int)
    (cov : Ranges.Covers ((coverageWrites coverage).writes.flatMap (·.coverage)) inst) :
    Ranges.Covers coverage inst := by
  induction coverage with
  | nil => exact absurd cov Ranges.covers_nil
  | cons rng rest ih =>
    unfold coverageWrites at cov
    rw [Ranges.covers_cons]
    split at cov
    · exact absurd cov Ranges.covers_nil
    · rename_i ps isPartitions
      dsimp only at cov
      rw [flatMap_append, flatMap_partitions, Ranges.covers_append,
        covers_partitionRanges isPartitions] at cov
      exact cov.imp_right ih

theorem covers_coverageWrites_of_ok (ok : (coverageWrites coverage).error = none) {inst : Int}
    (cov : Ranges.Covers coverage inst) :
    Ranges.Covers ((coverageWrites coverage).writes.flatMap (·.coverage)) inst := by
  induction coverage with
  | nil => exact absurd cov Ranges.covers_nil
  | cons rng rest ih =>
    unfold coverageWrites at ok ⊢
    rw [Ranges.covers_cons] at cov
    split at ok
    · cases ok
    · rename_i ps isPartitions
      dsimp only at ok ⊢
      rw [flatMap_append, flatMap_partitions, Ranges.covers_append,
        covers_partitionRanges isPartitions]
      exact cov.imp_right (ih ok)

theorem flatMap_slices (rows : List Tick) :
    ((partitionTickSlices rows).map fun cut => (⟨cut, []⟩ : TickWrite)).flatMap (·.rows) =
      rows := by
  rw [flatMap_map]
  exact flatMap_id'.trans (flatten_splitBy _ rows)

theorem flatMap_slices_coverage (rows : List Tick) :
    ((partitionTickSlices rows).map fun cut => (⟨cut, []⟩ : TickWrite)).flatMap (·.coverage) =
      [] := by
  rw [flatMap_map]
  exact flatMap_eq_nil_iff.mpr fun _ _ => rfl

theorem fallbackWrites_backed (rows : List Tick) (coverage : List (Int × Int)) (done : Nat) :
    Backed rows coverage ((fallbackWrites rows coverage).writes.take done) := by
  unfold fallbackWrites
  dsimp only
  have noRows := coverageWrites_rows coverage
  have inCoverage := covers_coverageWrites coverage
  have allRows := flatMap_slices rows
  have noCoverage := flatMap_slices_coverage rows
  generalize (partitionTickSlices rows).map (fun cut => (⟨cut, []⟩ : TickWrite)) = slices at *
  generalize (coverageWrites coverage).writes = commits at *
  rw [take_append]
  have laterRows : (commits.take (done - slices.length)).flatMap (·.rows) = [] :=
    flatMap_eq_nil_iff.mpr fun w mem => noRows w (mem_of_mem_take mem)
  have earlierCoverage : (slices.take done).flatMap (·.coverage) = [] := by
    rw [flatMap_eq_nil_iff] at noCoverage ⊢
    exact fun w mem => noCoverage w (mem_of_mem_take mem)
  constructor
  · intro row mem
    rw [flatMap_append, laterRows, append_nil] at mem
    rw [← allRows]
    exact (List.Sublist.flatMap (take_sublist _ _) _).subset mem
  · intro time cov
    rw [flatMap_append, earlierCoverage, nil_append] at cov
    refine ⟨inCoverage time (cov.of_subset ?_), ?_⟩
    · exact fun rng mem => (List.Sublist.flatMap (take_sublist _ _) _).subset mem
    · -- some commit was reached, so every slice was written before
      have rch : slices.length ≤ done := by
        by_contra short
        rw [Nat.sub_eq_zero_of_le (not_le.mp short).le, take_zero] at cov
        exact Ranges.covers_nil cov
      rw [take_of_length_le rch, flatMap_append, allRows]
      exact fun row mem => mem_append_left _ mem

theorem inOneDay_covers {day : Int} {rngs : List (Int × Int)}
    (ok : inOneDay day coverage = .ok (some rngs)) (inst : Int) :
    Ranges.Covers rngs inst ↔ Ranges.Covers coverage inst := by
  induction coverage generalizing rngs with
  | nil =>
    obtain rfl := Option.some.inj (Except.ok.inj ok)
    rfl
  | cons rng rest ih =>
    unfold inOneDay at ok
    obtain ⟨ps, isPartitions, ok⟩ := Result.bind_eq_ok.mp ok
    split at ok
    · rename_i part
      split at ok
      · obtain ⟨post, isLater, ok⟩ := Result.bind_eq_ok.mp ok
        cases post with
        | none => cases Except.ok.inj ok
        | some post =>
          obtain rfl := Option.some.inj (Except.ok.inj ok)
          have one := covers_partitionRanges isPartitions inst
          rw [map_singleton, Ranges.covers_cons] at one
          rw [Ranges.covers_cons, Ranges.covers_cons, ih isLater, ← one]
          simp
      · cases Except.ok.inj ok
    · cases Except.ok.inj ok

theorem segmentWrites_cases (rows : List Tick) (coverage : List (Int × Int)) :
    (∃ error, segmentWrites rows coverage = ⟨[], some error⟩) ∨
      segmentWrites rows coverage = fallbackWrites rows coverage ∨
      ∃ rngs, segmentWrites rows coverage = ⟨[⟨rows, rngs⟩], none⟩ ∧
        ∀ inst, Ranges.Covers rngs inst ↔ Ranges.Covers coverage inst := by
  unfold segmentWrites
  split
  · rename_i hd cut isSlice
    split
    · exact .inl ⟨_, rfl⟩
    · exact .inr (.inl rfl)
    · exact .inr (.inl rfl)
    · rename_i rngs _ isRanges
      refine .inr (.inr ⟨rngs, ?_, inOneDay_covers isRanges⟩)
      have join := flatten_splitBy (fun left right : Tick => decide
        (tradingDayForTimestampNs left.datetime = tradingDayForTimestampNs right.datetime)) rows
      unfold partitionTickSlices at isSlice
      rw [isSlice, flatten_singleton] at join
      rw [join]
  · exact .inr (.inl rfl)

theorem segmentWrites_backed (rows : List Tick) (coverage : List (Int × Int)) (done : Nat) :
    Backed rows coverage ((segmentWrites rows coverage).writes.take done) := by
  obtain ⟨error, err⟩ | isFallback | ⟨rngs, isSingle, covers⟩ := segmentWrites_cases rows coverage
  · rw [err, take_nil]
    exact ⟨fun _ mem => (by cases mem),
      fun _ cov => absurd cov Ranges.covers_nil⟩
  · rw [isFallback]
    exact fallbackWrites_backed rows coverage done
  · rw [isSingle]
    cases done with
    | zero =>
      exact ⟨fun _ mem => (by cases mem),
        fun _ cov => absurd cov Ranges.covers_nil⟩
    | succ done =>
      constructor
      · simp
      · intro time cov
        rw [take_succ_cons, take_nil, flatMap_singleton] at cov ⊢
        exact ⟨(covers time).mp cov, fun _ mem => mem⟩

theorem segmentWrites_complete {rows : List Tick} {coverage : List (Int × Int)}
    (ok : (segmentWrites rows coverage).error = none) :
    (segmentWrites rows coverage).writes.flatMap (·.rows) = rows ∧
      ∀ inst, Ranges.Covers coverage inst →
        Ranges.Covers ((segmentWrites rows coverage).writes.flatMap (·.coverage)) inst := by
  obtain ⟨error, err⟩ | isFallback | ⟨rngs, isSingle, covers⟩ := segmentWrites_cases rows coverage
  · rw [err] at ok
    cases ok
  · rw [isFallback] at ok ⊢
    unfold fallbackWrites at ok ⊢
    dsimp only at ok ⊢
    have noRows : (coverageWrites coverage).writes.flatMap (·.rows) = [] :=
      flatMap_eq_nil_iff.mpr (coverageWrites_rows coverage)
    constructor
    · rw [flatMap_append, flatMap_slices, noRows, append_nil]
    · intro inst cov
      rw [flatMap_append, flatMap_slices_coverage, nil_append]
      exact covers_coverageWrites_of_ok ok cov
  · rw [isSingle]
    constructor
    · exact flatMap_singleton _ _
    · intro inst cov
      rw [flatMap_singleton]
      exact (covers inst).mpr cov

/-- What a call leaves in the cache, whether it fails or not. -/
theorem TickCache.perform_spec (c : TickCache) (rows : List Tick)
    (coverage : List (Int × Int)) (err : Option Nat) :
    ∃ ws, Backed rows coverage ws ∧
      (c.perform (segmentWrites rows coverage) err).1 =
        ⟨c.rows ++ ws.flatMap (·.rows), c.coverage ++ ws.flatMap (·.coverage)⟩ ∧
      ((c.perform (segmentWrites rows coverage) err).2 = .ok () →
        ws.flatMap (·.rows) = rows ∧
          ∀ time, Ranges.Covers coverage time → Ranges.Covers (ws.flatMap (·.coverage)) time) := by
  unfold perform
  cases err with
  | some done =>
    refine ⟨(segmentWrites rows coverage).writes.take done, segmentWrites_backed _ _ _,
      foldl_apply _ _, fun ok => ?_⟩
    cases ok
  | none =>
    refine ⟨(segmentWrites rows coverage).writes, ?_, foldl_apply _ _, fun ok => ?_⟩
    · have all := segmentWrites_backed rows coverage (segmentWrites rows coverage).writes.length
      rwa [take_length] at all
    · dsimp only at ok
      split at ok
      · cases ok
      · rename_i noError
        exact segmentWrites_complete noError

end Tqsdk
