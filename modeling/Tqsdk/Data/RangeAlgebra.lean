import Tqsdk.Data.HistoryPlan
import Tqsdk.Data.TickSealing

/-!
# The range algebra of the history caches

The loops that merge, subtract and intersect lists of ranges are sweeps with their own ways to skip
and to stop.  Each computes the union, the difference or the intersection of the instants, as
ranges that are sorted, disjoint and not empty.
-/

namespace Tqsdk

open List Ranges

/-! ## Sorted and disjoint ranges -/

/-- Sorted, pairwise disjoint and without empty ranges. -/
def Spread (ranges : List (Int × Int)) : Prop :=
  (∀ range ∈ ranges, range.1 < range.2) ∧ ranges.Pairwise fun left right => left.2 ≤ right.1

/-- Sorted and disjoint; a range may be empty. -/
def InOrder (ranges : List (Int × Int)) : Prop :=
  (∀ range ∈ ranges, range.1 ≤ range.2) ∧ ranges.Pairwise fun left right => left.2 ≤ right.1

/-- The ranges lie between the ends of one. -/
def Within (outer : Int × Int) (ranges : List (Int × Int)) : Prop :=
  ∀ range ∈ ranges, outer.1 ≤ range.1 ∧ range.2 ≤ outer.2

variable {ranges lefts rs : List (Int × Int)} {cur stop inst : Int}

theorem InOrder.starts (ord : InOrder ranges) :
    ranges.Pairwise fun left right => left.1 ≤ right.1 :=
  ord.2.imp_of_mem fun mem _ pre => (ord.1 _ mem).trans pre

theorem spread_of_normal (nrm : Normal ranges) : Spread ranges :=
  ⟨nrm.1, nrm.2.imp le_of_lt⟩

theorem Spread.append (left : Spread lefts) (right : Spread rs)
    (between : ∀ l ∈ lefts, ∀ r ∈ rs, l.2 ≤ r.1) : Spread (lefts ++ rs) := by
  refine ⟨fun rng mem => ?_, pairwise_append.mpr ⟨left.2, right.2, between⟩⟩
  exact (mem_append.mp mem).elim (left.1 rng) (right.1 rng)

/-- Ranges cut into parts, each part inside its range. -/
theorem spread_flatMap {part : Int × Int → List (Int × Int)}
    (ord : ranges.Pairwise fun left right => left.2 ≤ right.1)
    (ps : ∀ rng ∈ ranges, Spread (part rng) ∧ Within rng (part rng)) :
    Spread (ranges.flatMap part) := by
  refine ⟨fun rng mem => ?_, pairwise_flatMap.mpr ⟨fun rng mem => (ps rng mem).1.2, ?_⟩⟩
  · obtain ⟨outer, inn, mem⟩ := mem_flatMap.mp mem
    exact (ps outer inn).1.1 rng mem
  · refine ord.imp_of_mem fun {left right} lMem rMem pre l inLeft r inRight => ?_
    exact (((ps left lMem).2 l inLeft).2.trans pre).trans ((ps right rMem).2 r inRight).1

/-! ## Gaps -/

theorem spread_gaps (ord : ∀ rng ∈ ranges, rng.1 ≤ rng.2) :
    Spread (gaps cur stop ranges) ∧ Within (cur, stop) (gaps cur stop ranges) := by
  have all : ∀ lo hi : Int,
      Spread (if lo < hi then [(lo, hi)] else []) ∧
        Within (lo, hi) (if lo < hi then [(lo, hi)] else []) := by
    intro lo hi
    split
    · exact ⟨⟨by simpa, pairwise_singleton _ _⟩, by simp [Within]⟩
    · exact ⟨⟨nofun, List.Pairwise.nil⟩, nofun⟩
  induction ranges generalizing cur with
  | nil => exact all cur stop
  | cons rng ranges ih =>
    have here := ord rng mem_cons_self
    have rest := fun cur => @ih cur fun alt mem => ord alt (mem_cons_of_mem _ mem)
    unfold gaps
    split
    · exact rest cur
    · rename_i inn
      obtain ⟨hd, firstIn⟩ := all cur (min rng.1 stop)
      have same : (if cur < rng.1 then [(cur, min rng.1 stop)] else []) =
          if cur < min rng.1 stop then [(cur, min rng.1 stop)] else [] :=
        if_congr (by omega) rfl rfl
      rw [same]
      by_cases done : stop ≤ max cur rng.2
      · rw [if_pos done, append_nil]
        refine ⟨hd, fun alt mem => ⟨(firstIn alt mem).1, ?_⟩⟩
        have := (firstIn alt mem).2
        omega
      · rw [if_neg done]
        obtain ⟨post, laterIn⟩ := rest (max cur rng.2)
        refine ⟨hd.append post fun l left r right => ?_, fun alt mem => ?_⟩
        · have := (firstIn l left).2
          have := (laterIn r right).1
          omega
        · rcases mem_append.mp mem with mem | mem
          · have := firstIn alt mem
            omega
          · have := laterIn alt mem
            omega

theorem gaps_of_behind (post : ∀ rng ∈ ranges, stop ≤ rng.1) :
    gaps cur stop ranges = if cur < stop then [(cur, stop)] else [] := by
  induction ranges with
  | nil => rfl
  | cons rng ranges ih =>
    rw [gaps, if_pos (Or.inr (post rng mem_cons_self)),
      ih fun alt mem => post alt (mem_cons_of_mem _ mem)]

/-- The sweep of `rangeset_difference`, which breaks behind the end. -/
theorem differenceFrom_eq_gaps (begs : ranges.Pairwise fun left right => left.1 ≤ right.1) :
    differenceFrom cur stop ranges = gaps cur stop ranges := by
  induction ranges generalizing cur with
  | nil => rfl
  | cons rng ranges ih =>
    unfold differenceFrom gaps
    rw [ih begs.of_cons, ih begs.of_cons]
    by_cases past : rng.2 ≤ cur
    · rw [if_pos past, if_pos (Or.inl past)]
    · rw [if_neg past]
      by_cases post : stop ≤ rng.1
      · rw [if_pos post, if_pos (Or.inr post), gaps_of_behind fun alt mem =>
          post.trans (rel_of_pairwise_cons begs mem)]
      · rw [if_neg post, if_neg (not_or.mpr ⟨past, post⟩)]

/-- The sweep of `subtract_ranges`, which sees clipped ranges only. -/
theorem uncovered_eq_gaps (clipped : ∀ range ∈ ranges, range.1 < range.2 ∧ range.2 ≤ stop) :
    uncovered cursor stop ranges = gaps cursor stop ranges := by
  induction ranges generalizing cursor with
  | nil => rfl
  | cons range ranges ih =>
    obtain ⟨filled, inside⟩ := clipped range mem_cons_self
    have rest := fun cursor => @ih cursor fun other mem => clipped other (mem_cons_of_mem _ mem)
    have done : ∀ cursor, stop ≤ cursor → gaps cursor stop ranges = [] := by
      intro cursor ended
      have bounds := (@spread_gaps ranges cursor stop fun other mem =>
        (clipped other (mem_cons_of_mem _ mem)).1.le)
      refine eq_nil_iff_forall_not_mem.mpr fun other mem => ?_
      have := bounds.1.1 other mem
      have := bounds.2 other mem
      omega
    rw [uncovered, gaps, rest]
    by_cases passed : range.2 ≤ cursor
    · rw [if_pos (Or.inl passed), if_neg (by omega : ¬cursor < range.1), max_eq_left passed]
      rfl
    · rw [if_neg (by omega : ¬(range.2 ≤ cursor ∨ stop ≤ range.1)),
        min_eq_left (by omega : range.1 ≤ stop)]
      split_ifs with _ ended ended
      · rw [done _ ended]
      · rfl
      · rw [done _ ended]
      · rfl

/-! ## The seven operations -/

/-- `merge_ranges` of `executor.rs`. -/
def Executor.mergeRanges (ranges : List (Int × Int)) : List (Int × Int) := coalesce (sort ranges)

def Executor.uncoveredRanges (request : Int × Int) (covered : List (Int × Int)) :
    List (Int × Int) :=
  gaps request.1 request.2 covered

/-- `merge_adjacent_ranges` of `planner.rs`. -/
def mergeAdjacentRanges (ranges : List (Int × Int)) : List (Int × Int) := coalesce (sort ranges)

def rangesetIntersection (left right : List (Int × Int)) : List (Int × Int) :=
  left.flatMap fun range => if range.2 ≤ range.1 then [] else right.filterMap (intersectRanges range)

theorem intersectRanges_some {left right part : Int × Int}
    (isPart : intersectRanges left right = some part) :
    part = (max left.1 right.1, min left.2 right.2) ∧ part.1 < part.2 := by
  unfold intersectRanges at isPart
  dsimp only at isPart
  split_ifs at isPart with full
  obtain rfl := Option.some.inj isPart
  exact ⟨rfl, full⟩

theorem covers_rangesetIntersection : Covers (rangesetIntersection lefts rs) inst ↔
    Covers lefts inst ∧ Covers rs inst := by
  have flipped : ∀ outer : Int × Int, rs.filterMap (intersectRanges outer) =
      rs.filterMap fun rng => intersectRanges rng outer := by
    intro outer
    refine filterMap_congr fun rng _ => ?_
    unfold intersectRanges
    rw [max_comm, min_comm]
  rw [rangesetIntersection, covers_flatMap]
  constructor
  · rintro ⟨outer, mem, inn⟩
    split at inn
    · exact absurd inn covers_nil
    · rw [flipped, covers_intersections] at inn
      exact ⟨⟨outer, mem, inn.2⟩, inn.1⟩
  · rintro ⟨⟨outer, mem, bds⟩, inn⟩
    refine ⟨outer, mem, ?_⟩
    rw [if_neg (by omega), flipped, covers_intersections]
    exact ⟨inn, bds⟩

theorem spread_rangesetIntersection (left : lefts.Pairwise fun left right => left.2 ≤ right.1)
    (right : rs.Pairwise fun left right => left.2 ≤ right.1) :
    Spread (rangesetIntersection lefts rs) := by
  refine spread_flatMap left fun outer _ => ?_
  split
  · exact ⟨⟨nofun, List.Pairwise.nil⟩, nofun⟩
  · refine ⟨⟨fun rng mem => ?_, pairwise_filterMap.mpr ?_⟩, fun rng mem => ?_⟩
    · obtain ⟨_, -, isPart⟩ := mem_filterMap.mp mem
      exact (intersectRanges_some isPart).2
    · refine right.imp fun pre l isLeft r isRight => ?_
      rw [(intersectRanges_some isLeft).1, (intersectRanges_some isRight).1]
      exact (min_le_right _ _).trans (pre.trans (le_max_right _ _))
    · obtain ⟨_, -, isPart⟩ := mem_filterMap.mp mem
      rw [(intersectRanges_some isPart).1]
      exact ⟨le_max_left _ _, min_le_left _ _⟩

theorem covers_rangesetDifference (ord : InOrder rs) :
    Covers (rangesetDifference lefts rs) inst ↔ Covers lefts inst ∧ ¬ Covers rs inst := by
  rw [rangesetDifference, covers_flatMap]
  simp only [differenceFrom_eq_gaps ord.starts]
  constructor
  · rintro ⟨outer, mem, inn⟩
    split at inn
    · exact absurd inn covers_nil
    · obtain ⟨bds, free⟩ := (covers_gaps ord.starts).mp inn
      exact ⟨⟨outer, mem, bds⟩, free⟩
  · rintro ⟨⟨outer, mem, bds⟩, free⟩
    refine ⟨outer, mem, ?_⟩
    rw [if_neg (by omega)]
    exact (covers_gaps ord.starts).mpr ⟨bds, free⟩

theorem spread_rangesetDifference (left : lefts.Pairwise fun left right => left.2 ≤ right.1)
    (ord : InOrder rs) : Spread (rangesetDifference lefts rs) := by
  refine spread_flatMap left fun outer _ => ?_
  split
  · exact ⟨⟨nofun, List.Pairwise.nil⟩, nofun⟩
  · rw [differenceFrom_eq_gaps ord.starts]
    exact spread_gaps ord.1

theorem spread_subtractRanges (req : Int × Int) (cov : List (Int × Int)) :
    Spread (subtractRanges req cov) := by
  have clipped : ∀ rng ∈ sort (cov.filterMap fun rng => intersectRanges req rng),
      rng.1 < rng.2 ∧ rng.2 ≤ req.2 := by
    intro rng mem
    obtain ⟨_, -, isPart⟩ := mem_filterMap.mp (mem_sort.mp mem)
    obtain ⟨same, full⟩ := intersectRanges_some isPart
    exact ⟨full, same ▸ min_le_left _ _⟩
  rw [subtractRanges, uncovered_eq_gaps clipped]
  exact (spread_gaps fun rng mem => (clipped rng mem).1.le).1

theorem subtractRange_spec {rng : Int × Int} (full : rng.1 < rng.2) (excl : Int × Int) :
    Spread (subtractRange rng excl) ∧ Within rng (subtractRange rng excl) ∧
      ∀ inst, Covers (subtractRange rng excl) inst ↔
        (rng.1 ≤ inst ∧ inst < rng.2) ∧ ¬(excl.1 ≤ inst ∧ inst < excl.2) := by
  unfold subtractRange Spread Within
  dsimp only
  split_ifs with outs left right right <;>
    simp only [cons_append, nil_append, mem_cons, not_mem_nil, or_false,
      forall_eq_or_imp, forall_eq, pairwise_cons, List.Pairwise.nil, covers_cons, covers_nil,
      append_nil] <;> grind

/-- The loop of `exclude_proven_empty_tick_ranges`. -/
def subtractAll (remaining excluded : List (Int × Int)) : List (Int × Int) :=
  excluded.foldl (fun remaining empty =>
    remaining.flatMap fun range => subtractRange range empty) remaining

theorem subtractAll_spec {remaining : List (Int × Int)} (spread : Spread remaining)
    (excluded : List (Int × Int)) : Spread (subtractAll remaining excluded) ∧
      ∀ instant, Covers (subtractAll remaining excluded) instant ↔
        Covers remaining instant ∧ ¬ Covers excluded instant := by
  induction excluded generalizing remaining with
  | nil => exact ⟨spread, by simp [subtractAll]⟩
  | cons empty excluded ih =>
    have parts := fun range mem => subtractRange_spec (spread.1 range mem) empty
    obtain ⟨after, covers⟩ := ih (spread_flatMap spread.2 fun range mem =>
      ⟨(parts range mem).1, (parts range mem).2.1⟩)
    refine ⟨after, fun instant => ?_⟩
    rw [subtractAll, foldl_cons, ← subtractAll, covers, covers_flatMap, covers_cons, not_or,
      ← and_assoc]
    refine and_congr_left fun _ => ?_
    constructor
    · rintro ⟨range, mem, inside⟩
      obtain ⟨bounds, free⟩ := ((parts range mem).2.2 instant).mp inside
      exact ⟨⟨range, mem, bounds⟩, free⟩
    · rintro ⟨⟨range, mem, bounds⟩, free⟩
      exact ⟨range, mem, ((parts range mem).2.2 instant).mpr ⟨bounds, free⟩⟩

/-- Each operation computes with the instants, and its result is sorted and disjoint and has no
empty range. -/
theorem range_operations_exact :
    (∀ request covered, Spread (subtractRanges request covered) ∧ ∀ instant,
      Covers (subtractRanges request covered) instant ↔
        Covers [request] instant ∧ ¬ Covers covered instant) ∧
    (∀ ranges : List (Int × Int), (∀ range ∈ ranges, range.1 < range.2) →
      Spread (Executor.mergeRanges ranges) ∧ Spread (mergeAdjacentRanges ranges) ∧ ∀ instant,
        (Covers (Executor.mergeRanges ranges) instant ↔ Covers ranges instant) ∧
        (Covers (mergeAdjacentRanges ranges) instant ↔ Covers ranges instant)) ∧
    (∀ (slice : PlannedSourceSlice) (empty : List (Int × Int)), slice.range.1 < slice.range.2 →
      Spread ((excludeProvenEmptyTickRanges [slice] empty).map PlannedSourceSlice.range) ∧
      ∀ instant,
        Covers ((excludeProvenEmptyTickRanges [slice] empty).map PlannedSourceSlice.range) instant ↔
          Covers [slice.range] instant ∧ ¬ Covers empty instant) ∧
    (∀ base covered, InOrder base → InOrder covered →
      Spread (rangesetDifference base covered) ∧ Spread (rangesetIntersection base covered) ∧
      ∀ instant,
        (Covers (rangesetDifference base covered) instant ↔
          Covers base instant ∧ ¬ Covers covered instant) ∧
        (Covers (rangesetIntersection base covered) instant ↔
          Covers base instant ∧ Covers covered instant)) ∧
    ∀ request covered, InOrder covered →
      Spread (Executor.uncoveredRanges request covered) ∧ ∀ instant,
        Covers (Executor.uncoveredRanges request covered) instant ↔
          Covers [request] instant ∧ ¬ Covers covered instant := by
  have single : ∀ (range : Int × Int) instant,
      Covers [range] instant ↔ range.1 ≤ instant ∧ instant < range.2 := by simp
  refine ⟨fun request covered => ?_, fun ranges filled => ?_, fun slice empty filled => ?_,
    fun base covered left right => ?_, fun request covered ordered => ?_⟩
  · refine ⟨spread_subtractRanges request covered, fun instant => ?_⟩
    rw [covers_subtractRanges, single]
  · have merged := spread_of_normal (normal_coalesce_sort filled)
    exact ⟨merged, merged, fun _ => ⟨covers_coalesce_sort, covers_coalesce_sort⟩⟩
  · have same : (excludeProvenEmptyTickRanges [slice] empty).map PlannedSourceSlice.range =
        subtractAll [slice.range] empty := by
      simp [excludeProvenEmptyTickRanges, subtractAll, Function.comp_def]
    rw [same]
    exact subtractAll_spec ⟨by simpa using filled, pairwise_singleton _ _⟩ empty
  · exact ⟨spread_rangesetDifference left.2 right, spread_rangesetIntersection left.2 right.2,
      fun _ => ⟨covers_rangesetDifference right, covers_rangesetIntersection⟩⟩
  · refine ⟨(spread_gaps ordered.1).1, fun instant => ?_⟩
    rw [single, Executor.uncoveredRanges, covers_gaps ordered.starts]

end Tqsdk
