import Mathlib.Algebra.Order.Ring.Int
import Mathlib.Data.Int.ConditionallyCompleteOrder
import Tqsdk.Lib.Ranges
import Mathlib.Algebra.BigOperators.Group.List.Basic
import Mathlib.Order.Bounds.Basic

/-!
# Time inside ranges

How much of a list of ranges lies before a point.  For ranges in normal form this is the sum of
the widths of the earlier ranges and the part of the range around the point, and a value that is
reached has a first and a last point.
-/

/-- The index that a binary search for the end of a partition finds. -/
def partitionPoint {α : Type} (holds : α → Bool) (items : List α) : Nat :=
  (items.takeWhile holds).length

theorem partitionPoint_split {α : Type} (hld : α → Bool) (its : List α) :
    ∃ done rest, its = done ++ rest ∧ partitionPoint hld its = done.length ∧
      (∀ item ∈ done, hld item = true) ∧ ∀ item, rest.head? = some item → hld item = false := by
  induction its with
  | nil => exact ⟨[], [], rfl, rfl, List.forall_mem_nil _, fun item head => by cases head⟩
  | cons hd its ih =>
    cases val : hld hd with
    | false =>
      refine ⟨[], hd :: its, rfl, ?_, List.forall_mem_nil _, ?_⟩
      · rw [partitionPoint, List.takeWhile_cons, val]
        rfl
      · intro item head
        rw [← Option.some.inj head]
        exact val
    | true =>
      obtain ⟨done, rest, rfl, idx, all, next⟩ := ih
      refine ⟨hd :: done, rest, rfl, ?_, ?_, next⟩
      · rw [partitionPoint, List.takeWhile_cons, val, if_pos rfl, List.length_cons,
          List.length_cons, ← idx]
        rfl
      · exact List.forall_mem_cons.mpr ⟨val, all⟩

namespace Ranges

open List

/-- The length of all ranges. -/
def total (ranges : List (Int × Int)) : Int := (ranges.map fun range => range.2 - range.1).sum

/-- How much of the ranges lies before a point. -/
def elapsed (ranges : List (Int × Int)) (point : Int) : Int :=
  (ranges.map fun range => max 0 (min range.2 point - range.1)).sum

/-- How much of the ranges lies between two points. -/
def lengthWithin (ranges : List (Int × Int)) (start stop : Int) : Int :=
  (ranges.map fun range => max 0 (min range.2 stop - max range.1 start)).sum

variable {ranges done rest : List (Int × Int)} {range : Int × Int} {point alt start stop : Int}

theorem total_append (ranges alts : List (Int × Int)) :
    total (ranges ++ alts) = total ranges + total alts := by
  unfold total
  rw [map_append, sum_append]

theorem total_cons (range : Int × Int) (ranges : List (Int × Int)) :
    total (range :: ranges) = range.2 - range.1 + total ranges := by
  unfold total
  rw [map_cons, sum_cons]

theorem elapsed_append (ranges alts : List (Int × Int)) (point : Int) :
    elapsed (ranges ++ alts) point = elapsed ranges point + elapsed alts point := by
  unfold elapsed
  rw [map_append, sum_append]

theorem elapsed_cons (range : Int × Int) (ranges : List (Int × Int)) (point : Int) :
    elapsed (range :: ranges) point =
      max 0 (min range.2 point - range.1) + elapsed ranges point := by
  unfold elapsed
  rw [map_cons, sum_cons]

theorem lengthWithin_eq (ord : ∀ range ∈ ranges, range.1 < range.2) (inOrd : start ≤ stop) :
    lengthWithin ranges start stop = elapsed ranges stop - elapsed ranges start := by
  induction ranges with
  | nil => rfl
  | cons range ranges ih =>
    have pos := ord range mem_cons_self
    have alts := ih fun range mem => ord range (mem_cons_of_mem _ mem)
    have split : lengthWithin (range :: ranges) start stop =
        max 0 (min range.2 stop - max range.1 start) + lengthWithin ranges start stop := by
      unfold lengthWithin
      rw [map_cons, sum_cons]
    rw [split, alts, elapsed_cons, elapsed_cons]
    omega

theorem elapsed_nonneg (ranges : List (Int × Int)) (point : Int) : 0 ≤ elapsed ranges point := by
  induction ranges with
  | nil => exact le_refl 0
  | cons range ranges ih =>
    rw [elapsed_cons]
    omega

theorem elapsed_mono (ranges : List (Int × Int)) (inOrd : point ≤ alt) :
    elapsed ranges point ≤ elapsed ranges alt := by
  induction ranges with
  | nil => exact le_refl 0
  | cons range ranges ih =>
    rw [elapsed_cons, elapsed_cons]
    omega

section

variable (ord : ∀ range ∈ ranges, range.1 < range.2)

include ord

theorem total_nonneg : 0 ≤ total ranges := by
  induction ranges with
  | nil => exact le_refl 0
  | cons range ranges ih =>
    have pos := ord range mem_cons_self
    have alts := ih fun range mem => ord range (mem_cons_of_mem _ mem)
    rw [total_cons]
    omega

theorem elapsed_le_total (point : Int) :
    elapsed ranges point ≤ total ranges := by
  induction ranges with
  | nil => exact le_refl 0
  | cons range ranges ih =>
    have pos := ord range mem_cons_self
    have alts := ih fun range mem => ord range (mem_cons_of_mem _ mem)
    rw [elapsed_cons, total_cons]
    omega

theorem elapsed_of_after (post : ∀ range ∈ ranges, range.2 ≤ point) :
    elapsed ranges point = total ranges := by
  induction ranges with
  | nil => rfl
  | cons range ranges ih =>
    have pos := ord range mem_cons_self
    have fin := post range mem_cons_self
    rw [elapsed_cons, total_cons, ih (fun range mem => ord range (mem_cons_of_mem _ mem)) (fun
      range mem => post range (mem_cons_of_mem _ mem))]
    omega

end

theorem elapsed_of_before (pre : ∀ range ∈ ranges, point ≤ range.1) :
    elapsed ranges point = 0 := by
  induction ranges with
  | nil => rfl
  | cons range ranges ih =>
    have post := pre range mem_cons_self
    rw [elapsed_cons, ih fun range mem => pre range (mem_cons_of_mem _ mem)]
    omega

/-- Ranges in normal form between two points are not longer than the way between them. -/
theorem total_le (nrm : Normal ranges) (inOrd : start ≤ stop)
    (inn : ∀ range ∈ ranges, start ≤ range.1 ∧ range.2 ≤ stop) :
    total ranges ≤ stop - start := by
  induction ranges generalizing start with
  | nil => exact Int.sub_nonneg_of_le inOrd
  | cons range ranges ih =>
    have hd := inn range mem_cons_self
    have pos := nrm.1 range mem_cons_self
    have alts := ih nrm.tail hd.2 fun alt mem =>
      ⟨(rel_of_pairwise_cons nrm.2 mem).le, (inn alt (mem_cons_of_mem _ mem)).2⟩
    rw [total_cons]
    omega

section Inverse

variable (nrm : Normal (done ++ range :: rest))
include nrm

/-- The ranges on both sides of a range in normal form. -/
theorem sides : (∀ pre ∈ done, pre.2 < range.1) ∧ (∀ post ∈ rest, range.2 < post.1) ∧
    range.1 < range.2 ∧ ∀ pre ∈ done, pre.1 < pre.2 := by
  obtain ⟨-, inner, across⟩ := pairwise_append.mp nrm.2
  refine ⟨fun pre mem => across pre mem range mem_cons_self, fun post mem =>
    rel_of_pairwise_cons inner mem, nrm.1 range (mem_append_right _ mem_cons_self),
    fun pre mem => nrm.1 pre (mem_append_left _ mem)⟩

theorem elapsed_inside (point : Int) (live : range.1 ≤ point) (shut : point ≤ range.2) :
    elapsed (done ++ range :: rest) point = total done + (point - range.1) := by
  obtain ⟨pre, post, pos, ord⟩ := sides nrm
  rw [elapsed_append, elapsed_cons, elapsed_of_after ord fun alt mem => ((pre alt mem).trans_le
    live).le, elapsed_of_before fun alt mem => (shut.trans_lt (post alt mem)).le]
  omega

/-- Where a value is reached inside a range or at its end, it is reached for the first time. -/
theorem isLeast_elapsed (mem : Int) (pos : 0 < mem) (wtn : mem ≤ range.2 - range.1) :
    IsLeast { point | elapsed (done ++ range :: rest) point = total done + mem }
      (range.1 + mem) := by
  constructor
  · have rch := elapsed_inside nrm (range.1 + mem) (by omega) (by omega)
    rw [Set.mem_ofPred_eq, rch]
    omega
  · intro point rch
    rw [Set.mem_ofPred_eq] at rch
    by_contra before
    have pre := elapsed_inside nrm (range.1 + mem - 1) (by omega) (by omega)
    have notLater : point ≤ range.1 + mem - 1 := by omega
    have mono := elapsed_mono (done ++ range :: rest) notLater
    omega

/-- Where a value is reached inside a range or at its start, it is reached for the last time. -/
theorem isGreatest_elapsed (mem : Int) (nn : 0 ≤ mem) (wtn : mem < range.2 - range.1) :
    IsGreatest { point | elapsed (done ++ range :: rest) point = total done + mem }
      (range.1 + mem) := by
  constructor
  · have rch := elapsed_inside nrm (range.1 + mem) (by omega) (by omega)
    rw [Set.mem_ofPred_eq, rch]
    omega
  · intro point rch
    rw [Set.mem_ofPred_eq] at rch
    by_contra after
    have post := elapsed_inside nrm (range.1 + mem + 1) (by omega) (by omega)
    have notEarlier : range.1 + mem + 1 ≤ point := by omega
    have mono := elapsed_mono (done ++ range :: rest) notEarlier
    omega

end Inverse

end Ranges
