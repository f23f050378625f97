import Mathlib.Algebra.Order.Group.Defs
import Mathlib.Algebra.Order.Group.Unbundled.Basic
import Mathlib.Data.List.Infix
import Mathlib.Order.Bounds.Basic

/-!
# Falls of a series

A fall goes from a value to the same or a later one.  The deepest one is found in one pass that
keeps the highest value so far.
-/

namespace Drawdowns

open List

variable {α : Type}

def falls [Sub α] (values : List α) : Set α :=
  {fall | ∃ before value, before ++ [value] <+: values ∧
    ∃ top ∈ before ++ [value], fall = top - value}

theorem mem_falls_concat [Sub α] (vals : List α) (val fall : α) :
    fall ∈ falls (vals ++ [val]) ↔ fall ∈ falls vals ∨ ∃ top ∈ vals ++ [val], fall = top - val := by
  constructor
  · rintro ⟨pre, low, rch, top, mem, rfl⟩
    rcases prefix_concat_iff.mp rch with all | earlier
    · obtain ⟨rfl, lows⟩ := append_inj' all rfl
      obtain rfl := singleton_inj.mp lows
      exact .inr ⟨top, mem, rfl⟩
    · exact .inl ⟨pre, low, earlier, top, mem, rfl⟩
  · rintro (⟨pre, low, rch, falling⟩ | last)
    · exact ⟨pre, low, rch.trans (prefix_append _ _), falling⟩
    · exact ⟨vals, val, prefix_rfl, last⟩

theorem isGreatest_peak [LinearOrder α] {vals : List α} {peak : α}
    (greatest : IsGreatest {top | top ∈ vals} peak) (val : α) :
    IsGreatest {top | top ∈ vals ++ [val]} (max peak val) := by
  constructor
  · rcases max_choice peak val with isPeak | isLast
    · rw [isPeak]
      exact mem_append_left _ greatest.1
    · rw [isLast]
      exact mem_append_right _ (mem_singleton_self val)
  · intro top mem
    rcases mem_append.mp mem with old | last
    · exact (greatest.2 old).trans (le_max_left _ _)
    · rw [mem_singleton.mp last]
      exact le_max_right _ _

variable [AddCommGroup α] [LinearOrder α]

theorem isGreatest_falls_singleton (val : α) : IsGreatest (falls [val]) 0 := by
  constructor
  · exact ⟨[], val, prefix_rfl, val, mem_singleton_self val, (sub_self val).symm⟩
  · rintro fall ⟨pre, low, rch, top, mem, rfl⟩
    have lows := rch.subset (mem_append_right _ (mem_singleton_self low))
    rw [mem_singleton.mp lows, mem_singleton.mp (rch.subset mem), sub_self]

variable [IsOrderedAddMonoid α]

/-- The deepest fall of a longer series is the old one or the one from the peak to the end. -/
theorem isGreatest_falls {vals : List α} {val peak drawdown : α}
    (highest : IsGreatest {top | top ∈ vals ++ [val]} peak)
    (deepest : IsGreatest (falls vals) drawdown) :
    IsGreatest (falls (vals ++ [val])) (max drawdown (peak - val)) := by
  constructor
  · rcases max_choice drawdown (peak - val) with isOld | isLast
    · rw [isOld]
      exact (mem_falls_concat _ _ _).mpr (.inl deepest.1)
    · rw [isLast]
      exact (mem_falls_concat _ _ _).mpr (.inr ⟨peak, highest.1, rfl⟩)
  · intro fall mem
    rcases (mem_falls_concat _ _ _).mp mem with old | ⟨top, rch, rfl⟩
    · exact (deepest.2 old).trans (le_max_left _ _)
    · exact (sub_le_sub_right (highest.2 rch) val).trans (le_max_right _ _)

end Drawdowns
