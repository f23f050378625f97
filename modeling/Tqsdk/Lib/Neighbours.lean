import Mathlib.Data.List.Pairwise
import Mathlib.Data.List.Sort
import Mathlib.Order.Basic

/-!
# Neighbours in sorted lists

Windows of two and of three items.  In a list whose keys increase, a window of two holds two items
with no item between them.
-/

namespace Neighbours

open List

variable {α κ : Type} [LinearOrder κ]

/-! ## Sorting by keys -/

variable {key : α → κ} {items : List α} {left right : α}

theorem pairwise_insertionSort (nd : items.Pairwise fun left right => key left ≠ key right) :
    (items.insertionSort fun left right => key left ≤ key right).Pairwise fun left right =>
      key left < key right := by
  have total : Std.Total fun left right : α => key left ≤ key right :=
    ⟨fun left right => le_total (key left) (key right)⟩
  have trans : IsTrans α fun left right => key left ≤ key right :=
    ⟨fun _ _ _ hd snd => hd.trans snd⟩
  have srt := List.pairwise_insertionSort (fun left right : α => key left ≤ key right) items
  have distinctSorted := (List.perm_insertionSort (fun left right : α => key left ≤ key right)
    items).symm.pairwise nd fun ne => Ne.symm ne
  exact srt.imp₂ (fun _ _ le ne => lt_of_le_of_ne le ne) distinctSorted

theorem nodup_of_sorted (srt : items.Pairwise fun hd snd => key hd < key snd) :
    items.Nodup := by
  refine srt.imp ?_
  rintro hd _ less rfl
  exact lt_irrefl _ less

/-- Items that are sorted strictly are told apart by their keys. -/
theorem eq_of_key_eq (srt : items.Pairwise fun hd snd => key hd < key snd)
    (lMem : left ∈ items) (rMem : right ∈ items) (same : key left = key right) :
    left = right := by
  have symmetric : Std.Symm fun left right : α => key left ≠ key right :=
    ⟨fun _ _ differ => Ne.symm differ⟩
  have sep : items.Pairwise fun left right => key left ≠ key right := srt.imp fun less => less.ne
  by_contra differ
  exact sep.forall lMem rMem differ same

/-- Lists of the same items that are sorted strictly are the same. -/
theorem eq_of_sorted {left right : List α}
    (leftSorted : left.Pairwise fun hd snd => key hd < key snd)
    (rightSorted : right.Pairwise fun hd snd => key hd < key snd)
    (same : ∀ item, item ∈ left ↔ item ∈ right) : left = right := by
  refine List.Perm.eq_of_pairwise ?_ leftSorted rightSorted
    ((perm_ext_iff_of_nodup (nodup_of_sorted leftSorted) (nodup_of_sorted rightSorted)).mpr
      same)
  intro hd snd _ _ less more
  exact absurd less (lt_asymm more)

/-! ## Windows -/

/-- The windows of two items. -/
def pairs (items : List α) : List (α × α) := items.zip items.tail

/-- The windows of three items. -/
def triples (items : List α) : List (α × α × α) := items.zip (items.tail.zip items.tail.tail)

/-- Two of the items with no other between them. -/
structure Adjacent (key : α → κ) (items : List α) (left right : α) : Prop where
  left_mem : left ∈ items
  right_mem : right ∈ items
  less : key left < key right
  between : ∀ other ∈ items, key left < key other → key right ≤ key other

section

variable (srt : items.Pairwise fun left right => key left < key right)

include srt

theorem mem_pairs :
    (left, right) ∈ pairs items ↔ Adjacent key items left right := by
  induction items with
  | nil => exact ⟨fun member => (by cases member), fun adjacent => (by cases adjacent.left_mem)⟩
  | cons hd rest ih =>
    obtain ⟨firstLess, restSrt⟩ := pairwise_cons.mp srt
    cases rest with
    | nil =>
      refine ⟨fun member => (by cases member), fun adjacent => ?_⟩
      have less := adjacent.less
      rw [mem_singleton.mp adjacent.left_mem, mem_singleton.mp adjacent.right_mem] at less
      exact absurd less (lt_irrefl _)
    | cons snd rest =>
      have secondLess := (pairwise_cons.mp restSrt).1
      have split : pairs (hd :: snd :: rest) = (hd, snd) :: pairs (snd :: rest) := rfl
      rw [split, mem_cons, ih restSrt]
      constructor
      · rintro (same | adjacent)
        · obtain ⟨rfl, rfl⟩ := Prod.mk.inj same
          refine ⟨mem_cons_self, mem_cons_of_mem _ mem_cons_self,
            firstLess _ mem_cons_self, fun alt member lag => ?_⟩
          rcases mem_cons.mp member with rfl | member
          · exact absurd lag (lt_irrefl _)
          rcases mem_cons.mp member with rfl | member
          · exact le_rfl
          · exact (secondLess alt member).le
        · refine ⟨mem_cons_of_mem _ adjacent.left_mem, mem_cons_of_mem _
            adjacent.right_mem, adjacent.less, fun alt member lag => ?_⟩
          rcases mem_cons.mp member with rfl | member
          · exact absurd lag (not_lt.mpr (firstLess left adjacent.left_mem).le)
          · exact adjacent.between alt member lag
      · intro adjacent
        have notFirst : right ≠ hd := by
          rintro rfl
          rcases mem_cons.mp adjacent.left_mem with rfl | member
          · exact lt_irrefl _ adjacent.less
          · exact lt_asymm adjacent.less (firstLess left member)
        have rightMem := (mem_cons.mp adjacent.right_mem).resolve_left notFirst
        rcases mem_cons.mp adjacent.left_mem with rfl | leftMem
        · refine .inl ?_
          have atMost := adjacent.between snd (mem_cons_of_mem _ mem_cons_self)
            (firstLess snd mem_cons_self)
          rcases mem_cons.mp rightMem with rfl | rightMem
          · rfl
          · exact absurd (secondLess right rightMem) (not_lt.mpr atMost)
        · exact .inr ⟨leftMem, rightMem, adjacent.less,
            fun alt member => adjacent.between alt (mem_cons_of_mem _ member)⟩

omit srt in
theorem mem_tail_of_less {first : α} {rest : List α} (firstLess : ∀ item ∈ rest, key first < key item)
    (leftMem : left ∈ first :: rest) (rightMem : right ∈ first :: rest)
    (less : key left < key right) : right ∈ rest := by
  rcases mem_cons.mp rightMem with rfl | member
  · rcases mem_cons.mp leftMem with rfl | other
    · exact absurd less (lt_irrefl _)
    · exact absurd less (not_lt.mpr (firstLess left other).le)
  · exact member

/-- Behind an item in front of another one there is a neighbour that is not behind the other. -/
theorem exists_adjacent_right (lMem : left ∈ items) (rMem : right ∈ items)
    (less : key left < key right) :
    ∃ next, Adjacent key items left next ∧ key next ≤ key right := by
  induction items with
  | nil => cases lMem
  | cons hd rest ih =>
    obtain ⟨firstLess, restSrt⟩ := pairwise_cons.mp srt
    have inRest := mem_tail_of_less firstLess lMem rMem less
    rcases mem_cons.mp lMem with rfl | member
    · cases rest with
      | nil => cases inRest
      | cons snd rest =>
        refine ⟨snd, (mem_pairs srt).mp mem_cons_self, ?_⟩
        rcases mem_cons.mp inRest with rfl | behind
        · exact le_rfl
        · exact ((pairwise_cons.mp restSrt).1 right behind).le
    · obtain ⟨next, adj, atMost⟩ := ih restSrt member inRest
      refine ⟨next, ⟨lMem, mem_cons_of_mem _ adj.right_mem, adj.less, ?_⟩, atMost⟩
      intro other otherMem behind
      rcases mem_cons.mp otherMem with rfl | otherMem
      · exact absurd behind (not_lt.mpr (firstLess left member).le)
      · exact adj.between other otherMem behind

theorem exists_adjacent_left (lMem : left ∈ items) (rMem : right ∈ items)
    (less : key left < key right) :
    ∃ prev, Adjacent key items prev right ∧ key left ≤ key prev := by
  induction items generalizing left with
  | nil => cases lMem
  | cons hd rest ih =>
    obtain ⟨firstLess, restSrt⟩ := pairwise_cons.mp srt
    have inRest := mem_tail_of_less firstLess lMem rMem less
    -- Either the first item is next to the right one, or the right one is behind the second.
    by_cases next : ∃ other ∈ rest, key other < key right ∧ (left = hd ∨ left = other)
    · obtain ⟨other, member, pre, isLeft⟩ := next
      obtain ⟨prev, adj, atLeast⟩ := ih restSrt member inRest pre
      refine ⟨prev, ⟨mem_cons_of_mem _ adj.left_mem, rMem, adj.less, ?_⟩, ?_⟩
      · intro alt2 anotherMem lag
        rcases mem_cons.mp anotherMem with rfl | anotherMem
        · exact absurd lag (not_lt.mpr (firstLess prev adj.left_mem).le)
        · exact adj.between alt2 anotherMem lag
      · rcases isLeft with rfl | rfl
        · exact (firstLess prev adj.left_mem).le
        · exact atLeast
    · have fst : left = hd := by
        by_contra other
        exact next ⟨left, (mem_cons.mp lMem).resolve_left other, less, .inr rfl⟩
      refine ⟨left, ⟨lMem, rMem, less, fun other otherMem lag => ?_⟩, le_rfl⟩
      rcases mem_cons.mp otherMem with rfl | otherMem
      · rw [fst] at lag
        exact absurd lag (lt_irrefl _)
      · exact not_lt.mp fun pre => next ⟨other, otherMem, pre, .inl fst⟩

end

end Neighbours
