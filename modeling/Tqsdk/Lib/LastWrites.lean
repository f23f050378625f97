import Mathlib.Data.List.Induction
import Tqsdk.Lib.Neighbours
import Tqsdk.Lib.OrdMap

/-!
# Last writes

Of rows that are written one after another a map keeps the last row of every key, in the order of
the keys.
-/

namespace LastWrites

open List

open Tqsdk

variable {α κ : Type} [LinearOrder κ] {key : α → κ}

/-- The map of the rows. -/
def entries (key : α → κ) (rows : List α) : List (κ × α) :=
  rows.foldl (fun map row => OrdMap.insert (key row) row map) []

/-- The last rows of all keys. -/
def lastOf (key : α → κ) (rows : List α) : List α := (entries key rows).map Prod.snd

theorem sorted_entries (rows : List α) : OrdMap.Sorted (entries key rows) :=
  OrdMap.Sorted.foldl_insert key rows OrdMap.sorted_nil

theorem entries_concat (rows : List α) (last : α) :
    entries key (rows ++ [last]) = OrdMap.insert (key last) last (entries key rows) := by
  unfold entries
  rw [foldl_append]
  rfl

theorem mem_entries_append (hd snd : List α) (ent : κ × α) :
    ent ∈ entries key (hd ++ snd) ↔ ent ∈ entries key snd ∨
      (ent ∈ entries key hd ∧ ∀ row ∈ snd, key row ≠ ent.1) := by
  induction snd using List.reverseRecOn with
  | nil => simp [entries]
  | append_singleton snd last ih =>
    rw [← append_assoc, entries_concat, entries_concat, (sorted_entries _).mem_insert_iff,
      (sorted_entries _).mem_insert_iff, ih]
    constructor
    · rintro (fin | ⟨inSecond | ⟨inFirst, new⟩, alt⟩)
      · exact .inl (.inl fin)
      · exact .inl (.inr ⟨inSecond, alt⟩)
      · refine .inr ⟨inFirst, fun row member => ?_⟩
        rcases mem_append.mp member with member | member
        · exact new row member
        · rw [mem_singleton.mp member]
          exact Ne.symm alt
    · rintro ((fin | ⟨inSecond, alt⟩) | ⟨inFirst, new⟩)
      · exact .inl fin
      · exact .inr ⟨.inl inSecond, alt⟩
      · exact .inr ⟨.inr ⟨inFirst, fun row member => new row (mem_append_left _ member)⟩,
          (new last (mem_append_right _ (mem_singleton_self last))).symm⟩

variable {rows : List α} {row : α}

theorem key_of_mem_entries {ent : κ × α} (member : ent ∈ entries key rows) :
    ent.1 = key ent.2 ∧ ent.2 ∈ rows := by
  induction rows using List.reverseRecOn with
  | nil => cases member
  | append_singleton rows last ih =>
    rw [entries_concat] at member
    rcases OrdMap.mem_insert member with rfl | member
    · exact ⟨rfl, mem_append_right _ (mem_singleton_self last)⟩
    · exact ⟨(ih member).1, mem_append_left _ (ih member).2⟩

theorem mem_lastOf :
    row ∈ lastOf key rows ↔ (key row, row) ∈ entries key rows := by
  unfold lastOf
  rw [mem_map]
  constructor
  · rintro ⟨ent, mem, rfl⟩
    rw [← (key_of_mem_entries mem).1]
    exact mem
  · exact fun mem => ⟨_, mem, rfl⟩

/-- A row is kept where no row of its key is written behind it. -/
theorem mem_lastOf_append {hd snd : List α} :
    row ∈ lastOf key (hd ++ snd) ↔ row ∈ lastOf key snd ∨
      (row ∈ lastOf key hd ∧ ∀ alt ∈ snd, key alt ≠ key row) := by
  rw [mem_lastOf, mem_lastOf, mem_lastOf, mem_entries_append]

theorem sorted_lastOf (rows : List α) :
    (lastOf key rows).Pairwise fun left right => key left < key right := by
  unfold lastOf
  refine pairwise_map.mpr ((sorted_entries rows).imp_of_mem ?_)
  intro left right lMem rMem less
  rwa [← (key_of_mem_entries lMem).1, ← (key_of_mem_entries rMem).1]

theorem subset_lastOf (rows : List α) : lastOf key rows ⊆ rows := fun _ mem =>
  (key_of_mem_entries (mem_lastOf.mp mem)).2

theorem length_lastOf_le (rows : List α) : (lastOf key rows).length ≤ rows.length :=
  (subperm_of_subset (Neighbours.nodup_of_sorted (sorted_lastOf rows))
    (subset_lastOf rows)).length_le

theorem exists_lastOf (member : row ∈ rows) :
    ∃ last ∈ lastOf key rows, key last = key row := by
  induction rows using List.reverseRecOn with
  | nil => cases member
  | append_singleton rows last ih =>
    have fin : last ∈ lastOf key (rows ++ [last]) :=
      mem_lastOf_append.mpr (.inl (mem_singleton_self last))
    by_cases same : key last = key row
    · exact ⟨last, fin, same⟩
    rcases mem_append.mp member with member | member
    · obtain ⟨hit, inRows, sameKey⟩ := ih member
      refine ⟨hit, mem_lastOf_append.mpr (.inr ⟨inRows, fun alt member => ?_⟩), sameKey⟩
      rw [mem_singleton.mp member, sameKey]
      exact same
    · exact absurd (congrArg key (mem_singleton.mp member).symm) same

/-- Rows that are sorted by their keys are the last rows. -/
theorem lastOf_of_sorted (srt : rows.Pairwise fun left right => key left < key right) :
    lastOf key rows = rows := by
  refine Neighbours.eq_of_sorted (sorted_lastOf rows) srt fun row =>
    ⟨fun mem => subset_lastOf rows mem, fun mem => ?_⟩
  obtain ⟨last, inLast, same⟩ : ∃ last ∈ lastOf key rows, key last = key row := exists_lastOf mem
  rwa [← Neighbours.eq_of_key_eq srt (subset_lastOf rows inLast) mem same]

/-- Last rows may be selected before or behind where rows of one key are selected alike. -/
theorem lastOf_filter {select : α → Bool}
    (alike : ∀ row ∈ rows, ∀ alt ∈ rows, key row = key alt → select row = select alt) :
    lastOf key (rows.filter select) = (lastOf key rows).filter select := by
  refine Neighbours.eq_of_sorted (sorted_lastOf _) ((sorted_lastOf rows).filter _) fun row => ?_
  rw [mem_filter]
  induction rows using List.reverseRecOn with
  | nil => exact iff_of_false (fun mem => by cases mem) fun mem => by cases mem.1
  | append_singleton rows last ih =>
    have alikeRows : ∀ row ∈ rows, ∀ alt ∈ rows, key row = key alt →
        select row = select alt := fun row mem alt altM =>
      alike row (mem_append_left _ mem) alt (mem_append_left _ altM)
    have fin : last ∈ rows ++ [last] := mem_append_right _ (mem_singleton_self last)
    rw [filter_append, mem_lastOf_append, mem_lastOf_append, ih alikeRows]
    by_cases pick : select last
    · rw [filter_cons_of_pos pick, filter_nil]
      constructor
      · rintro (same | ⟨⟨inRows, isSelected⟩, new⟩)
        · have isRow := subset_lastOf _ same
          rw [mem_singleton.mp isRow]
          exact ⟨.inl (mem_singleton_self last), pick⟩
        · exact ⟨.inr ⟨inRows, new⟩, isSelected⟩
      · rintro ⟨same | ⟨inRows, new⟩, isSelected⟩
        · exact .inl same
        · exact .inr ⟨⟨inRows, isSelected⟩, new⟩
    · rw [filter_cons_of_neg pick, filter_nil]
      constructor
      · rintro (no | ⟨⟨inRows, isSelected⟩, -⟩)
        · cases no
        · refine ⟨.inr ⟨inRows, fun alt mem => ?_⟩, isSelected⟩
          rw [mem_singleton.mp mem]
          intro same
          have agr := alike last fin row (mem_append_left _ (subset_lastOf rows inRows)) same
          rw [isSelected] at agr
          exact pick agr
      · rintro ⟨same | ⟨inRows, -⟩, isSelected⟩
        · have isRow := mem_singleton.mp (subset_lastOf _ same)
          rw [isRow] at isSelected
          exact absurd isSelected pick
        · exact .inr ⟨⟨inRows, isSelected⟩, fun _ mem => by cases mem⟩

/-- Of groups that are sorted each and written one after another the last group with a key has its
last row. -/
theorem mem_lastOf_groups {grps : List (Nat × List α)}
    (ascending : grps.Pairwise fun left right => left.1 < right.1)
    (srt : ∀ grp ∈ grps, grp.2.Pairwise fun left right => key left < key right) :
    row ∈ lastOf key (grps.flatMap Prod.snd) ↔ ∃ grp ∈ grps, row ∈ grp.2 ∧
      ∀ alt ∈ grps, ∀ alt2 ∈ alt.2, key alt2 = key row → alt.1 ≤ grp.1 := by
  induction grps using List.reverseRecOn with
  | nil => exact iff_of_false (fun member => by cases member) (by rintro ⟨_, member, _⟩; cases member)
  | append_singleton grps last ih =>
    obtain ⟨pre, -, lag⟩ := pairwise_append.mp ascending
    have fin : last ∈ grps ++ [last] := mem_append_right _ (mem_singleton_self last)
    have all : (grps ++ [last]).flatMap Prod.snd = grps.flatMap Prod.snd ++ last.2 := by simp
    rw [all, mem_lastOf_append, lastOf_of_sorted (srt last fin),
      ih pre fun grp member => srt grp (mem_append_left _ member)]
    constructor
    · rintro (inLast | ⟨⟨grp, member, inGroup, newest⟩, new⟩)
      · refine ⟨last, fin, inLast, fun alt member _ _ _ => ?_⟩
        rcases mem_append.mp member with member | member
        · exact (lag alt member last (mem_singleton_self last)).le
        · rw [mem_singleton.mp member]
      · refine ⟨grp, mem_append_left _ member, inGroup, fun alt otherMem alt2 inOther same => ?_⟩
        rcases mem_append.mp otherMem with otherMem | otherMem
        · exact newest alt otherMem alt2 inOther same
        · rw [mem_singleton.mp otherMem] at inOther
          exact absurd same (new alt2 inOther)
    · rintro ⟨grp, member, inGroup, newest⟩
      rcases mem_append.mp member with member | member
      · refine .inr ⟨⟨grp, member, inGroup, fun alt otherMem =>
          newest alt (mem_append_left _ otherMem)⟩, fun alt2 inLast same => ?_⟩
        exact absurd (lag grp member last (mem_singleton_self last))
          (not_lt.mpr (newest last fin alt2 inLast same))
      · rw [mem_singleton.mp member] at inGroup
        exact .inl inGroup

end LastWrites
