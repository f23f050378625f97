import Mathlib.Algebra.Order.Ring.Int
import Mathlib.Data.Int.ConditionallyCompleteOrder
import Mathlib.Algebra.Order.BigOperators.Group.List
import Mathlib.Data.Prod.Lex
import Tqsdk.Lib.Neighbours

/-!
# Largest remainders

A total is shared by weights: everyone gets the quotient, and what is left goes, one each, to those
with the largest remainders.  Of equal remainders the earlier one is served first.
-/

namespace Apportion

open List

/-- What one of the sharers gets, and what the division left. -/
structure Row where
  index : Nat
  volume : Int
  remainder : Nat
  deriving DecidableEq

/-- Rows with less priority are served first. -/
def Row.priority (row : Row) : ℕᵒᵈ ×ₗ ℕ := toLex (OrderDual.toDual row.remainder, row.index)

def Row.raised (row : Row) : Row := { row with volume := row.volume + 1 }

@[simp] theorem Row.index_raised (row : Row) : row.raised.index = row.index := rfl

@[simp] theorem Row.remainder_raised (row : Row) : row.raised.remainder = row.remainder := rfl

theorem Row.priority_lt_iff {left right : Row} : left.priority < right.priority ↔
    right.remainder < left.remainder ∨
      (left.remainder = right.remainder ∧ left.index < right.index) := by
  unfold priority
  rw [Prod.Lex.toLex_lt_toLex]
  rfl

def ranked (rows : List Row) : List Row :=
  rows.insertionSort fun left right => left.priority ≤ right.priority

/-- The first rows get one more. -/
def raise (count : Nat) (rows : List Row) : List Row :=
  (rows.take count).map Row.raised ++ rows.drop count

def inOrder (rows : List Row) : List Row :=
  rows.insertionSort fun left right => left.index ≤ right.index

def settled (count : Nat) (rows : List Row) : List Row := inOrder (raise count (ranked rows))

/-! ## The rows that are raised -/

section Settled

variable {rows : List Row} {count : Nat} (nd : rows.Pairwise fun left right =>
  left.index < right.index)

theorem mem_ranked {row : Row} : row ∈ ranked rows ↔ row ∈ rows := mem_insertionSort _

theorem mem_settled {row : Row} : row ∈ settled count rows ↔
    (∃ floor ∈ (ranked rows).take count, floor.raised = row) ∨ row ∈ (ranked rows).drop count := by
  unfold settled inOrder raise
  rw [mem_insertionSort, mem_append, mem_map]

include nd

theorem sorted_ranked : (ranked rows).Pairwise fun left right => left.priority < right.priority := by
  refine Neighbours.pairwise_insertionSort (nd.imp fun less same => less.ne ?_)
  exact (Prod.mk.inj (toLex.injective same)).2

theorem raised_mem_settled {row : Row} (mem : row ∈ rows) :
    row.raised ∈ settled count rows ↔ row ∈ (ranked rows).take count := by
  have unique {other : Row} (inRows : other ∈ rows) (same : other.index = row.index) :
      other = row := Neighbours.eq_of_key_eq nd inRows mem same
  rw [mem_settled]
  constructor
  · rintro (⟨floor, took, isRow⟩ | dropped)
    · have same : floor.raised.index = row.raised.index := congrArg Row.index isRow
      rwa [← unique (mem_ranked.mp (mem_of_mem_take took)) same]
    · have same := unique (mem_ranked.mp (mem_of_mem_drop dropped)) rfl
      have vol := congrArg Row.volume same
      dsimp only [Row.raised] at vol
      omega
  · exact fun took => .inl ⟨row, took, rfl⟩

/-- Who comes before a row that is raised is raised. -/
theorem raised_of_priority {left right : Row} (lMem : left ∈ rows) (rMem : right ∈ rows)
    (pre : left.priority < right.priority) (raised : right.raised ∈ settled count rows) :
    left.raised ∈ settled count rows := by
  rw [raised_mem_settled nd lMem]
  rw [raised_mem_settled nd rMem] at raised
  have split := mem_ranked.mpr lMem
  rw [← take_append_drop count (ranked rows), mem_append] at split
  refine split.resolve_right fun drop => ?_
  have srt := sorted_ranked nd
  rw [← take_append_drop count (ranked rows), pairwise_append] at srt
  exact lt_asymm pre (srt.2.2 right raised left drop)

theorem index_settled : (settled count rows).map Row.index = rows.map Row.index := by
  have perm : ((raise count (ranked rows)).map Row.index).Perm (rows.map Row.index) := by
    have kept : (raise count (ranked rows)).map Row.index = (ranked rows).map Row.index := by
      conv_rhs => rw [← take_append_drop count (ranked rows)]
      rw [raise, map_append, map_map, map_append]
      rfl
    rw [kept]
    exact (perm_insertionSort _ rows).map Row.index
  have incr : (rows.map Row.index).Pairwise (· < ·) := pairwise_map.mpr nd
  have sep : (raise count (ranked rows)).Pairwise fun left right => left.index ≠ right.index :=
    pairwise_map.mp (perm.symm.pairwise (incr.imp fun less => less.ne) fun differ => Ne.symm differ)
  refine Neighbours.eq_of_sorted (α := Nat) (κ := Nat) ?_ incr fun idx => ?_
  · exact pairwise_map.mpr (Neighbours.pairwise_insertionSort sep)
  · have sortedPerm := ((perm_insertionSort (fun left right : Row => left.index ≤ right.index)
      (raise count (ranked rows))).map Row.index).trans perm
    exact sortedPerm.mem_iff

end Settled

theorem sum_settled {rows : List Row} {count : Nat} (few : count ≤ rows.length) :
    ((settled count rows).map Row.volume).sum = (rows.map Row.volume).sum + count := by
  have srt : ((settled count rows).map Row.volume).sum =
      ((raise count (ranked rows)).map Row.volume).sum :=
    ((perm_insertionSort _ _).map Row.volume).sum_eq
  have ranks : ((ranked rows).map Row.volume).sum = (rows.map Row.volume).sum :=
    ((perm_insertionSort _ _).map Row.volume).sum_eq
  have long : ((ranked rows).take count).length = count := by
    rw [length_take, ranked, length_insertionSort, min_eq_left few]
  have lifted (part : List Row) : ((part.map Row.raised).map Row.volume).sum =
      (part.map Row.volume).sum + part.length := by
    induction part with
    | nil => rfl
    | cons row part ih =>
      rw [map_cons, map_cons, sum_cons, ih, map_cons, sum_cons, length_cons]
      dsimp only [Row.raised]
      omega
  rw [srt, ← ranks, raise, map_append, sum_append, lifted, long]
  conv_rhs => rw [← take_append_drop count (ranked rows), map_append, sum_append]
  omega

/-! ## Remainders of a division -/

section Remainders

variable {rows : List Row} {count all : Nat}
  (below : ∀ row ∈ rows, row.remainder < all)
  (left : count * all = (rows.map Row.remainder).sum)

include below

theorem sum_remainder_le :
    (rows.map Row.remainder).sum + rows.length ≤ rows.length * all := by
  induction rows with
  | nil => simp
  | cons row rows ih =>
    have here := below row mem_cons_self
    have rest := ih fun alt mem => below alt (mem_cons_of_mem _ mem)
    rw [map_cons, sum_cons, length_cons, Nat.add_mul, Nat.one_mul]
    omega

include left

/-- There are at least as many sharers as units that the division left. -/
theorem count_le_length (pos : 0 < all) : count ≤ rows.length := by
  have bnd := sum_remainder_le below
  refine Nat.le_of_mul_le_mul_right ?_ pos
  omega

theorem remainder_pos (nd : rows.Pairwise fun left right => left.index < right.index)
    (pos : 0 < all) {row : Row} (took : row ∈ (ranked rows).take count) :
    0 < row.remainder := by
  rw [Nat.pos_iff_ne_zero]
  intro none
  have few := count_le_length below left pos
  have srt := sorted_ranked nd
  rw [← take_append_drop count (ranked rows), pairwise_append] at srt
  -- Then nothing is left behind it, and those in front of it cannot make up the whole.
  have lag : (((ranked rows).drop count).map Row.remainder).sum = 0 := by
    refine sum_eq_zero fun remainder mem => ?_
    obtain ⟨alt, dropped, rfl⟩ := mem_map.mp mem
    rcases Row.priority_lt_iff.mp (srt.2.2 row took alt dropped) with less | ⟨same, -⟩ <;>
      omega
  have fst := @sum_remainder_le ((ranked rows).take count) all fun alt mem =>
    below alt (mem_ranked.mp (mem_of_mem_take mem))
  have long : ((ranked rows).take count).length = count := by
    rw [length_take, ranked, length_insertionSort, min_eq_left few]
  have total : ((ranked rows).map Row.remainder).sum = (rows.map Row.remainder).sum :=
    ((perm_insertionSort _ rows).map Row.remainder).sum_eq
  rw [← take_append_drop count (ranked rows), map_append, sum_append] at total
  have some : 0 < count := by
    rw [← long]
    exact length_pos_of_mem took
  rw [long] at fst
  omega

end Remainders

/-! ## Shares by weights -/

/-- The quotients of a total by weights. -/
def quotients (total : Nat) (weights : List Nat) : List Row :=
  weights.zipIdx.map fun entry =>
    ⟨entry.2, (total * entry.1 / weights.sum : Nat), total * entry.1 % weights.sum⟩

section Quotients

variable {total : Nat} {weights : List Nat}

theorem mem_quotients {row : Row} : row ∈ quotients total weights ↔
    ∃ wt, weights[row.index]? = some wt ∧
      row.volume = (total * wt / weights.sum : Nat) ∧
      row.remainder = total * wt % weights.sum := by
  unfold quotients
  rw [mem_map]
  constructor
  · rintro ⟨⟨wt, idx⟩, mem, rfl⟩
    exact ⟨wt, mem_zipIdx_iff_getElem?.mp mem, rfl, rfl⟩
  · rintro ⟨wt, hit, vol, remainder⟩
    refine ⟨(wt, row.index), mem_zipIdx_iff_getElem?.mpr hit, ?_⟩
    rw [← vol, ← remainder]

theorem index_quotients : (quotients total weights).map Row.index = List.range weights.length := by
  rw [quotients, map_map]
  exact (zipIdx_map_snd 0 weights).trans range_eq_range'.symm

theorem distinct_quotients : (quotients total weights).Pairwise fun left right =>
    left.index < right.index := by
  rw [← pairwise_map (f := Row.index) (R := (· < ·)), index_quotients]
  exact pairwise_lt_range

theorem sum_quotients (pos : 0 < weights.sum) : ∃ vol : Nat,
    ((quotients total weights).map Row.volume).sum = vol ∧ vol ≤ total ∧
      (total - vol) * weights.sum = ((quotients total weights).map Row.remainder).sum := by
  have ps (all : Nat) (part : List (Nat × Nat)) :
      ((part.map fun ent => (⟨ent.2, (total * ent.1 / all : Nat),
        total * ent.1 % all⟩ : Row)).map Row.volume).sum =
          ((part.map fun ent => total * ent.1 / all).sum : Nat) ∧
      (part.map fun ent => total * ent.1 / all).sum * all +
        ((part.map fun ent => (⟨ent.2, (total * ent.1 / all : Nat),
          total * ent.1 % all⟩ : Row)).map Row.remainder).sum =
        total * (part.map Prod.fst).sum := by
    induction part with
    | nil => simp
    | cons ent part ih =>
      obtain ⟨volumes, remainders⟩ := ih
      have euclid := Nat.div_add_mod' (total * ent.1) all
      simp only [map_cons, sum_cons, Nat.add_mul, Nat.mul_add] at volumes remainders ⊢
      refine ⟨?_, by omega⟩
      rw [volumes, Int.natCast_add]
  obtain ⟨volumes, remainders⟩ := ps weights.sum weights.zipIdx
  rw [zipIdx_map_fst] at remainders
  refine ⟨_, volumes, Nat.le_of_mul_le_mul_right ?_ pos, ?_⟩
  · omega
  · rw [Nat.sub_mul]
    exact Nat.sub_eq_of_eq_add' remainders.symm

end Quotients

end Apportion
