import Mathlib.Data.List.Basic
import Mathlib.Data.List.Infix

/-!
# Consecutively numbered lists

A list whose elements carry the numbers `start`, `start + 1`, …, and the windows of such a
list: an element is found at the distance of its number from the number of the first one.
Names that end in a number tell the numbers apart.
-/

namespace Numbered

open List

theorem toString_injective {left right : Nat} (same : toString left = toString right) :
    left = right := by
  have digits : Nat.toDigits 10 left = Nat.toDigits 10 right := by
    have text := congrArg String.toList same
    rwa [Nat.toString_eq_repr, Nat.toString_eq_repr, Nat.toList_repr, Nat.toList_repr] at text
  rw [← Nat.ofDigitChars_ten_toDigits (n := left), digits, Nat.ofDigitChars_ten_toDigits]

theorem toList_toString_negSucc (n : Nat) :
    (toString (Int.negSucc n)).toList = '-' :: Nat.toDigits 10 (n + 1) := by
  change ("-" ++ Nat.repr (n + 1)).toList = _
  rw [String.toList_append, Nat.toList_repr]
  rfl

/-- A number has no sign, so it is not the text of a negative one. -/
theorem toString_natCast_ne_negSucc (m n : Nat) :
    toString (Int.ofNat m) ≠ toString (Int.negSucc n) := by
  intro same
  have text := congrArg String.toList same
  rw [toList_toString_negSucc] at text
  have digits : Nat.toDigits 10 m = '-' :: Nat.toDigits 10 (n + 1) :=
    (Nat.toList_repr (n := m)).symm.trans text
  have digit : '-'.isDigit = true :=
    Nat.isDigit_of_mem_toDigits (by decide) (by decide) (digits ▸ mem_cons_self)
  exact absurd digit (by decide)

theorem toString_int_injective {left right : Int} (same : toString left = toString right) :
    left = right := by
  cases left with
  | ofNat m =>
    cases right with
    | ofNat n => exact congrArg Int.ofNat (toString_injective same)
    | negSucc n => exact absurd same (toString_natCast_ne_negSucc m n)
  | negSucc m =>
    cases right with
    | ofNat n => exact absurd same.symm (toString_natCast_ne_negSucc n m)
    | negSucc n =>
      have text := congrArg String.toList same
      rw [toList_toString_negSucc, toList_toString_negSucc] at text
      injection text with _ digits
      have numbers : m + 1 = n + 1 := by
        rw [← Nat.ofDigitChars_ten_toDigits (n := m + 1), digits, Nat.ofDigitChars_ten_toDigits]
      rw [Nat.succ.inj numbers]

theorem name_injective {label : String} {left right : Nat}
    (same : label ++ toString left = label ++ toString right) : left = right := by
  have text := congrArg String.toList same
  rw [String.toList_append, String.toList_append, append_cancel_left_eq] at text
  exact toString_injective (String.toList_inj.mp text)

/-- Two texts with one separator each split the same way. -/
theorem append_cons_injective {α : Type*} {separator : α} {left left' right right' : List α}
    (free : separator ∉ left) (free' : separator ∉ left')
    (same : left ++ separator :: right = left' ++ separator :: right') :
    left = left' ∧ right = right' := by
  induction left generalizing left' with
  | nil =>
    cases left' with
    | nil => exact ⟨rfl, (cons.inj same).2⟩
    | cons first left' =>
      have head := (cons.inj same).1
      exact absurd (head ▸ mem_cons_self) free'
  | cons first left ih =>
    cases left' with
    | nil =>
      have head := (cons.inj same).1
      exact absurd (head ▸ mem_cons_self) free
    | cons first' left' =>
      obtain ⟨head, tail⟩ := cons.inj same
      obtain ⟨rests, rs⟩ := ih (fun mem => free (mem_cons_of_mem _ mem))
        (fun mem => free' (mem_cons_of_mem _ mem)) tail
      exact ⟨by rw [head, rests], rs⟩

variable {α : Type*} (number : α → Nat)

/-- The elements carry consecutive numbers, from `start` on. -/
def From : Nat → List α → Prop
  | _, [] => True
  | start, a :: rest => number a = start ∧ From (start + 1) rest

variable {number}

variable {start : Nat}

theorem From.getElem? {list : List α} (nums : From number start list) {idx : Nat} {a : α}
    (hit : list[idx]? = some a) : number a = start + idx := by
  induction list generalizing start idx with
  | nil => cases hit
  | cons b list ih =>
    cases idx with
    | zero =>
      cases hit
      exact nums.1
    | succ idx =>
      rw [ih nums.2 hit]
      omega

theorem From.append {list list' : List α} :
    From number start (list ++ list') ↔
      From number start list ∧ From number (start + list.length) list' := by
  induction list generalizing start with
  | nil => simp [From]
  | cons a list ih =>
    rw [cons_append, From, ih, From, length_cons, and_assoc]
    have shift : start + 1 + list.length = start + (list.length + 1) := by omega
    rw [shift]

section

variable {list : List α} (nums : From number start list)

include nums

theorem From.concat {a : α} (next : number a = start + list.length) :
    From number start (list ++ [a]) :=
  From.append.mpr ⟨nums, next, trivial⟩

theorem From.drop (n : Nat) :
    From number (start + n) (list.drop n) := by
  induction list generalizing start n with
  | nil =>
    rw [drop_nil]
    trivial
  | cons a list ih =>
    cases n with
    | zero => exact nums
    | succ n =>
      have shift : start + (n + 1) = start + 1 + n := by omega
      rw [drop_succ_cons, shift]
      exact ih nums.2 n

/-- A number belongs to the list exactly when it lies in its range. -/
theorem From.exists_iff {n : Nat} :
    (∃ a ∈ list, number a = n) ↔ start ≤ n ∧ n < start + list.length := by
  constructor
  · rintro ⟨a, mem, rfl⟩
    obtain ⟨idx, hit⟩ := List.mem_iff_getElem?.mp mem
    have bnd := (List.getElem?_eq_some_iff.mp hit).1
    have same := nums.getElem? hit
    omega
  · rintro ⟨low, high⟩
    have bnd : n - start < list.length := by omega
    have hit := getElem?_eq_getElem bnd
    refine ⟨_, getElem_mem bnd, ?_⟩
    rw [nums.getElem? hit]
    omega

end

end Numbered
