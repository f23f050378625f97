import Mathlib.Algebra.Order.Ring.Rat

/-!
# Floating-point prices

An `f64` as the number it denotes.
-/

namespace Tqsdk

/-- An `f64`.  A finite value is the rational it denotes. -/
inductive F64
  | finite (value : ℚ)
  | infinite (negative : Bool)
  | nan
  deriving DecidableEq

namespace F64

def isFinite : F64 → Bool
  | .finite _ => true
  | _ => false

/-- The operator `==`: `NaN` equals nothing. -/
def eq : F64 → F64 → Bool
  | .finite left, .finite right => left == right
  | .infinite left, .infinite right => left == right
  | _, _ => false

/-- The value of a number that is finite. -/
def value? : F64 → Option ℚ
  | .finite value => some value
  | _ => none

/-- `f64::max`, which answers the other number when one is `NaN`. -/
def max : F64 → F64 → F64
  | .nan, other => other
  | other, .nan => other
  | .infinite true, other => other
  | other, .infinite true => other
  | .infinite false, _ => .infinite false
  | _, .infinite false => .infinite false
  | .finite left, .finite right => .finite (Max.max left right)

/-- `f64::min`, which answers the other number when one is `NaN`. -/
def min : F64 → F64 → F64
  | .nan, other => other
  | other, .nan => other
  | .infinite false, other => other
  | other, .infinite false => other
  | .infinite true, _ => .infinite true
  | _, .infinite true => .infinite true
  | .finite left, .finite right => .finite (Min.min left right)

/-- The operator `<=`: `NaN` is not comparable to anything. -/
def le : F64 → F64 → Bool
  | .nan, _ => false
  | _, .nan => false
  | .infinite true, _ => true
  | _, .infinite false => true
  | .finite left, .finite right => decide (left ≤ right)
  | _, _ => false

instance : LE F64 := ⟨fun left right => left.le right = true⟩

instance (left right : F64) : Decidable (left ≤ right) :=
  inferInstanceAs (Decidable (left.le right = true))

theorem finite_le_finite {left right : ℚ} :
    F64.finite left ≤ F64.finite right ↔ left ≤ right := by
  change decide (left ≤ right) = true ↔ left ≤ right
  exact decide_eq_true_iff

variable {left right px : F64}

theorem le_self (num : px ≠ .nan) : px ≤ px := by
  cases px with
  | finite val => exact finite_le_finite.mpr (le_refl val)
  | infinite negative => cases negative <;> rfl
  | nan => exact absurd rfl num

theorem le_trans {low high : F64} (left : low ≤ px) (right : px ≤ high) :
    low ≤ high := by
  rcases low with low | (_ | _) | _ <;> rcases px with px | (_ | _) | _ <;>
    rcases high with high | (_ | _) | _ <;>
    try first | rfl | exact absurd left Bool.false_ne_true | exact absurd right Bool.false_ne_true
  rw [finite_le_finite] at left right ⊢
  exact left.trans right

theorem max_comm (left right : F64) : left.max right = right.max left := by
  rcases left with left | (_ | _) | _ <;> rcases right with right | (_ | _) | _ <;> try rfl
  exact congrArg F64.finite (sup_comm left right)

theorem min_comm (left right : F64) : left.min right = right.min left := by
  rcases left with left | (_ | _) | _ <;> rcases right with right | (_ | _) | _ <;> try rfl
  exact congrArg F64.finite (inf_comm left right)

theorem le_max_left (num : left ≠ .nan) : left ≤ left.max right := by
  rcases left with left | (_ | _) | _
  · rcases right with right | (_ | _) | _
    · exact finite_le_finite.mpr le_sup_left
    · rfl
    · exact le_self num
    · exact le_self num
  · rcases right with right | (_ | _) | _ <;> rfl
  · rcases right with right | (_ | _) | _ <;> rfl
  · exact absurd rfl num

theorem le_max_right (num : right ≠ .nan) : right ≤ left.max right := by
  rw [max_comm]
  exact le_max_left num

theorem min_le_left (num : left ≠ .nan) : left.min right ≤ left := by
  rcases left with left | (_ | _) | _
  · rcases right with right | (_ | _) | _
    · exact finite_le_finite.mpr inf_le_left
    · exact le_self num
    · rfl
    · exact le_self num
  · rcases right with right | (_ | _) | _ <;> rfl
  · rcases right with right | (_ | _) | _ <;> rfl
  · exact absurd rfl num

theorem min_le_right (num : right ≠ .nan) : left.min right ≤ right := by
  rw [min_comm]
  exact min_le_left num

theorem ne_nan_of_le (less : left ≤ right) : left ≠ .nan ∧ right ≠ .nan := by
  constructor
  · rintro rfl
    cases less
  · rintro rfl
    rcases left with left | (_ | _) | _ <;> cases less

end F64

end Tqsdk
