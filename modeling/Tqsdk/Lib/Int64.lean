import Mathlib.Order.MinMax
import Mathlib.Data.Int.Order.Basic

/-!
# Signed 64-bit arithmetic

Values are integers; the checked operations fail outside the range of an `i64`, the saturating
ones stop at its ends.
-/

namespace I64

def minimum : Int := -9223372036854775808

def maximum : Int := 9223372036854775807

def InRange (value : Int) : Prop := minimum ≤ value ∧ value ≤ maximum

instance (value : Int) : Decidable (InRange value) := inferInstanceAs (Decidable (_ ∧ _))

def checked (value : Int) : Option Int := if InRange value then some value else none

def saturated (value : Int) : Int := max minimum (min maximum value)

variable {value : Int}

theorem checked_eq_some {res : Int} :
    checked value = some res ↔ InRange value ∧ value = res := by
  unfold checked
  split <;> simp_all

theorem inRange_saturated (value : Int) : InRange (saturated value) := by
  unfold InRange saturated minimum maximum
  omega

theorem saturated_eq (mem : InRange value) : saturated value = value := by
  unfold InRange at mem
  unfold saturated
  omega

theorem saturated_le_iff {bd : Int} (low : minimum ≤ bd) (most : bd < maximum) :
    saturated value ≤ bd ↔ value ≤ bd := by
  unfold saturated
  omega

end I64
