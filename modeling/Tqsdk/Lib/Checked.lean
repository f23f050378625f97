import Mathlib.Algebra.Group.Nat.Defs
import Tqsdk.Lib.Result

/-!
# Computations that may panic

Machine arithmetic, indices and slices stop a program outside their bounds.  A computation agrees
with a pure one where it never stops so and ends as that one does.
-/

/-- How a computation ends that has no value: with an error that it reports, or by a panic. -/
inductive Fault (ε : Type)
  | failed (error : ε)
  | panicked
  deriving DecidableEq

namespace Checked

variable {ε α β : Type}

/-! ## Operations -/

/-- The sum of words of some width. -/
def add (width left right : Nat) : Except (Fault ε) Nat :=
  if left + right < 2 ^ width then .ok (left + right) else .error .panicked

def mul (width left right : Nat) : Except (Fault ε) Nat :=
  if left * right < 2 ^ width then .ok (left * right) else .error .panicked

def sub (left right : Nat) : Except (Fault ε) Nat :=
  if right ≤ left then .ok (left - right) else .error .panicked

/-- Only the amount is checked; bits that leave the word are lost. -/
def shiftLeft (width word amount : Nat) : Except (Fault ε) Nat :=
  if amount < width then .ok ((word <<< amount) % 2 ^ width) else .error .panicked

def shiftRight (width word amount : Nat) : Except (Fault ε) Nat :=
  if amount < width then .ok (word >>> amount) else .error .panicked

/-- The items from `start` on and in front of `stop`, where there are such. -/
def range (items : List α) (start stop : Nat) : Option (List α) :=
  if start ≤ stop ∧ stop ≤ items.length then some ((items.drop start).take (stop - start))
  else none

def orPanic : Option α → Except (Fault ε) α
  | some value => .ok value
  | none => .error .panicked

def orFail (error : ε) : Option α → Except (Fault ε) α
  | some value => .ok value
  | none => .error (.failed error)

def slice (items : List α) (start stop : Nat) : Except (Fault ε) (List α) :=
  orPanic (range items start stop)

def index (items : List α) (position : Nat) : Except (Fault ε) α := orPanic items[position]?

/-- A computation without panics. -/
def lift (computation : Except ε α) : Except (Fault ε) α := computation.mapError .failed

variable {right : Nat}

theorem add_eq {wid left : Nat} (fits : left + right < 2 ^ wid) :
    (add wid left right : Except (Fault ε) Nat) = .ok (left + right) := if_pos fits

theorem mul_eq {wid left : Nat} (fits : left * right < 2 ^ wid) :
    (mul wid left right : Except (Fault ε) Nat) = .ok (left * right) := if_pos fits

theorem sub_eq {left : Nat} (le : right ≤ left) :
    (sub left right : Except (Fault ε) Nat) = .ok (left - right) := if_pos le

theorem slice_eq {items : List α} {lo stop : Nat} (ord : lo ≤ stop) (mem : stop ≤ items.length) :
    (slice items lo stop : Except (Fault ε) (List α)) = .ok ((items.drop lo).take (stop - lo)) := by
  rw [slice, range, if_pos ⟨ord, mem⟩]
  rfl

theorem range_eq_none {its : List α} {lo stop : Nat} (outs : its.length < stop) :
    range its lo stop = none := if_neg fun mem => absurd mem.2 (Nat.not_le.mpr outs)

/-! ## Agreement -/

/-- Without a panic, in the same error or in related values. -/
def Agrees (related : α → β → Prop) : Except (Fault ε) α → Except ε β → Prop
  | .ok value, .ok other => related value other
  | .error (.failed error), .error other => error = other
  | _, _ => False

variable {related : α → β → Prop} {computation : Except (Fault ε) α} {mdl : Except ε β}

theorem Agrees.bind {α' β' : Type} {more : α' → β' → Prop} {rest : α → Except (Fault ε) α'}
    {modelRest : β → Except ε β'} (agr : Agrees related computation mdl)
    (restAgrees : ∀ val alt, related val alt → Agrees more (rest val) (modelRest alt)) :
    Agrees more (computation >>= rest) (mdl >>= modelRest) := by
  cases computation with
  | ok val =>
    cases mdl with
    | ok alt => exact restAgrees val alt agr
    | error error => exact agr.elim
  | error err =>
    cases err with
    | panicked => cases mdl <;> exact agr.elim
    | failed error =>
      cases mdl with
      | ok alt => exact agr.elim
      | error alt => exact agr

theorem agrees_ok {val : β} :
    Agrees related computation (.ok val) ↔ ∃ hit, computation = .ok hit ∧ related hit val := by
  cases computation with
  | ok hit => simp [Agrees]
  | error err => cases err <;> simp [Agrees]

theorem agrees_error {error : ε} :
    Agrees related computation (.error error) ↔ computation = .error (.failed error) := by
  cases computation with
  | ok hit => simp [Agrees]
  | error err => cases err <;> simp [Agrees]

theorem Agrees.mono {more : α → β → Prop} (agr : Agrees related computation mdl)
    (implies : ∀ val alt, related val alt → more val alt) :
    Agrees more computation mdl := by
  cases mdl with
  | ok alt =>
    obtain ⟨val, isValue, hld⟩ := agrees_ok.mp agr
    exact agrees_ok.mpr ⟨val, isValue, implies val alt hld⟩
  | error error => exact agrees_error.mpr (agrees_error.mp agr)

/-- What the model does to its value behind the computation. -/
theorem Agrees.map_right {β' : Type} {more : α → β' → Prop} {rest : β → Except ε β'}
    (agr : Agrees related computation mdl)
    (restOk : ∀ val alt, related val alt → ∃ res, rest alt = .ok res ∧ more val res) :
    Agrees more computation (mdl >>= rest) := by
  cases mdl with
  | ok alt =>
    obtain ⟨val, isValue, hld⟩ := agrees_ok.mp agr
    obtain ⟨res, isResult, hld⟩ := restOk val alt hld
    show Agrees more computation (rest alt)
    rw [isResult]
    exact agrees_ok.mpr ⟨val, isValue, hld⟩
  | error error => exact agrees_error.mpr (agrees_error.mp agr)

theorem Agrees.eq_lift {computation : Except (Fault ε) α} {mdl : Except ε α}
    (agr : Agrees Eq computation mdl) : computation = lift mdl := by
  cases computation with
  | ok val =>
    cases mdl with
    | ok alt => exact congrArg Except.ok agr
    | error error => exact agr.elim
  | error err =>
    cases err with
    | panicked => cases mdl <;> exact agr.elim
    | failed error =>
      cases mdl with
      | ok alt => exact agr.elim
      | error alt => exact congrArg (fun error => Except.error (Fault.failed error)) agr

theorem lift_agrees (mdl : Except ε α) : Agrees Eq (lift mdl) mdl := by
  cases mdl with
  | ok val => exact (rfl : val = val)
  | error error => exact (rfl : error = error)

theorem lift_eq_ok {mdl : Except ε α} {val : α} : lift mdl = .ok val ↔ mdl = .ok val := by
  cases mdl with
  | ok alt => simp [lift, Except.mapError]
  | error error => simp [lift, Except.mapError]

theorem lift_ne_panicked (mdl : Except ε α) : lift mdl ≠ .error .panicked := by
  cases mdl with
  | ok alt => simp [lift, Except.mapError]
  | error error => simp [lift, Except.mapError]

end Checked
