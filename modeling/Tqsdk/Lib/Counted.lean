import Mathlib.Tactic.Common

/-!
# Computations that may fail and count

A computation may stop with an error, and counts the requests it made so far whether it stops or
not.  `eval` runs one from a count; the rules take a run apart along the program.
-/

abbrev Counted (ε α : Type) : Type := ExceptT ε (StateM Nat) α

namespace Counted

variable {ε α β : Type}

def eval (part : Counted ε α) (count : Nat) : Except ε α × Nat := part.run.run count

@[simp] theorem eval_pure (val : α) (count : Nat) :
    eval (pure val : Counted ε α) count = (.ok val, count) := rfl

@[simp] theorem eval_throw (error : ε) (count : Nat) :
    eval (throw error : Counted ε α) count = (.error error, count) := rfl

theorem eval_lift {part res : Except ε α} (same : part = res) (count : Nat) :
    eval (liftM part : Counted ε α) count = (res, count) := by
  rw [same]
  rfl

variable {next : Nat} {part : Counted ε α} {rest : α → Counted ε β}

theorem eval_bind_of_ok {count : Nat} {val : α} (ret : eval part count = (.ok val, next)) :
    eval (part >>= rest) count = eval (rest val) next := by
  simp only [eval, bind, ExceptT.bind, ExceptT.mk, ExceptT.run, StateT.bind, StateT.run] at *
  rw [ret]
  rfl

theorem eval_bind_of_error {count : Nat} {error : ε}
    (stopped : eval part count = (.error error, next)) :
    eval (part >>= rest) count = (.error error, next) := by
  simp only [eval, bind, ExceptT.bind, ExceptT.mk, ExceptT.run, StateT.bind, StateT.run] at *
  rw [stopped]
  rfl

/-- From `count`, a returned value meets `post` and an error meets `failed`. -/
def Ensures (part : Counted ε α) (count : Nat) (post : α → Nat → Prop)
    (failed : ε → Nat → Prop) : Prop :=
  match eval part count with
  | (.ok value, next) => post value next
  | (.error error, next) => failed error next

variable {post : β → Nat → Prop} {failed : ε → Nat → Prop} {count : Nat}

theorem Ensures.of_eval_ok {part : Counted ε β} {val : β}
    (ret : eval part count = (.ok val, next)) (hld : post val next) :
    Ensures part count post failed := by
  unfold Ensures
  rw [ret]
  exact hld

theorem Ensures.of_eval_error {part : Counted ε β} {error : ε}
    (stopped : eval part count = (.error error, next)) (hld : failed error next) :
    Ensures part count post failed := by
  unfold Ensures
  rw [stopped]
  exact hld

theorem Ensures.pure {val : β} (hld : post val count) :
    Ensures (pure val : Counted ε β) count post failed := hld

theorem Ensures.throw {error : ε} (hld : failed error count) :
    Ensures (throw error : Counted ε β) count post failed := hld

theorem Ensures.bind {mid : α → Nat → Prop} (hd : Ensures part count mid failed)
    (next : ∀ val count, mid val count → Ensures (rest val) count post failed) :
    Ensures (part >>= rest) count post failed := by
  unfold Ensures at hd
  split at hd
  · rename_i val rch ret
    have continued := next val rch hd
    unfold Ensures at continued ⊢
    rwa [eval_bind_of_ok ret]
  · rename_i err rch stop
    exact Ensures.of_eval_error (eval_bind_of_error stop) hd

theorem Ensures.mono {part : Counted ε β} {weaker : β → Nat → Prop} {wider : ε → Nat → Prop}
    (hld : Ensures part count post failed) (ret : ∀ val count, post val count → weaker val count)
    (stopped : ∀ error count, failed error count → wider error count) :
    Ensures part count weaker wider := by
  unfold Ensures at hld ⊢
  split at hld
  · exact ret _ _ hld
  · exact stopped _ _ hld

end Counted
