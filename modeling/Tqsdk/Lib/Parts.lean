import Mathlib.Data.List.Basic
import Mathlib.Data.List.Forall2

/-!
# Lists in parts

Parts without items may be left out, and what related lists have of one another.
-/

namespace Parts

open List

variable {α β : Type}

theorem flatMap_filter {its : List α} {keep : α → Bool} {f : α → List β}
    (nothing : ∀ item ∈ its, keep item = false → f item = []) :
    (its.filter keep).flatMap f = its.flatMap f := by
  induction its with
  | nil => rfl
  | cons item its ih =>
    have alts := ih fun alt mem => nothing alt (mem_cons_of_mem _ mem)
    rw [filter_cons, flatMap_cons]
    split
    · rw [flatMap_cons, alts]
    · rw [nothing item mem_cons_self (Bool.not_eq_true _ ▸ ‹_›), nil_append, alts]

theorem exists_of_forall₂ {R : α → β → Prop} {xs : List α} {ys : List β}
    (related : List.Forall₂ R xs ys) {x : α} (member : x ∈ xs) : ∃ y ∈ ys, R x y := by
  induction related with
  | nil => cases member
  | cons hd _ ih =>
    rcases mem_cons.mp member with rfl | member
    · exact ⟨_, mem_cons_self, hd⟩
    · obtain ⟨y, yMember, hld⟩ := ih member
      exact ⟨y, mem_cons_of_mem _ yMember, hld⟩

end Parts
