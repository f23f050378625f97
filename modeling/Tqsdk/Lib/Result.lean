import Mathlib.Data.List.Basic

/-!
# Computations that may fail

How a computation in `Except` that returned is taken apart: into the parts of a sequence, and
into the elements of a traversed list.
-/

namespace Result

open List

variable {ε : Type*} {α β : Type}

theorem bind_eq_ok {part : Except ε α} {rest : α → Except ε β} {res : β} :
    (part >>= rest) = .ok res ↔ ∃ val, part = .ok val ∧ rest val = .ok res := by
  cases part with
  | error error => simp [bind, Except.bind]
  | ok val => simp [bind, Except.bind]

theorem of_bind {part : Except ε α} {rest : α → Except ε β} {res : β}
    (ok : (part >>= rest) = .ok res) :
    ∃ val, part = .ok val ∧ rest val = .ok res :=
  bind_eq_ok.mp ok

theorem ok_bind (val : α) (rest : α → Except ε β) : (Except.ok val >>= rest) = rest val := rfl

theorem map_eq_ok {part : Except ε α} {chg : α → β} {res : β} :
    (chg <$> part) = .ok res ↔ ∃ val, part = .ok val ∧ chg val = res := by
  cases part with
  | error error => simp [Functor.map, Except.map]
  | ok val => simp [Functor.map, Except.map]

variable {xs : List α} {f : α → Except ε β} {ys : List β}

theorem forM_eq_ok {check : α → Except ε Unit} :
    xs.forM check = .ok () ↔ ∀ x ∈ xs, check x = .ok () := by
  induction xs with
  | nil => exact iff_of_true rfl fun _ mem => by cases mem
  | cons x xs ih =>
    have hd : (x :: xs).forM check = (check x >>= fun _ => xs.forM check) := rfl
    rw [hd, bind_eq_ok, forall_mem_cons, ← ih]
    exact ⟨fun ⟨_, hd, rest⟩ => ⟨hd, rest⟩, fun ⟨hd, rest⟩ => ⟨(), hd, rest⟩⟩

theorem mapM_congr {g : α → Except ε β} (same : ∀ x ∈ xs, f x = g x) :
    xs.mapM f = xs.mapM g := by
  induction xs with
  | nil => rfl
  | cons x xs ih =>
    rw [mapM_cons, mapM_cons, same x mem_cons_self, ih fun y mem => same y (mem_cons_of_mem _ mem)]

theorem mapM_eq_map {g : α → β} (every : ∀ x ∈ xs, f x = .ok (g x)) :
    xs.mapM f = .ok (xs.map g) := by
  induction xs with
  | nil => rfl
  | cons x xs ih =>
    rw [mapM_cons, every x mem_cons_self, ih fun y mem => every y (mem_cons_of_mem _ mem)]
    rfl

theorem of_mapM_cons {x : α} (trav : (x :: xs).mapM f = .ok ys) :
    ∃ y rest, f x = .ok y ∧ xs.mapM f = .ok rest ∧ y :: rest = ys := by
  rw [mapM_cons] at trav
  obtain ⟨y, hit, trav⟩ := bind_eq_ok.mp trav
  obtain ⟨rest, others, same⟩ := bind_eq_ok.mp trav
  exact ⟨y, rest, hit, others, Except.ok.inj same⟩

/-- Every element of a list that was traversed gave one of the results. -/
theorem mem_of_mapM (trav : xs.mapM f = .ok ys) {x : α} (mem : x ∈ xs) :
    ∃ y ∈ ys, f x = .ok y := by
  induction xs generalizing ys with
  | nil => cases mem
  | cons hd xs ih =>
    obtain ⟨y, rest, hit, traversedRest, rfl⟩ := of_mapM_cons trav
    cases mem with
    | head => exact ⟨y, mem_cons_self, hit⟩
    | tail _ mem =>
      obtain ⟨z, zMember, hit⟩ := ih traversedRest mem
      exact ⟨z, mem_cons_of_mem _ zMember, hit⟩

theorem of_mem_mapM (trav : xs.mapM f = .ok ys) {y : β} (mem : y ∈ ys) :
    ∃ x ∈ xs, f x = .ok y := by
  induction xs generalizing ys with
  | nil =>
    obtain rfl : [] = ys := Except.ok.inj trav
    cases mem
  | cons hd xs ih =>
    obtain ⟨z, rest, hit, traversedRest, rfl⟩ := of_mapM_cons trav
    cases mem with
    | head => exact ⟨hd, mem_cons_self, hit⟩
    | tail _ mem =>
      obtain ⟨x, xMember, hit⟩ := ih traversedRest mem
      exact ⟨x, mem_cons_of_mem _ xMember, hit⟩

/-- What the results have of their elements they have in the same order. -/
theorem map_of_mapM {γ : Type} {g : α → γ} {h : β → γ} (trav : xs.mapM f = .ok ys)
    (same : ∀ x y, f x = .ok y → h y = g x) :
    ys.map h = xs.map g := by
  induction xs generalizing ys with
  | nil =>
    obtain rfl : [] = ys := Except.ok.inj trav
    rfl
  | cons hd xs ih =>
    obtain ⟨y, rest, hit, traversedRest, rfl⟩ := of_mapM_cons trav
    rw [map_cons, map_cons, same hd y hit, ih traversedRest]

theorem exists_mapM (every : ∀ x ∈ xs, ∃ y, f x = .ok y) :
    ∃ ys, xs.mapM f = .ok ys := by
  induction xs with
  | nil => exact ⟨[], rfl⟩
  | cons x xs ih =>
    obtain ⟨y, hit⟩ := every x mem_cons_self
    obtain ⟨ys, rest⟩ := ih fun alt mem => every alt (mem_cons_of_mem _ mem)
    exact ⟨y :: ys, by rw [mapM_cons, hit, ok_bind, rest]; rfl⟩

end Result
