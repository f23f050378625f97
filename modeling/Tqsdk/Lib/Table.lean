import Mathlib.Algebra.BigOperators.Group.List.Basic
import Mathlib.Data.List.Basic

/-!
# Tables with a primary key

A table is the list of its rows under their keys, in insertion order.  A key is looked up,
inserted, and its row modified in place; no row is ever removed.
-/

namespace Table

open List

variable {κ α β : Type*} [DecidableEq κ]

def get? (key : κ) : List (κ × α) → Option α
  | [] => none
  | entry :: rest => if entry.1 = key then some entry.2 else get? key rest

def insert (key : κ) (row : α) (table : List (κ × α)) : List (κ × α) :=
  table ++ [(key, row)]

def modify (key : κ) (change : α → α) (table : List (κ × α)) : List (κ × α) :=
  table.map fun entry => if entry.1 = key then (entry.1, change entry.2) else entry

/-- `INSERT … ON CONFLICT DO UPDATE`. -/
def upsert (key : κ) (row : α) (change : α → α) (table : List (κ × α)) : List (κ × α) :=
  match get? key table with
  | none => insert key row table
  | some _ => modify key change table

theorem get?_insert (key alt : κ) (row : α) (table : List (κ × α)) :
    get? alt (insert key row table) =
      (get? alt table).or (if key = alt then some row else none) := by
  induction table with
  | nil => simp [insert, get?]
  | cons ent table ih =>
    unfold insert at ih ⊢
    rw [cons_append, get?, get?, ih]
    split <;> simp

theorem get?_modify (key alt : κ) (chg : α → α) (table : List (κ × α)) :
    get? alt (modify key chg table) =
      if alt = key then (get? alt table).map chg else get? alt table := by
  induction table with
  | nil => simp [modify, get?]
  | cons ent table ih =>
    unfold modify at ih ⊢
    rw [map_cons, get?, get?, ih]
    by_cases same : ent.1 = alt
    · subst same
      by_cases here : ent.1 = key <;> simp [here]
    · have skipped :
          (if ent.1 = key then (ent.1, chg ent.2) else ent).1 ≠ alt := by
        split <;> exact same
      rw [if_neg skipped, if_neg same]

theorem get?_upsert (key alt : κ) (row : α) (chg : α → α) (table : List (κ × α)) :
    get? alt (upsert key row chg table) =
      if alt = key then some (((get? key table).map chg).getD row)
      else get? alt table := by
  unfold upsert
  cases got : get? key table with
  | none =>
    simp only [get?_insert, Option.map_none, Option.getD_none]
    by_cases same : alt = key
    · simp [same, got]
    · simp [same, Ne.symm same]
  | some old =>
    simp only [get?_modify, Option.map_some, Option.getD_some]
    by_cases same : alt = key
    · simp [same, got]
    · simp [same]

variable {table : List (κ × α)}

theorem mem_of_get? {key : κ} {row : α} (got : get? key table = some row) :
    (key, row) ∈ table := by
  induction table with
  | nil => cases got
  | cons ent table ih =>
    rw [get?] at got
    split at got
    · rename_i here
      cases got
      exact here ▸ mem_cons_self
    · exact mem_cons_of_mem _ (ih got)

/-- Every key of a table with distinct keys finds its own row. -/
theorem get?_of_mem {key : κ} {row : α} (nd : (table.map Prod.fst).Nodup)
    (mem : (key, row) ∈ table) :
    get? key table = some row := by
  induction table with
  | nil => cases mem
  | cons ent table ih =>
    rw [map_cons, nodup_cons] at nd
    rcases mem_cons.mp mem with rfl | later
    · rw [get?, if_pos rfl]
    · have ne : ent.1 ≠ key := by
        intro same
        exact nd.1 (same ▸ mem_map_of_mem (f := Prod.fst) later)
      rw [get?, if_neg ne]
      exact ih nd.2 later

theorem get?_eq_none_iff {key : κ} :
    get? key table = none ↔ key ∉ table.map Prod.fst := by
  induction table with
  | nil => simp [get?]
  | cons ent table ih =>
    rw [get?, map_cons, mem_cons, not_or]
    split
    · rename_i here
      simp [here]
    · rename_i alt
      rw [ih]
      simp [Ne.symm alt]

theorem keys_modify (key : κ) (chg : α → α) (table : List (κ × α)) :
    (modify key chg table).map Prod.fst = table.map Prod.fst := by
  unfold modify
  rw [map_map]
  congr 1
  funext entry
  simp only [Function.comp_apply]
  split <;> rfl

/-- A view of the rows that the change does not touch. -/
theorem map_modify {view : κ × α → β} {chg : α → α} (key : κ)
    (same : ∀ key row, view (key, chg row) = view (key, row)) (table : List (κ × α)) :
    (modify key chg table).map view = table.map view := by
  unfold modify
  rw [map_map]
  congr 1
  funext entry
  simp only [Function.comp_apply]
  split
  · exact same entry.1 entry.2
  · rfl

end Table
