import Mathlib.Data.List.Sort
import Tqsdk.Lib.OrdMap

/-!
# Indexes from keys to sets of values

An index is a key-ordered map whose values are ordered sets without repetition.  A key whose last
value is removed goes with it, so in a `Tight` index the keys are those that have a value.
-/

namespace Tqsdk.Index

open List OrdMap

variable {κ ν : Type} [LinearOrder κ] [LinearOrder ν]

/-- The values under a key, none when the key is absent. -/
def values (key : κ) (index : List (κ × List ν)) : List ν := (get? key index).getD []

theorem lawfulBEq : @LawfulBEq ν instBEqOfDecidableEq := inferInstance

def withValue (value : ν) (held : List ν) : List ν :=
  haveI := @lawfulBEq ν _
  if value ∈ held then held else held.orderedInsert (· ≤ ·) value

def add (key : κ) (value : ν) (index : List (κ × List ν)) : List (κ × List ν) :=
  OrdMap.insert key (withValue value (values key index)) index

def remove (key : κ) (value : ν) (index : List (κ × List ν)) : List (κ × List ν) :=
  match get? key index with
  | none => index
  | some held =>
    if held.filter (· ≠ value) = [] then OrdMap.erase key index
    else OrdMap.insert key (held.filter (· ≠ value)) index

/-- Every key has a value. -/
def Tight (index : List (κ × List ν)) : Prop := ∀ key, get? key index ≠ some []

variable {index : List (κ × List ν)} {key alt : κ} {value held : ν}

omit [LinearOrder ν] in
@[simp] theorem values_nil : values key ([] : List (κ × List ν)) = [] := rfl

omit [LinearOrder ν] in
theorem tight_nil : Tight ([] : List (κ × List ν)) := fun _ => nofun

theorem mem_withValue {set : List ν} : held ∈ withValue value set ↔ held = value ∨ held ∈ set := by
  unfold withValue
  split
  · rename_i here
    constructor
    · exact .inr
    · rintro (rfl | member)
      · exact here
      · exact member
  · exact mem_orderedInsert _

@[simp] theorem mem_values_add : held ∈ values alt (add key value index) ↔
    (alt = key ∧ held = value) ∨ held ∈ values alt index := by
  rw [values, add, get?_insert]
  by_cases same : alt = key
  · subst same
    rw [if_pos rfl, Option.getD_some, mem_withValue]
    simp
  · rw [if_neg same]
    simp [same, values]

@[simp] theorem mem_values_remove : held ∈ values alt (remove key value index) ↔
    ¬(alt = key ∧ held = value) ∧ held ∈ values alt index := by
  unfold remove
  cases got : get? key index with
  | none =>
    constructor
    · intro mem
      refine ⟨?_, mem⟩
      rintro ⟨rfl, -⟩
      rw [values, got] at mem
      cases mem
    · exact And.right
  | some set =>
    dsimp only
    by_cases same : alt = key
    · subst same
      have here : ∀ kept : List ν, kept = set.filter (· ≠ value) → (held ∈ kept ↔
          ¬(alt = alt ∧ held = value) ∧ held ∈ values alt index) := by
        rintro kept rfl
        rw [mem_filter, values, got]
        simp [and_comm]
      split
      · rename_i emptied
        rw [← here [] emptied.symm, values, get?_erase, if_pos rfl]
        rfl
      · rw [← here _ rfl, values, get?_insert, if_pos rfl]
        rfl
    · have kept : values alt (if set.filter (· ≠ value) = [] then OrdMap.erase key index
          else OrdMap.insert key (set.filter (· ≠ value)) index) = values alt index := by
        split
        · rw [values, get?_erase_ne same, values]
        · rw [values, get?_insert_ne same, values]
      rw [kept]
      simp [same]

theorem Tight.add (tight : Tight index) (key : κ) (value : ν) : Tight (add key value index) := by
  intro alt
  rw [Index.add, get?_insert]
  split
  · intro emp
    have mem : value ∈ withValue value (values key index) := mem_withValue.mpr (.inl rfl)
    rw [Option.some.inj emp] at mem
    cases mem
  · exact tight alt

theorem Tight.remove (tight : Tight index) (key : κ) (value : ν) :
    Tight (remove key value index) := by
  unfold Index.remove
  cases got : get? key index with
  | none => exact tight
  | some set =>
    dsimp only
    intro alt
    split
    · rw [get?_erase]
      split
      · exact nofun
      · exact tight alt
    · rename_i rem
      rw [get?_insert]
      split
      · exact fun emp => rem (Option.some.inj emp)
      · exact tight alt

omit [LinearOrder ν] in
/-- The keys of a tight index are those that have a value. -/
theorem Tight.isSome_iff (tight : Tight index) :
    (get? key index).isSome ↔ ∃ value, value ∈ values key index := by
  cases got : get? key index with
  | none => simp [values, got]
  | some set =>
    have ne := tight key
    rw [got] at ne
    simp only [values, got, Option.isSome_some, Option.getD_some, true_iff]
    exact exists_mem_of_ne_nil set fun emp => ne (congrArg some emp)

theorem mem_values_foldl_add {keys : List κ} : held ∈ values alt
    (keys.foldl (fun index key => add key value index) index) ↔
      (alt ∈ keys ∧ held = value) ∨ held ∈ values alt index := by
  induction keys generalizing index with
  | nil => simp
  | cons hd keys ih =>
    rw [foldl_cons, ih, mem_values_add, mem_cons]
    tauto

theorem mem_values_foldl_remove {keys : List κ} : held ∈ values alt
    (keys.foldl (fun index key => remove key value index) index) ↔
      ¬(alt ∈ keys ∧ held = value) ∧ held ∈ values alt index := by
  induction keys generalizing index with
  | nil => simp
  | cons hd keys ih =>
    rw [foldl_cons, ih, mem_values_remove, mem_cons]
    tauto

/-! ## Indexes without repetition -/

/-- Every key has a value and lists it once. -/
structure Neat (index : List (κ × List ν)) : Prop where
  sorted : OrdMap.Sorted index
  filled : ∀ entry ∈ index, entry.2.Nodup ∧ entry.2 ≠ []

omit [LinearOrder ν] in
theorem neat_nil : Neat ([] : List (κ × List ν)) := ⟨sorted_nil, fun _ => nofun⟩

section

variable (neat : Neat index)

include neat

omit [LinearOrder ν] in
theorem Neat.nodup_values (key : κ) : (values key index).Nodup := by
  unfold values
  cases got : get? key index with
  | none => exact nodup_nil
  | some set => exact (neat.filled _ (mem_of_get? got)).1

omit [LinearOrder ν] in
theorem Neat.values_of_mem {ent : κ × List ν} (mem : ent ∈ index) :
    values ent.1 index = ent.2 := by
  rw [values, neat.sorted.get?_of_mem mem]
  rfl

theorem Neat.add (key : κ) (value : ν) : Neat (add key value index) := by
  refine ⟨neat.sorted.insert _ _, fun ent mem => ?_⟩
  rcases mem_insert mem with rfl | mem
  · refine ⟨?_, ne_nil_of_mem (mem_withValue.mpr (.inl rfl))⟩
    have once := neat.nodup_values key
    unfold withValue
    split
    · exact once
    · rename_i new
      exact (perm_orderedInsert _ _ _).nodup_iff.mpr (nodup_cons.mpr ⟨new, once⟩)
  · exact neat.filled ent mem

theorem Neat.remove (key : κ) (value : ν) : Neat (remove key value index) := by
  unfold Index.remove
  cases got : get? key index with
  | none => exact neat
  | some set =>
    dsimp only
    split
    · exact ⟨neat.sorted.erase _, fun ent mem => neat.filled ent (mem_erase mem)⟩
    · rename_i left
      refine ⟨neat.sorted.insert _ _, fun ent mem => ?_⟩
      rcases mem_insert mem with rfl | mem
      · exact ⟨(neat.filled _ (mem_of_get? got)).1.filter _, left⟩
      · exact neat.filled ent mem

theorem Neat.foldl_add (keys : List κ) (value : ν) :
    Neat (keys.foldl (fun index key => Index.add key value index) index) := by
  induction keys generalizing index with
  | nil => exact neat
  | cons key keys ih => exact ih (neat.add key value)

theorem Neat.foldl_remove (keys : List κ) (value : ν) :
    Neat (keys.foldl (fun index key => Index.remove key value index) index) := by
  induction keys generalizing index with
  | nil => exact neat
  | cons key keys ih => exact ih (neat.remove key value)

end

end Tqsdk.Index
