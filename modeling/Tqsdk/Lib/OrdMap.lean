import Mathlib.Algebra.BigOperators.Group.List.Basic
import Mathlib.Data.List.Pairwise
import Mathlib.Order.Defs.LinearOrder
import Mathlib.Order.Lattice
import Mathlib.Tactic.Common
import Mathlib.Tactic.Tauto

/-!
# Key-ordered maps as association lists

A map is a list of entries, looked up by the first entry with the key.  `insert` keeps
the position of a key that is present and otherwise places the entry in key order;
`erase` drops every entry with the key.  The lookup equations need no well-formedness
premise, so a frame argument about one key never has to carry one.

`Sorted` (strictly increasing keys) is the canonical form: two sorted maps with the same
lookups are the same list (`Sorted.ext`).

Nothing here mentions JSON.
-/

namespace Tqsdk.OrdMap

open List

variable {κ α : Type} [LinearOrder κ]

/-- The value stored under `k`. -/
def get? (k : κ) : List (κ × α) → Option α
  | [] => none
  | (k', v) :: rest => if k = k' then some v else get? k rest

/-- Place a new entry before the first larger key. -/
def place (k : κ) (v : α) : List (κ × α) → List (κ × α)
  | [] => [(k, v)]
  | (k', v') :: rest =>
    if k < k' then (k, v) :: (k', v') :: rest else (k', v') :: place k v rest

/-- Overwrite the first entry with the key. -/
def overwrite (k : κ) (v : α) : List (κ × α) → List (κ × α)
  | [] => []
  | (k', v') :: rest =>
    if k = k' then (k', v) :: rest else (k', v') :: overwrite k v rest

/-- Store `v` under `k`, in place when the key is present. -/
def insert (k : κ) (v : α) (m : List (κ × α)) : List (κ × α) :=
  if (get? k m).isSome then overwrite k v m else place k v m

/-- Drop every entry with the key. -/
def erase (k : κ) (m : List (κ × α)) : List (κ × α) :=
  m.filter fun e => decide (e.1 ≠ k)

/-- Strictly increasing keys. -/
def Sorted (m : List (κ × α)) : Prop :=
  m.Pairwise fun a b => a.1 < b.1

/-! ## Lookup equations -/

@[simp] theorem get?_nil (k : κ) : get? k ([] : List (κ × α)) = none := rfl

section

variable (k k' : κ) (v : α) (m : List (κ × α))

include k k' v m

theorem get?_cons :
    get? k ((k', v) :: m) = if k = k' then some v else get? k m := rfl

theorem get?_place (new : get? k m = none) :
    get? k' (place k v m) = if k' = k then some v else get? k' m := by
  induction m with
  | nil => simp [place, get?]
  | cons e m ih =>
    obtain ⟨k₀, v₀⟩ := e
    rw [get?_cons] at new
    split at new
    · cases new
    · rename_i ne
      rw [place]
      split
      · simp only [get?_cons]
      · simp only [get?_cons, ih new]
        by_cases same : k' = k₀
        · subst same
          have : k' ≠ k := fun h => ne h.symm
          simp [this]
        · simp [same]

theorem get?_overwrite (old : (get? k m).isSome) :
    get? k' (overwrite k v m) = if k' = k then some v else get? k' m := by
  induction m with
  | nil => cases old
  | cons e m ih =>
    obtain ⟨k₀, v₀⟩ := e
    rw [overwrite]
    split
    · rename_i same
      subst same
      simp only [get?_cons]
      split <;> rfl
    · rename_i ne
      rw [get?_cons, if_neg ne] at old
      simp only [get?_cons, ih old]
      by_cases same : k' = k₀
      · subst same
        have : k' ≠ k := fun h => ne h.symm
        simp [this]
      · simp [same]

theorem get?_insert :
    get? k' (insert k v m) = if k' = k then some v else get? k' m := by
  unfold insert
  split
  · rename_i old
    exact get?_overwrite k k' v m old
  · rename_i new
    exact get?_place k k' v m (by simpa using new)

end

@[simp] theorem get?_insert_self (k : κ) (v : α) (m : List (κ × α)) :
    get? k (insert k v m) = some v := by
  rw [get?_insert, if_pos rfl]

variable {m : List (κ × α)} {k : κ} {v : α} {e : κ × α} {key : α → κ} {rows : List α}

theorem get?_insert_ne {k' : κ} (ne : k' ≠ k) (v : α) (m : List (κ × α)) :
    get? k' (insert k v m) = get? k' m := by
  rw [get?_insert, if_neg ne]

theorem get?_erase (k k' : κ) (m : List (κ × α)) :
    get? k' (erase k m) = if k' = k then none else get? k' m := by
  induction m with
  | nil => simp [erase]
  | cons e m ih =>
    obtain ⟨k₀, v₀⟩ := e
    by_cases drop : k₀ = k
    · subst drop
      have : erase k₀ ((k₀, v₀) :: m) = erase k₀ m := by simp [erase]
      rw [this, ih, get?_cons]
      split <;> rfl
    · have : erase k ((k₀, v₀) :: m) = (k₀, v₀) :: erase k m := by simp [erase, drop]
      rw [this, get?_cons, ih, get?_cons]
      by_cases same : k' = k₀
      · subst same
        simp [drop]
      · simp [same]

@[simp] theorem get?_erase_self (k : κ) (m : List (κ × α)) : get? k (erase k m) = none := by
  rw [get?_erase, if_pos rfl]

theorem get?_erase_ne {k' : κ} (ne : k' ≠ k) (m : List (κ × α)) :
    get? k' (erase k m) = get? k' m := by
  rw [get?_erase, if_neg ne]

theorem insert_of_get? (got : get? k m = some v) :
    insert k v m = m := by
  unfold insert
  rw [if_pos (by simp [got])]
  induction m with
  | nil => cases got
  | cons e m ih =>
    obtain ⟨k₀, v₀⟩ := e
    rw [get?_cons] at got
    rw [overwrite]
    split
    · rename_i same
      rw [if_pos same] at got
      cases got
      rfl
    · rename_i ne
      rw [if_neg ne] at got
      rw [ih got]

theorem overwrite_overwrite (k : κ) (v w : α) (m : List (κ × α)) :
    overwrite k w (overwrite k v m) = overwrite k w m := by
  induction m with
  | nil => rfl
  | cons e m ih =>
    obtain ⟨k₀, v₀⟩ := e
    by_cases same : k = k₀
    · simp [overwrite, same]
    · simp [overwrite, same, ih]

theorem overwrite_place (v w : α) (new : get? k m = none) :
    overwrite k w (place k v m) = place k w m := by
  induction m with
  | nil => simp [place, overwrite]
  | cons e m ih =>
    obtain ⟨k₀, v₀⟩ := e
    have ne : k ≠ k₀ := by
      rintro rfl
      rw [get?_cons, if_pos rfl] at new
      cases new
    rw [get?_cons, if_neg ne] at new
    by_cases pre : k < k₀
    · simp [place, overwrite, pre]
    · simp [place, overwrite, pre, ne, ih new]

theorem insert_insert (k : κ) (v w : α) (m : List (κ × α)) :
    insert k w (insert k v m) = insert k w m := by
  have here : (get? k (insert k v m)).isSome = true := by simp
  rw [insert, if_pos here]
  unfold insert
  cases got : get? k m with
  | none => exact overwrite_place v w got
  | some old => exact overwrite_overwrite k v w m

theorem mem_of_get? (got : get? k m = some v) :
    (k, v) ∈ m := by
  induction m with
  | nil => cases got
  | cons e m ih =>
    obtain ⟨k₀, v₀⟩ := e
    rw [get?_cons] at got
    split at got
    · rename_i same
      cases got
      subst same
      exact mem_cons_self
    · exact mem_cons_of_mem _ (ih got)

/-! ## Entries of an updated map -/

theorem get?_ne_none_of_mem (mem : e ∈ m) :
    get? e.1 m ≠ none := by
  induction m with
  | nil => cases mem
  | cons e' m ih =>
    obtain ⟨k₀, v₀⟩ := e'
    rw [get?_cons]
    split
    · exact nofun
    · rename_i ne
      rcases mem_cons.mp mem with same | later
      · rw [same] at ne
        exact absurd rfl ne
      · exact ih later

theorem mem_place (mem : e ∈ place k v m) :
    e = (k, v) ∨ e ∈ m := by
  induction m with
  | nil => simpa [place] using mem
  | cons e₀ m ih =>
    obtain ⟨k₀, v₀⟩ := e₀
    rw [place] at mem
    split at mem
    · simpa using mem
    · rcases mem_cons.mp mem with rfl | later
      · exact .inr mem_cons_self
      · exact (ih later).imp_right (mem_cons_of_mem _)

/-- An entry of an overwritten map is the new value or an old entry; its key was there before. -/
theorem mem_overwrite (mem : e ∈ overwrite k v m) :
    (e = (k, v) ∨ e ∈ m) ∧ e.1 ∈ m.map Prod.fst := by
  induction m with
  | nil => cases mem
  | cons e₀ m ih =>
    obtain ⟨k₀, v₀⟩ := e₀
    rw [overwrite] at mem
    split at mem
    · rename_i same
      subst same
      rcases mem_cons.mp mem with rfl | later
      · exact ⟨.inl rfl, by simp⟩
      · exact ⟨.inr (mem_cons_of_mem _ later), mem_map_of_mem (mem_cons_of_mem _ later)⟩
    · rcases mem_cons.mp mem with rfl | later
      · exact ⟨.inr mem_cons_self, by simp⟩
      · obtain ⟨origin, key⟩ := ih later
        exact ⟨origin.imp_right (mem_cons_of_mem _), mem_cons_of_mem _ key⟩

theorem mem_insert (mem : e ∈ insert k v m) :
    e = (k, v) ∨ e ∈ m := by
  unfold insert at mem
  split at mem
  · exact (mem_overwrite mem).1
  · exact mem_place mem

theorem mem_erase (mem : e ∈ erase k m) : e ∈ m :=
  (mem_filter.mp mem).1

/-! ## Sorted maps -/

theorem sorted_nil : Sorted ([] : List (κ × α)) := List.Pairwise.nil

theorem Sorted.head_lt (srt : Sorted ((k, v) :: m)) (mem : e ∈ m) : k < e.1 :=
  (pairwise_cons.mp srt).1 e mem

theorem Sorted.tail (srt : Sorted (e :: m)) : Sorted m :=
  (pairwise_cons.mp srt).2

section

variable (srt : Sorted m)

include srt

theorem Sorted.place (k : κ) (v : α) (new : get? k m = none) :
    Sorted (place k v m) := by
  induction m with
  | nil => exact pairwise_singleton _ _
  | cons e m ih =>
    obtain ⟨k₀, v₀⟩ := e
    rw [get?_cons] at new
    split at new
    · cases new
    · rename_i ne
      rw [OrdMap.place]
      split
      · rename_i pre
        refine pairwise_cons.mpr ⟨fun e mem => ?_, srt⟩
        rcases mem_cons.mp mem with rfl | later
        · exact pre
        · exact lt_trans pre (srt.head_lt later)
      · rename_i notBefore
        refine pairwise_cons.mpr ⟨fun e mem => ?_, ih srt.tail new⟩
        rcases mem_place mem with rfl | later
        · exact lt_of_le_of_ne (not_lt.mp notBefore) (fun h => ne h.symm)
        · exact srt.head_lt later

theorem Sorted.overwrite (k : κ) (v : α) :
    Sorted (overwrite k v m) := by
  induction m with
  | nil => exact sorted_nil
  | cons e m ih =>
    obtain ⟨k₀, v₀⟩ := e
    rw [OrdMap.overwrite]
    split
    · exact pairwise_cons.mpr ⟨fun e mem => srt.head_lt mem, srt.tail⟩
    · refine pairwise_cons.mpr ⟨fun e mem => ?_, ih srt.tail⟩
      obtain ⟨old, oldMember, same⟩ := mem_map.mp (mem_overwrite mem).2
      rw [← same]
      exact srt.head_lt oldMember

theorem Sorted.insert (k : κ) (v : α) :
    Sorted (insert k v m) := by
  unfold OrdMap.insert
  split
  · exact srt.overwrite k v
  · rename_i new
    exact srt.place k v (by simpa using new)

theorem getLast?_insert (latest : ∀ ent ∈ m, ent.1 ≤ k) :
    (insert k v m).getLast? = some (k, v) := by
  have got : (k, v) ∈ insert k v m := mem_of_get? (by rw [get?_insert, if_pos rfl])
  obtain ⟨ents, last, all⟩ := (eq_nil_or_concat' (insert k v m)).resolve_left (ne_nil_of_mem got)
  have ord := srt.insert k v
  rw [all] at got ord
  rw [all, getLast?_concat]
  rcases mem_append.mp got with inner | isLast
  · have less := (pairwise_append.mp ord).2.2 _ inner last (mem_singleton_self last)
    have mem : last ∈ insert k v m := by
      rw [all]
      exact mem_append_right _ (mem_singleton_self last)
    rcases mem_insert mem with rfl | old
    · exact absurd less (lt_irrefl k)
    · exact absurd less (not_lt.mpr (latest last old))
  · exact congrArg some (mem_singleton.mp isLast).symm

theorem Sorted.erase (k : κ) : Sorted (erase k m) :=
  List.Pairwise.filter _ srt

/-- In a sorted map every entry is the one its key looks up. -/
theorem Sorted.get?_of_mem (mem : (k, v) ∈ m) : get? k m = some v := by
  induction m with
  | nil => cases mem
  | cons e m ih =>
    obtain ⟨k₀, v₀⟩ := e
    rw [get?_cons]
    rcases mem_cons.mp mem with same | later
    · cases same
      rw [if_pos rfl]
    · rw [if_neg (ne_of_gt (srt.head_lt later)), ih srt.tail later]

theorem Sorted.mem_insert_iff (k : κ) (v : α) :
    e ∈ OrdMap.insert k v m ↔ e = (k, v) ∨ (e ∈ m ∧ e.1 ≠ k) := by
  obtain ⟨k', v'⟩ := e
  have looked : (k', v') ∈ OrdMap.insert k v m ↔ get? k' (OrdMap.insert k v m) = some v' :=
    ⟨(srt.insert k v).get?_of_mem, mem_of_get?⟩
  rw [looked, get?_insert]
  split
  · rename_i same
    subst same
    exact ⟨fun hit => .inl (by rw [Option.some_inj.mp hit]), fun hit =>
      hit.elim (fun equal => by rw [(Prod.mk.inj equal).2]) fun alt => absurd rfl alt.2⟩
  · rename_i alt
    refine ⟨fun hit => .inr ⟨mem_of_get? hit, alt⟩, fun hit => ?_⟩
    rcases hit with equal | ⟨mem, -⟩
    · exact absurd (Prod.mk.inj equal).1 alt
    · exact srt.get?_of_mem mem

theorem Sorted.keys_nodup : (m.map Prod.fst).Nodup := by
  unfold List.Nodup
  rw [pairwise_map]
  exact srt.imp fun pre => ne_of_lt pre

end

theorem Sorted.get?_head_tail (srt : Sorted ((k, v) :: m)) : get? k m = none := by
  cases got : get? k m with
  | none => rfl
  | some w => exact absurd (srt.head_lt (mem_of_get? got)) (lt_irrefl _)

theorem Sorted.filter (srt : Sorted m) (p : κ × α → Bool) : Sorted (m.filter p) :=
  List.Pairwise.filter _ srt

theorem Sorted.get?_filter (srt : Sorted m) (p : α → Bool) (k : κ) :
    get? k (m.filter fun e => p e.2) = (get? k m).filter p := by
  induction m with
  | nil => rfl
  | cons e m ih =>
    obtain ⟨k₀, v₀⟩ := e
    rw [filter_cons, get?_cons]
    by_cases same : k = k₀
    · subst same
      cases keep : p v₀ with
      | true => simp [keep, get?_cons, Option.filter]
      | false => simp [keep, ih srt.tail, srt.get?_head_tail, Option.filter]
    · cases keep : p v₀ with
      | true => simp [get?_cons, same, ih srt.tail]
      | false => simp [same, ih srt.tail]

/-- A filter on the keys leaves the lookups of the keys it keeps. -/
theorem get?_filter_key {keep : κ → Bool} (kept : keep k = true) (m : List (κ × α)) :
    get? k (m.filter fun e => keep e.1) = get? k m := by
  induction m with
  | nil => rfl
  | cons e m ih =>
    obtain ⟨k', v⟩ := e
    rw [filter_cons, get?_cons]
    by_cases same : k = k'
    · subst same
      rw [if_pos kept, get?_cons, if_pos rfl, if_pos rfl]
    · rw [if_neg same]
      split
      · rw [get?_cons, if_neg same, ih]
      · exact ih

theorem get?_filter_key_eq_none {keep : κ → Bool} (drop : keep k = false) (m : List (κ × α)) :
    get? k (m.filter fun e => keep e.1) = none := by
  by_contra got
  obtain ⟨v, got⟩ := Option.ne_none_iff_exists'.mp got
  have kept := (mem_filter.mp (mem_of_get? got)).2
  rw [drop] at kept
  cases kept

/-! ### Changing the values -/

theorem Sorted.ext {n : List (κ × α)} (left : Sorted m) (right : Sorted n)
    (lookups : ∀ k, get? k m = get? k n) : m = n := by
  induction m generalizing n with
  | nil =>
    cases n with
    | nil => rfl
    | cons e n =>
      obtain ⟨k, v⟩ := e
      have := lookups k
      rw [get?_cons, if_pos rfl] at this
      cases this
  | cons e m ih =>
    obtain ⟨k, v⟩ := e
    have headLookup := lookups k
    rw [get?_cons, if_pos rfl] at headLookup
    cases n with
    | nil => cases headLookup
    | cons e' n =>
      obtain ⟨k', v'⟩ := e'
      -- The two heads are the least keys of one and the same lookup function.
      have keys : k = k' := by
        have inRight := mem_of_get? headLookup.symm
        have inLeft : (k', v') ∈ (k, v) :: m := mem_of_get? (by
          rw [lookups k', get?_cons, if_pos rfl])
        rcases mem_cons.mp inRight with same | later
        · exact congrArg Prod.fst same
        · rcases mem_cons.mp inLeft with same | later'
          · exact (congrArg Prod.fst same).symm
          · exact absurd (lt_trans (right.head_lt later) (left.head_lt later')) (lt_irrefl _)
      subst keys
      rw [get?_cons, if_pos rfl] at headLookup
      cases headLookup
      rw [ih left.tail right.tail fun key => ?_]
      by_cases same : key = k
      · subst same
        rw [left.get?_head_tail, right.get?_head_tail]
      · have := lookups key
        rwa [get?_cons, get?_cons, if_neg same, if_neg same] at this

theorem Sorted.ext_of_mem {n : List (κ × α)} (left : Sorted m) (right : Sorted n)
    (ents : ∀ e, e ∈ m ↔ e ∈ n) : m = n := by
  refine left.ext right fun k => Option.ext fun v => ?_
  constructor
  · intro got
    exact right.get?_of_mem ((ents _).mp (mem_of_get? got))
  · intro got
    exact left.get?_of_mem ((ents _).mpr (mem_of_get? got))

/-! ## Rows stored one after another -/

theorem Sorted.foldl_insert (key : α → κ) (rows : List α) (srt : Sorted m) :
    Sorted (rows.foldl (fun m row => OrdMap.insert (key row) row m) m) := by
  induction rows generalizing m with
  | nil => exact srt
  | cons row rows ih => exact ih (srt.insert _ _)

/-- Where a key has one row, storing rows adds their entries. -/
theorem Sorted.mem_foldl_insert (srt : Sorted m)
    (held : ∀ row ∈ rows, ∀ e ∈ m, e.1 = key row → e = (key row, row))
    (unique : ∀ row ∈ rows, ∀ alt ∈ rows, key row = key alt → row = alt) :
    e ∈ rows.foldl (fun m row => OrdMap.insert (key row) row m) m ↔
      e ∈ m ∨ ∃ row ∈ rows, e = (key row, row) := by
  induction rows generalizing m with
  | nil => simp
  | cons row rows ih =>
    have got : (key row, row) ∈ OrdMap.insert (key row) row m :=
      mem_of_get? (by rw [get?_insert, if_pos rfl])
    have kept : ∀ e ∈ m, e ∈ OrdMap.insert (key row) row m := by
      intro e mem
      by_cases same : e.1 = key row
      · rw [held row mem_cons_self e mem same]
        exact got
      · exact mem_of_get? (by rw [get?_insert_ne same]; exact srt.get?_of_mem mem)
    have seen : ∀ e, e ∈ OrdMap.insert (key row) row m ↔ e ∈ m ∨ e = (key row, row) := by
      intro e
      refine ⟨fun mem => (mem_insert mem).symm, ?_⟩
      rintro (mem | rfl)
      · exact kept e mem
      · exact got
    rw [foldl_cons, ih (srt.insert _ _) ?_ ?_, seen]
    · simp only [mem_cons, exists_eq_or_imp, or_assoc]
    · intro alt altM e mem same
      rcases (seen e).mp mem with mem | rfl
      · exact held alt (mem_cons_of_mem _ altM) e mem same
      · rw [unique row mem_cons_self alt (mem_cons_of_mem _ altM) same]
    · exact fun left lMem right rMem =>
        unique left (mem_cons_of_mem _ lMem) right (mem_cons_of_mem _ rMem)

/-! ## Rows grouped by a key -/

/-- Add a row behind the rows of its key. -/
def push (k : κ) (v : α) (m : List (κ × List α)) : List (κ × List α) :=
  insert k (((get? k m).getD []) ++ [v]) m

def grouped (key : α → κ) (rows : List α) : List (κ × List α) :=
  rows.foldl (fun m row => push (key row) row m) []

theorem Sorted.foldl_push (key : α → κ) (rows : List α) {m : List (κ × List α)}
    (srt : Sorted m) : Sorted (rows.foldl (fun m row => push (key row) row m) m) := by
  induction rows generalizing m with
  | nil => exact srt
  | cons row rows ih => exact ih (srt.insert _ _)

theorem sorted_grouped (key : α → κ) (rows : List α) : Sorted (grouped key rows) :=
  Sorted.foldl_push key rows sorted_nil

theorem get?_foldl_push {key : α → κ} {rows : List α} {m : List (κ × List α)} {k : κ}
    (held : ∀ grp, get? k m = some grp → grp ≠ []) :
    get? k (rows.foldl (fun m row => push (key row) row m) m) =
      if ((get? k m).getD [] ++ rows.filter fun row => decide (key row = k)) = [] then none
      else some ((get? k m).getD [] ++ rows.filter fun row => decide (key row = k)) := by
  induction rows generalizing m with
  | nil =>
    rw [foldl_nil, filter_nil, append_nil]
    cases hit : get? k m with
    | none => rfl
    | some grp => exact (if_neg (held grp hit)).symm
  | cons row rows ih =>
    have pushed : get? k (push (key row) row m) =
        if key row = k then some ((get? k m).getD [] ++ [row]) else get? k m := by
      unfold push
      rw [get?_insert]
      by_cases same : key row = k
      · rw [if_pos same.symm, if_pos same, same]
      · rw [if_neg (Ne.symm same), if_neg same]
    rw [foldl_cons, ih, pushed, filter_cons]
    · by_cases same : key row = k
      · simp [same]
      · simp [same]
    · rw [pushed]
      intro grp hit
      split at hit
      · rw [← Option.some.inj hit]
        simp
      · exact held grp hit

/-- A group holds the rows of its key in their order. -/
theorem mem_grouped {grp : List α} :
    (k, grp) ∈ grouped key rows ↔
      grp = rows.filter (fun row => decide (key row = k)) ∧ grp ≠ [] := by
  have hit := @get?_foldl_push κ α _ key rows [] k fun _ got => (by cases got)
  rw [get?_nil, Option.getD_none, nil_append] at hit
  constructor
  · intro mem
    have got := (sorted_grouped key rows).get?_of_mem mem
    unfold grouped at got
    rw [hit] at got
    split at got
    · cases got
    · rename_i some
      rw [← Option.some.inj got]
      exact ⟨rfl, some⟩
  · rintro ⟨rfl, some⟩
    refine mem_of_get? ?_
    unfold grouped
    rw [hit, if_neg some]

/-! ## Totals over the entries -/

section Totals

variable {M : Type} [AddCommMonoid M]

theorem place_perm (k : κ) (v : α) (m : List (κ × α)) : (place k v m).Perm ((k, v) :: m) := by
  induction m with
  | nil => exact List.Perm.refl _
  | cons e m ih =>
    obtain ⟨k', v'⟩ := e
    rw [place]
    split
    · exact List.Perm.refl _
    · exact (ih.cons _).trans (List.Perm.swap _ _ _)

theorem sublist_place (k : κ) (v : α) (m : List (κ × α)) : m.Sublist (place k v m) := by
  induction m with
  | nil => exact nil_sublist _
  | cons e m ih =>
    rw [place]
    split
    · exact sublist_cons_self _ _
    · exact ih.cons_cons _

variable {m : List (κ × α)}

theorem insert_perm {k : κ} {v : α} (new : get? k m = none) :
    (insert k v m).Perm ((k, v) :: m) := by
  unfold insert
  rw [new]
  exact place_perm k v m

theorem sum_overwrite (f : κ × α → M) {k : κ} (v : α) {old : α} (got : get? k m = some old) :
    ((overwrite k v m).map f).sum + f (k, old) = (m.map f).sum + f (k, v) := by
  induction m with
  | nil => cases got
  | cons e m ih =>
    obtain ⟨k', v'⟩ := e
    rw [get?_cons] at got
    rw [overwrite]
    split at got
    · rename_i same
      subst same
      cases got
      rw [if_pos rfl]
      simp only [map_cons, sum_cons]
      rw [add_right_comm, add_comm (f (k, v)), add_right_comm]
    · rename_i alt
      rw [if_neg alt]
      simp only [map_cons, sum_cons]
      rw [add_assoc, ih got, add_assoc]

/-- A total over the entries, when one of them is stored anew. -/
theorem sum_insert (f : κ × α → M) (k : κ) (v : α) (m : List (κ × α)) :
    ((insert k v m).map f).sum + ((get? k m).map fun old => f (k, old)).getD 0 =
      (m.map f).sum + f (k, v) := by
  cases got : get? k m with
  | none =>
    rw [((insert_perm got).map f).sum_eq]
    simp only [map_cons, sum_cons, Option.map_none, Option.getD_none, add_zero]
    exact add_comm _ _
  | some old =>
    unfold insert
    rw [got]
    exact sum_overwrite f v got

theorem perm_erase {k : κ} {v : α} (srt : Sorted m) (got : get? k m = some v) :
    m.Perm ((k, v) :: erase k m) := by
  induction m with
  | nil => cases got
  | cons e m ih =>
    obtain ⟨k', v'⟩ := e
    rw [get?_cons] at got
    split at got
    · rename_i same
      subst same
      cases got
      have kept : erase k m = m := filter_eq_self.mpr fun e mem =>
        decide_eq_true (ne_of_gt (srt.head_lt mem))
      rw [erase, filter_cons_of_neg (by simp)]
      exact List.Perm.of_eq (congrArg _ kept.symm)
    · rename_i alt
      rw [erase, filter_cons_of_pos (by simpa using Ne.symm alt)]
      exact ((ih srt.tail got).cons _).trans (List.Perm.swap _ _ _)

end Totals

theorem filter_overwrite_sublist {p : α → Bool} (hidden : p v = false) (m : List (κ × α)) :
    (((overwrite k v m).map Prod.snd).filter p).Sublist ((m.map Prod.snd).filter p) := by
  induction m with
  | nil => exact .slnil
  | cons e m ih =>
    obtain ⟨k', v'⟩ := e
    rw [overwrite]
    split
    · rw [map_cons, filter_cons_of_neg (by simpa using hidden), map_cons]
      exact (sublist_cons_self _ _).filter _
    · rw [map_cons, map_cons, filter_cons, filter_cons]
      split
      · exact ih.cons_cons _
      · exact ih

/-- Storing a value that a filter hides shows no new value through it. -/
theorem filter_insert_sublist {p : α → Bool} (hidden : p v = false) (m : List (κ × α)) :
    (((insert k v m).map Prod.snd).filter p).Sublist ((m.map Prod.snd).filter p) := by
  unfold insert
  split
  · exact filter_overwrite_sublist hidden m
  · clear * - hidden
    induction m with
    | nil => rw [place, map_cons, filter_cons_of_neg (by simpa using hidden)]
    | cons e m ih =>
      obtain ⟨k', v'⟩ := e
      rw [place]
      split
      · rw [map_cons, filter_cons_of_neg (by simpa using hidden)]
      · rw [map_cons, map_cons, filter_cons, filter_cons]
        split
        · exact ih.cons_cons _
        · exact ih

end Tqsdk.OrdMap
