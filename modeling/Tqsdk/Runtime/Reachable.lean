import Tqsdk.Runtime.CommitEngine

/-!
# Invariants of the reachable stores

Every partition of a reachable store is an object and a well-formed document, and the
fallback partition never holds a key that names another partition, so that a snapshot shows
every partition under its own name.
-/

namespace Tqsdk

open List

open Value

/-! ## Documents stay well formed -/

theorem wf_entries {v : Value} (wf : v.Wf) : (object v.entries).Wf := by
  cases v with
  | object mems => exact wf
  | null | bool | number | string | array => exact wf_empty

variable {partitions : Partitions} {flds : List FieldMutation} {cur : Value}

theorem applyFieldsFrom_wf (obj : Option ObjectKey) (idx : Nat) {map : Fields}
    (wf : (Value.object map).Wf) (vals : ∀ fld ∈ flds, fld.value.Wf) :
    (Value.object (applyFieldsFrom obj idx map flds).1).Wf := by
  induction flds generalizing idx map with
  | nil => exact wf
  | cons fld flds ih =>
    have post := fun post mem => vals post (mem_cons_of_mem fld mem)
    have here := vals fld mem_cons_self
    rw [applyFieldsFrom]
    cases put : applyField obj map fld with
    | none => exact ih _ wf post
    | some out =>
      refine ih _ ?_ post
      unfold applyField at put
      split at put <;> split at put
      · cases put
      · cases put
        exact wf.erase _
      · split at put
        · cases put
        · cases put
          exact wf.insert _ here
      · cases put
        exact wf.insert _ here

theorem ensureChildObject_wf {root : Value} (wf : root.Wf) (seg : PathSegment) :
    (object (ensureChildObject root seg).members).Wf ∧ (ensureChildObject root seg).child.Wf := by
  have created := (wf_entries wf).insert seg wf_empty
  unfold ensureChildObject
  cases got : OrdMap.get? seg root.entries with
  | none => exact ⟨created, wf_empty⟩
  | some child =>
    dsimp only
    split
    · exact ⟨wf_entries wf, (wf_entries wf).get? got⟩
    · exact ⟨created, wf_empty⟩

theorem applyMutationAtPath_wf (obj : Option ObjectKey) (vals : ∀ fld ∈ flds, fld.value.Wf)
    (prune : Bool) (wf : cur.Wf) (path : List PathSegment) :
    (applyMutationAtPath obj flds prune cur path).node.Wf := by
  induction path generalizing cur with
  | nil => exact applyFieldsFrom_wf obj 0 (wf_entries wf) vals
  | cons seg path ih =>
    obtain ⟨mems, child⟩ := ensureChildObject_wf wf seg
    have ins := mems.insert seg (ih child)
    rw [applyMutationAtPath]
    split
    · exact ins.erase seg
    · exact ins

theorem removeScalar_wf {next : Value} (wf : cur.Wf) {ups : List PathSegment}
    {seg : PathSegment} (rem : removeScalar cur ups seg = some next) :
    next.Wf := by
  induction ups generalizing cur next with
  | nil =>
    cases cur with
    | object mems =>
      simp only [removeScalar, asObject_object] at rem
      split at rem
      · cases rem
        exact wf.erase _
      · cases rem
    | null | bool | number | string | array => cases rem
  | cons parent ups ih =>
    cases cur with
    | object mems =>
      simp only [removeScalar, asObject_object] at rem
      cases got : OrdMap.get? parent mems with
      | none => simp [got] at rem
      | some child =>
        simp only [got, Option.map_eq_some_iff] at rem
        obtain ⟨child', removedBelow, rfl⟩ := rem
        exact wf.insert _ (ih (wf.get? got) removedBelow)
    | null | bool | number | string | array => cases rem

theorem writeScalar_wf {val : Value} (put : val.Wf) (wf : cur.Wf)
    (ups : List PathSegment) (seg : PathSegment) :
    (writeScalar val cur ups seg).1.Wf := by
  induction ups generalizing cur with
  | nil =>
    rw [writeScalar]
    split
    · exact wf_entries wf
    · exact (wf_entries wf).insert _ put
  | cons parent ups ih =>
    obtain ⟨mems, child⟩ := ensureChildObject_wf wf parent
    exact mems.insert _ (ih child)

theorem applyAtPartition_wf (root : StateRoot) {part : Value} (wf : part.Wf)
    (path : List PathSegment) (obj : Option ObjectKey) (vals : ∀ fld ∈ flds, fld.value.Wf) :
    (applyAtPartition root part path obj flds).node.Wf := by
  unfold applyAtPartition
  split
  · unfold applyPartitionRootDelete
    split
    · exact wf
    · exact wf_empty
  · split
    · unfold applyDirectScalar
      split
      · rename_i seg fld _ _
        have val := vals fld mem_cons_self
        split
        · exact wf
        · split
          · split
            · exact wf
            · rename_i rem
              exact removeScalar_wf wf rem
          · have put := writeScalar_wf val wf path.dropLast seg
            split
            · rename_i same
              rw [same] at put
              exact put
            · rename_i same
              rw [same] at put
              exact put
      · exact wf
    · exact applyMutationAtPath_wf obj vals _ wf path

/-! ## The invariant -/

theorem applyTurn_objects (objs : ∀ root, (partitions root).isObject = true) (idx : Nat)
    (m : NormalizedMutation) (root : StateRoot) :
    ((applyTurn partitions idx m).1 root).isObject = true := by
  rw [applyTurn_partitions]
  by_cases here : root = (partitionPath m).1
  · subst here
    rw [Function.update_self]
    exact applyAtPartition_isObject _ (objs _) _ _ _
  · rw [Function.update_of_ne here]
    exact objs root

/-- The partitions of a reachable store. -/
structure Partitions.Regular (partitions : Partitions) : Prop where
  objects : ∀ root, (partitions root).isObject = true
  wf : ∀ root, (partitions root).Wf
  unshadowed : ∀ segment, StateRoot.fromSegment segment ≠ none →
    (partitions .other).get segment = none

theorem Partitions.Regular.fallbackSorted (regl : partitions.Regular) : partitions.FallbackSorted :=
  (wf_object.mp (wf_entries (regl.wf .other))).1

theorem Partitions.regular_new : Partitions.Regular (StateStore.new 0).partitions where
  objects := fun _ => rfl
  wf := fun _ => wf_empty
  unshadowed := fun _ _ => rfl

theorem applyTurn_regular (regl : partitions.Regular) (idx : Nat)
    {m : NormalizedMutation} (wf : m.Wf) (rooted : m.path ≠ []) :
    (applyTurn partitions idx m).1.Regular := by
  refine ⟨applyTurn_objects regl.objects idx m, ?_, ?_⟩ <;> rw [applyTurn_partitions]
  · intro root
    by_cases here : root = (partitionPath m).1
    · subst here
      rw [Function.update_self]
      exact applyAtPartition_wf _ (regl.wf _) _ _ wf
    · rw [Function.update_of_ne here]
      exact regl.wf root
  · intro seg seen
    by_cases fb : (partitionPath m).1 = .other
    · have frm := turnApplied_frame partitions m
      have split : partitionPathSegments m.path = (.other, (partitionPath m).2) := by
        rw [← fb]
        rfl
      obtain ⟨all, miss⟩ := partitionPathSegments_other split
      obtain ⟨head, rest, path⟩ := exists_cons_of_ne_nil rooted
      -- the mutation starts with a key that names no partition, so it is another key
      have ne : head ≠ seg := by
        rintro rfl
        exact seen (miss head rest path)
      have same := frm.apart [seg] (by
        rw [all, path]
        exact Apart.of_head_ne ne rest [])
      rw [fb] at same ⊢
      rw [Function.update_self, ← regl.unshadowed seg seen]
      simpa [getAtPath_cons] using same
    · rw [Function.update_of_ne (Ne.symm fb)]
      exact regl.unshadowed seg seen

theorem applyLoop_regular (regl : partitions.Regular) (idx : Nat) {muts : List NormalizedMutation}
    (wf : ∀ m ∈ muts, m.Wf) (rooted : ∀ m ∈ muts, m.path ≠ []) :
    (StateStore.applyLoop idx partitions muts).1.Regular := by
  induction muts generalizing idx partitions with
  | nil => exact regl
  | cons m muts ih =>
    have turn := applyTurn_regular regl idx (wf m mem_cons_self) (rooted m mem_cons_self)
    rw [StateStore.applyLoop_cons]
    exact ih turn (idx + 1) (fun post mem => wf post (mem_cons_of_mem _ mem))
      fun post mem => rooted post (mem_cons_of_mem _ mem)

theorem StateStore.Reachable.regular {sto : StateStore} (rch : sto.Reachable) :
    sto.partitions.Regular := by
  induction rch with
  | new rev => exact Partitions.regular_new
  | commit doms cause sc _ acc wf ih =>
    rw [CommitEngine.apply_partitions]
    apply applyLoop_regular ih 0 wf
    intro m mem emp
    obtain ⟨root, rest, path, -⟩ := validateMutationDomains_ok_iff.mp acc m mem
    rw [emp] at path
    cases path

end Tqsdk
