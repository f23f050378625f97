import Tqsdk.State.StoreFrame

/-!
# Whole batches and the tree a snapshot shows

`apply_with` and `apply_market_with` take one of three loops; all of them are
`applyLoop` (`applyWith_eq`, `applyMarketWith_eq`).  `applyLoop_differs` is the rule for
what a batch changed: whatever differs after a batch was changed by one of its mutations,
from partitions the batch reached, and that mutation's report is among the batch's.
-/

namespace Tqsdk

open OrdMap

open Option Value

namespace StateRoot

theorem fromSegment_asStr {root : StateRoot} (seen : root ≠ .other) :
    fromSegment root.asStr = some root := by
  cases root <;> first | rfl | exact absurd rfl seen

theorem fromSegment_eq_some {seg : String} {root : StateRoot}
    (res : fromSegment seg = some root) : seg = root.asStr ∧ root ≠ .other := by
  unfold fromSegment at res
  split at res <;> cases res <;> exact ⟨rfl, by decide⟩

theorem asStr_injective : Function.Injective asStr := by
  intro left right same
  cases left <;> cases right <;> first | rfl | (simp [asStr] at same)

end StateRoot

variable {root : StateRoot} {part : Value}

theorem partitionPathSegments_known {path : StatePath} {rel : List PathSegment}
    (split : partitionPathSegments path = (root, rel)) (seen : root ≠ .other) :
    path = root.asStr :: rel := by
  unfold partitionPathSegments at split
  split at split
  · cases split
    exact absurd rfl seen
  · split at split
    · rename_i res
      cases split
      rw [(StateRoot.fromSegment_eq_some res).1]
    · cases split
      exact absurd rfl seen

theorem partitionPathSegments_other {path rel : StatePath}
    (split : partitionPathSegments path = (.other, rel)) :
    rel = path ∧ ∀ seg rest, path = seg :: rest → StateRoot.fromSegment seg = none := by
  unfold partitionPathSegments at split
  split at split
  · cases split
    exact ⟨rfl, fun _ _ no => by cases no⟩
  · split at split
    · rename_i res
      cases split
      exact absurd rfl (StateRoot.fromSegment_eq_some res).2
    · rename_i unresolved
      cases split
      refine ⟨rfl, ?_⟩
      rintro _ _ ⟨⟩
      exact unresolved

/-! ## The tree a snapshot shows -/

/-- An empty partition is not shown. -/
def shown (value : Value) : Option Value :=
  if isEmptyPartition value then none else some value

theorem shown_bind_getAtPath (val : Value) {rest : List PathSegment} (less : rest ≠ []) :
    (shown val).bind (·.getAtPath rest) = val.getAtPath rest := by
  unfold shown
  split
  · rename_i emp
    rw [isEmptyPartition_iff.mp emp, getAtPath_empty less]
    rfl
  · rfl

theorem get?_insertSnapshotRoot (data : Fields) (key : String) (val : Value) (seg : String) :
    get? seg (insertSnapshotRoot data key val) =
      if seg = key then (shown val).or (get? seg data)
      else get? seg data := by
  unfold insertSnapshotRoot shown
  split
  · simp
  · rw [get?_insert]
    split <;> simp

theorem get?_visible (partitions : Partitions) (seg : String) :
    get? seg (StateRoot.visible.foldl
        (fun data root => insertSnapshotRoot data root.asStr (partitions root)) []) =
      (StateRoot.fromSegment seg).bind fun root => shown (partitions root) := by
  -- the fold shows the resolved root as soon as it has passed it
  have run : ∀ (roots : List StateRoot) (data : Fields), roots.Nodup → .other ∉ roots →
      get? seg (roots.foldl
          (fun data root => insertSnapshotRoot data root.asStr (partitions root)) data) =
        (((StateRoot.fromSegment seg).filter (· ∈ roots)).bind fun root =>
          shown (partitions root)).or (get? seg data) := by
    intro roots
    induction roots with
    | nil => intro data _ _; simp
    | cons root roots ih =>
      intro data nd seen
      obtain ⟨new, nd⟩ := List.nodup_cons.mp nd
      rw [List.mem_cons, not_or] at seen
      rw [List.foldl_cons, ih _ nd seen.2, get?_insertSnapshotRoot]
      cases res : StateRoot.fromSegment seg with
      | none =>
        have ne : seg ≠ root.asStr := by
          rintro rfl
          rw [StateRoot.fromSegment_asStr (Ne.symm seen.1)] at res
          cases res
        simp [ne]
      | some hit =>
        obtain ⟨rfl, -⟩ := StateRoot.fromSegment_eq_some res
        by_cases same : hit = root
        · subst same
          simp [new, Option.filter]
        · have ne : hit.asStr ≠ root.asStr := fun h => same (StateRoot.asStr_injective h)
          simp [ne, same, Option.filter]
  rw [run _ _ (by decide) (by decide)]
  cases res : StateRoot.fromSegment seg with
  | none => rfl
  | some hit =>
    have mem : hit ∈ StateRoot.visible := by
      have seen := (StateRoot.fromSegment_eq_some res).2
      cases hit <;> first | decide | exact absurd rfl seen
    simp [Option.filter, mem]

theorem get?_mergeFallbackRoots {fb : Value} (srt : OrdMap.Sorted fb.entries)
    (data : Fields) (seg : String) :
    get? seg (mergeFallbackRoots data fb) = ((fb.get seg).bind shown).or (get? seg data) := by
  have run : ∀ (ents data : Fields), OrdMap.Sorted ents →
      get? seg (ents.foldl
          (fun data ent => insertSnapshotRoot data ent.1 ent.2) data) =
        ((get? seg ents).bind shown).or (get? seg data) := by
    intro ents
    induction ents with
    | nil => intro data _; rfl
    | cons ent ents ih =>
      intro data srt
      obtain ⟨key, val⟩ := ent
      rw [List.foldl_cons, ih _ srt.tail, get?_insertSnapshotRoot, get?_cons]
      by_cases same : seg = key
      · subst same
        rw [srt.get?_head_tail]
        simp
      · simp [same]
  rw [mergeFallbackRoots, run _ _ srt, get_eq_entries]

theorem materialized_getAtPath {partitions : Partitions}
    (srt : OrdMap.Sorted (partitions .other).entries) (seg : PathSegment)
    (rest : List PathSegment) :
    partitions.materialized.getAtPath (seg :: rest) =
      ((((partitions .other).get seg).bind shown).or
        ((StateRoot.fromSegment seg).bind fun root => shown (partitions root))).bind
          (·.getAtPath rest) := by
  rw [getAtPath_cons, Partitions.materialized, get_object, get?_mergeFallbackRoots srt,
    get?_visible]

/-- Writing a known partition shows only below its name, and there only what it changed. -/
theorem materialized_update_known {partitions : Partitions} {root : StateRoot}
    (srt : OrdMap.Sorted (partitions .other).entries) (seen : root ≠ .other) (part : Value)
    (seg : PathSegment) (rest : List PathSegment) (same : seg = root.asStr →
      rest ≠ [] ∧ part.getAtPath rest = (partitions root).getAtPath rest) :
    (Partitions.materialized (Function.update partitions root part)).getAtPath
        (seg :: rest) = partitions.materialized.getAtPath (seg :: rest) := by
  have fb : Function.update partitions root part .other = partitions .other :=
    Function.update_of_ne (Ne.symm seen) _ _
  rw [materialized_getAtPath (by rw [fb]; exact srt), materialized_getAtPath srt,
    fb]
  by_cases here : seg = root.asStr
  · obtain ⟨lt, samePartition⟩ := same here
    subst here
    simp only [StateRoot.fromSegment_asStr seen, bind_some, Function.update_self]
    cases ((partitions .other).get root.asStr).bind shown with
    | some val => rfl
    | none =>
      simp only [none_or]
      rw [shown_bind_getAtPath _ lt, shown_bind_getAtPath _ lt, samePartition]
  · cases res : StateRoot.fromSegment seg with
    | none => rfl
    | some hit =>
      have ne : hit ≠ root := by
        rintro rfl
        exact here (StateRoot.fromSegment_eq_some res).1
      simp only [bind_some, Function.update_of_ne ne]

/-- Writing the fallback partition shows only at the members it changed. -/
theorem materialized_update_other {partitions : Partitions} {partition : Value}
    (sorted : OrdMap.Sorted (partitions .other).entries) (sorted' : OrdMap.Sorted partition.entries)
    (seg : PathSegment) (rest : List PathSegment)
    (same : partition.get seg = (partitions .other).get seg ∨
      StateRoot.fromSegment seg = none ∧ rest ≠ [] ∧
        partition.getAtPath (seg :: rest) = (partitions .other).getAtPath (seg :: rest)) :
    (Partitions.materialized (Function.update partitions .other partition)).getAtPath
        (seg :: rest) = partitions.materialized.getAtPath (seg :: rest) := by
  have fb : Function.update partitions .other partition .other = partition :=
    Function.update_self _ _ _
  rw [materialized_getAtPath (by rw [fb]; exact sorted'), materialized_getAtPath sorted,
    fb]
  rcases same with sameMember | ⟨miss, lt, sameBelow⟩
  · rw [sameMember]
    cases res : StateRoot.fromSegment seg with
    | none => rfl
    | some hit =>
      have ne : hit ≠ .other := (StateRoot.fromSegment_eq_some res).2
      simp only [bind_some, Function.update_of_ne ne]
  · simp only [miss, bind_none, or_none, bind_assoc, shown_bind_getAtPath _ lt]
    rw [getAtPath_cons, getAtPath_cons] at sameBelow
    exact sameBelow

/-! ## A partition is edited key by key -/

/-- The second map comes from the first one by storing and dropping keys. -/
inductive Edited (members : Fields) : Fields → Prop
  | refl : Edited members members
  | insert {edited : Fields} (key : String) (value : Value) :
      Edited members edited → Edited members (OrdMap.insert key value edited)
  | erase {edited : Fields} (key : String) :
      Edited members edited → Edited members (OrdMap.erase key edited)

theorem Edited.sorted {members members' : Fields} (edited : Edited members members')
    (srt : OrdMap.Sorted members) : OrdMap.Sorted members' := by
  induction edited with
  | refl => exact srt
  | insert key val _ ih => exact ih.insert key val
  | erase key _ ih => exact ih.erase key

theorem applyFieldsFrom_edited (obj : Option ObjectKey) {mems : Fields} (index : Nat)
    {map : Fields} (edited : Edited mems map) (flds : List FieldMutation) :
    Edited mems (applyFieldsFrom obj index map flds).1 := by
  induction flds generalizing index map with
  | nil => exact edited
  | cons fld flds ih =>
    rw [applyFieldsFrom]
    cases put : applyField obj map fld with
    | none => exact ih _ edited
    | some out =>
      apply ih
      unfold applyField at put
      split at put <;> split at put
      · cases put
      · cases put
        exact .erase _ edited
      · split at put
        · cases put
        · cases put
          exact .insert _ _ edited
      · cases put
        exact .insert _ _ edited

theorem ensureChildObject_edited (root : Value) (seg : PathSegment) :
    Edited root.entries (ensureChildObject root seg).members := by
  unfold ensureChildObject
  split
  · exact .insert _ _ .refl
  · split
    · exact .refl
    · exact .insert _ _ .refl

/-- The value is an object that edits the members of the cursor. -/
def EditsMembers (cursor next : Value) : Prop :=
  ∃ members, next = .object members ∧ Edited cursor.entries members

theorem removeScalar_edits {cur next : Value} {ups : List PathSegment}
    {seg : PathSegment} (rem : removeScalar cur ups seg = some next) :
    EditsMembers cur next := by
  cases cur with
  | object mems =>
    cases ups with
    | nil =>
      simp only [removeScalar, asObject_object] at rem
      split at rem
      · cases rem
        exact ⟨_, rfl, .erase _ .refl⟩
      · cases rem
    | cons parent ups =>
      simp only [removeScalar, asObject_object] at rem
      split at rem
      · cases rem
      · obtain ⟨child, -, rfl⟩ := map_eq_some_iff.mp rem
        exact ⟨_, rfl, .insert _ _ .refl⟩
  | null | bool | number | string | array => cases ups <;> cases rem

theorem writeScalar_edits {val cur next : Value} {ups : List PathSegment} {seg : PathSegment}
    {flag : Bool} (put : writeScalar val cur ups seg = (next, flag)) :
    EditsMembers cur next := by
  cases ups with
  | nil =>
    rw [writeScalar] at put
    split at put
    · cases put
      exact ⟨_, rfl, .refl⟩
    · cases put
      exact ⟨_, rfl, .insert _ _ .refl⟩
  | cons parent ups =>
    cases put
    exact ⟨_, rfl, .insert _ _ (ensureChildObject_edited cur parent)⟩

theorem applyMutationAtPath_edits (obj : Option ObjectKey) (flds : List FieldMutation)
    (prune : Bool) (cur : Value) (path : List PathSegment) :
    EditsMembers cur (applyMutationAtPath obj flds prune cur path).node := by
  cases path with
  | nil => exact ⟨_, rfl, applyFieldsFrom_edited obj 0 .refl flds⟩
  | cons seg path =>
    rw [applyMutationAtPath]
    split
    · exact ⟨_, rfl, .erase _ (.insert _ _ (ensureChildObject_edited cur seg))⟩
    · exact ⟨_, rfl, .insert _ _ (ensureChildObject_edited cur seg)⟩

/-- A partition is left alone, cleared, or edited. -/
theorem applyAtPartition_edits (root : StateRoot) (partition : Value)
    (path : List PathSegment) (obj : Option ObjectKey) (flds : List FieldMutation) :
    let node := (applyAtPartition root partition path obj flds).node
    node = partition ∨ node = .object [] ∨ EditsMembers partition node := by
  unfold applyAtPartition
  split
  · unfold applyPartitionRootDelete
    split
    · exact .inl rfl
    · exact .inr (.inl rfl)
  · split
    · unfold applyDirectScalar
      split
      · split
        · exact .inl rfl
        · split
          · split
            · exact .inl rfl
            · rename_i rem
              exact .inr (.inr (removeScalar_edits rem))
          · split
            · rename_i put
              exact .inr (.inr (writeScalar_edits put))
            · rename_i put
              exact .inr (.inr (writeScalar_edits put))
      · exact .inl rfl
    · exact .inr (.inr (applyMutationAtPath_edits obj flds _ partition path))

theorem applyAtPartition_sorted {path : List PathSegment} {obj : Option ObjectKey}
    {flds : List FieldMutation} (srt : OrdMap.Sorted partition.entries) :
    OrdMap.Sorted (applyAtPartition root partition path obj flds).node.entries := by
  rcases applyAtPartition_edits root partition path obj flds with
    same | cleared | ⟨members, edited, edits⟩
  · rw [same]
    exact srt
  · rw [cleared]
    exact sorted_nil
  · rw [edited]
    exact edits.sorted srt

theorem applyAtPartition_isObject (root : StateRoot) (isObject : partition.isObject = true)
    (path : List PathSegment) (obj : Option ObjectKey) (flds : List FieldMutation) :
    (applyAtPartition root partition path obj flds).node.isObject = true := by
  rcases applyAtPartition_edits root partition path obj flds with
    same | cleared | ⟨members, edited, -⟩
  · rw [same]
    exact isObject
  · rw [cleared]
    rfl
  · rw [edited]
    rfl

/-! ## One turn of a batch -/

/-- Partitions whose fallback is a map, which is all a turn needs to know about them. -/
def Partitions.FallbackSorted (partitions : Partitions) : Prop :=
  OrdMap.Sorted (partitions .other).entries

/-- The mutation as a batch leaves it: only values of its fields may have been moved out. -/
def NormalizedMutation.SameShape (before after : NormalizedMutation) : Prop :=
  after.path = before.path ∧ after.object = before.object ∧
    after.fields.map (·.field) = before.fields.map (·.field)

section Turn

variable (partitions : Partitions) (index : Nat) (mutation : NormalizedMutation)

/-- How the mutation of a turn is applied to its partition. -/
def turnApplied : Applied :=
  applyAtPartition (partitionPath mutation).1 (partitions (partitionPath mutation).1)
    (partitionPath mutation).2 mutation.object mutation.fields

theorem applyTurn_partitions :
    (applyTurn partitions index mutation).1 = Function.update partitions
      (partitionPath mutation).1 (turnApplied partitions mutation).node := rfl

theorem turnApplied_frame :
    (turnApplied partitions mutation).Frame (partitions (partitionPath mutation).1)
      (partitionPath mutation).2 mutation.fields :=
  applyAtPartition_frame _ _ _ _ _

theorem applyTurn_sameShape : mutation.SameShape (applyTurn partitions index mutation).2.1 :=
  ⟨rfl, rfl, (turnApplied_frame partitions mutation).names⟩

variable {partitions mutation}

theorem applyTurn_reports : (applyTurn partitions index mutation).2.2 =
    if (turnApplied partitions mutation).fieldIndexes.isEmpty &&
        !(turnApplied partitions mutation).changed then none
    else some ⟨(partitionPath mutation).1.asStr, index,
      (turnApplied partitions mutation).fieldIndexes⟩ := rfl

theorem applyTurn_report {rep : AppliedChange}
    (repd : (applyTurn partitions index mutation).2.2 = some rep) :
    rep.mutationIndex = index ∧
      rep.fieldIndexes = (turnApplied partitions mutation).fieldIndexes := by
  rw [applyTurn_reports] at repd
  split at repd
  · cases repd
  · cases repd
    exact ⟨rfl, rfl⟩

theorem applyTurn_silent (silent : (applyTurn partitions index mutation).2.2 = none) :
    (applyTurn partitions index mutation).1 = partitions := by
  have same : (turnApplied partitions mutation).node =
      partitions (partitionPath mutation).1 := by
    rw [applyTurn_reports] at silent
    split at silent
    · rename_i nothing
      simp only [Bool.and_eq_true, List.isEmpty_iff, Bool.not_eq_true'] at nothing
      exact (turnApplied_frame partitions mutation).silent nothing.1 nothing.2
    · cases silent
  rw [applyTurn_partitions, same, Function.update_eq_self]

theorem applyTurn_sorted (srt : partitions.FallbackSorted) :
    (applyTurn partitions index mutation).1.FallbackSorted := by
  unfold Partitions.FallbackSorted
  rw [applyTurn_partitions]
  by_cases fb : (partitionPath mutation).1 = .other
  · rw [fb, Function.update_self]
    apply applyAtPartition_sorted
    rw [fb]
    exact srt
  · rw [Function.update_of_ne (Ne.symm fb)]
    exact srt

/-- A path off the mutation's own reads the same after the turn. -/
theorem applyTurn_apart (sorted : partitions.FallbackSorted) {path : StatePath}
    (sep : Apart mutation.path path) :
    (applyTurn partitions index mutation).1.materialized.getAtPath path =
      partitions.materialized.getAtPath path := by
  have frm := turnApplied_frame partitions mutation
  have sorted' : (applyTurn partitions index mutation).1.FallbackSorted :=
    applyTurn_sorted index sorted
  rw [applyTurn_partitions] at sorted' ⊢
  obtain ⟨seg, rest, rfl⟩ := List.exists_cons_of_ne_nil sep.ne_nil
  rcases split : partitionPath mutation with ⟨root, rel⟩
  by_cases fb : root = .other
  · subst fb
    obtain ⟨rfl, miss⟩ := partitionPathSegments_other split
    obtain ⟨head, lt, all⟩ := List.exists_cons_of_ne_nil sep.symm.ne_nil
    rw [split] at frm sorted'
    rw [all] at sep
    apply materialized_update_other sorted (by simpa [Partitions.FallbackSorted] using sorted')
    by_cases same : head = seg
    · subst same
      exact .inr ⟨miss head lt all, sep.cons.ne_nil, frm.apart _ (all ▸ sep)⟩
    · have mem := frm.apart [seg] (all ▸ Apart.of_head_ne same lt [])
      exact .inl (by simpa [getAtPath_cons] using mem)
  · have all := partitionPathSegments_known split fb
    rw [split] at frm
    apply materialized_update_known sorted fb
    intro same
    have sepLt : Apart rel rest := by
      rw [all, same] at sep
      exact sep.cons
    exact ⟨sepLt.ne_nil, frm.apart rest sepLt⟩

/-- A field write shows, right below its path, only the fields it reports. -/
theorem applyTurn_reported (sorted : partitions.FallbackSorted) (ws : WritesFields mutation)
    {name : String} (unrep : ¬ (turnApplied partitions mutation).Reports mutation.fields name)
    (rest : List PathSegment) :
    (applyTurn partitions index mutation).1.materialized.getAtPath
        (mutation.path ++ name :: rest) =
      partitions.materialized.getAtPath (mutation.path ++ name :: rest) := by
  have repd : ∀ rest, (turnApplied partitions mutation).node.getAtPath
      ((partitionPath mutation).2 ++ name :: rest) =
        (partitions (partitionPath mutation).1).getAtPath
          ((partitionPath mutation).2 ++ name :: rest) :=
    applyAtPartition_reported _ _ ws.1 ws.2 name unrep
  have sorted' : (applyTurn partitions index mutation).1.FallbackSorted :=
    applyTurn_sorted index sorted
  rw [applyTurn_partitions] at sorted' ⊢
  rcases split : partitionPath mutation with ⟨root, rel⟩
  rw [split] at repd sorted'
  by_cases fb : root = .other
  · subst fb
    obtain ⟨rfl, miss⟩ := partitionPathSegments_other split
    cases all : mutation.path with
    | nil =>
      apply materialized_update_other sorted (by simpa [Partitions.FallbackSorted] using sorted')
      have mem := repd []
      simp only [all, List.nil_append, getAtPath_cons] at mem
      exact .inl (by simpa using mem)
    | cons head lt =>
      have mem := repd rest
      rw [all] at mem
      apply materialized_update_other sorted (by simpa [Partitions.FallbackSorted] using sorted')
      exact .inr ⟨miss head lt all, by simp, mem⟩
  · rw [partitionPathSegments_known split fb]
    apply materialized_update_known sorted fb
    intro _
    exact ⟨by simp, repd rest⟩

end Turn

/-! ## The loops -/

namespace StateStore

theorem applyLoop_cons (index : Nat) (partitions : Partitions) (mutation : NormalizedMutation)
    (rest : List NormalizedMutation) :
    applyLoop index partitions (mutation :: rest) =
      let turn := applyTurn partitions index mutation
      let post := applyLoop (index + 1) turn.1 rest
      (post.1, turn.2.2.toList ++ post.2.1, turn.2.1 :: post.2.2) := rfl

/-- An invariant of every turn holds of the partitions a batch leaves. -/
theorem applyLoop_invariant {Inv : Partitions → Prop}
    (turn : ∀ partitions index mutation, Inv partitions →
      Inv (applyTurn partitions index mutation).1) (index : Nat) {partitions : Partitions}
    (initial : Inv partitions) (mutations : List NormalizedMutation) :
    Inv (applyLoop index partitions mutations).1 := by
  induction mutations generalizing index partitions with
  | nil => exact initial
  | cons mutation mutations ih =>
    rw [applyLoop_cons]
    exact ih _ (turn _ _ _ initial)

/-- What a batch's mutation at `position` did, as the batch recorded it. -/
structure TurnOf (index : Nat) (batch : AppliedBatch) (mutations : List NormalizedMutation)
    (partitions : Partitions) (position : Nat) (mutation : NormalizedMutation) : Prop where
  stored : mutations[position]? = some mutation
  left : batch.2[position]? = some (applyTurn partitions (index + position) mutation).2.1
  reports : ∀ report, (applyTurn partitions (index + position) mutation).2.2 = some report →
    report ∈ batch.1

variable {mutations : List NormalizedMutation}

/-- After one more mutation of a batch the partitions are those that its turn leaves. -/
theorem applyLoop_take_succ {position : Nat} {mutation : NormalizedMutation}
    (stored : mutations[position]? = some mutation) (index : Nat) (partitions : Partitions) :
    (applyLoop index partitions (mutations.take (position + 1))).1 =
      (applyTurn (applyLoop index partitions (mutations.take position)).1
        (index + position) mutation).1 := by
  induction mutations generalizing index partitions position with
  | nil => cases stored
  | cons head rest ih =>
    cases position with
    | zero =>
      cases stored
      rfl
    | succ position => exact ih stored (index + 1) (applyTurn partitions index head).1

/-- Whatever an observation shows to differ after a batch was changed by one turn of it, from the
partitions that the mutations before it left. -/
theorem applyLoop_differs {β : Type*} (observe : Partitions → β) {index : Nat}
    {partitions : Partitions}
    (ne : observe (applyLoop index partitions mutations).1 ≠ observe partitions) :
    ∃ position mutation,
      let reached := (applyLoop index partitions (mutations.take position)).1
      TurnOf index (applyLoop index partitions mutations).2 mutations reached position mutation ∧
        observe (applyTurn reached (index + position) mutation).1 ≠ observe reached := by
  induction mutations generalizing index partitions with
  | nil => exact absurd rfl ne
  | cons mutation mutations ih =>
    by_cases here : observe (applyTurn partitions index mutation).1 = observe partitions
    · have post : observe (applyLoop (index + 1) (applyTurn partitions index mutation).1
          mutations).1 ≠ observe (applyTurn partitions index mutation).1 := by
        rw [here]
        exact ne
      obtain ⟨position, hit, ⟨got, left, reps⟩, chg⟩ := ih post
      have shift : index + 1 + position = index + (position + 1) := by omega
      rw [shift] at left reps chg
      refine ⟨position + 1, hit, ⟨got, left, ?_⟩, chg⟩
      intro rep repd
      exact List.mem_append_right _ (reps rep repd)
    · refine ⟨0, mutation, ⟨rfl, rfl, ?_⟩, here⟩
      intro rep repd
      change (applyTurn partitions index mutation).2.2 = some rep at repd
      rw [applyLoop_cons]
      apply List.mem_append_left
      simp [repd]

/-- The turns of a batch that changed something, without their positions. -/
def appliedTurns (partitions : Partitions) :
    List NormalizedMutation → List (NormalizedMutation × List Nat)
  | [] => []
  | mutation :: rest =>
    let turn := applyTurn partitions 0 mutation
    (turn.2.2.map fun report => (turn.2.1, report.fieldIndexes)).toList ++
      appliedTurns turn.1 rest

/-- The position of a turn only shows in its report. -/
theorem applyTurn_position (partitions : Partitions) (index : Nat) (mutation : NormalizedMutation) :
    applyTurn partitions index mutation =
      ((applyTurn partitions 0 mutation).1, (applyTurn partitions 0 mutation).2.1,
        (applyTurn partitions 0 mutation).2.2.map fun rep =>
          { rep with mutationIndex := index }) := by
  refine Prod.ext rfl (Prod.ext rfl ?_)
  simp only [applyTurn_reports]
  split <;> rfl

theorem resolve_applyLoop (done : List NormalizedMutation) (partitions : Partitions)
    (mutations : List NormalizedMutation) :
    ChangeSet.resolve (applyLoop done.length partitions mutations).2.1
        (done ++ (applyLoop done.length partitions mutations).2.2) =
      appliedTurns partitions mutations := by
  induction mutations generalizing done partitions with
  | nil => rfl
  | cons mutation mutations ih =>
    have post := ih (done ++ [(applyTurn partitions 0 mutation).2.1])
      (applyTurn partitions 0 mutation).1
    rw [List.length_append, List.length_singleton, List.append_assoc] at post
    rw [applyLoop_cons, applyTurn_position]
    simp only [appliedTurns]
    rw [← post]
    unfold ChangeSet.resolve
    rw [List.filterMap_append]
    congr 1
    cases (applyTurn partitions 0 mutation).2.2 with
    | none => rfl
    | some rep => simp

theorem applyLoop_silent_iff (index : Nat) (partitions : Partitions)
    (mutations : List NormalizedMutation) :
    (applyLoop index partitions mutations).2.1 = [] ↔ appliedTurns partitions mutations = [] := by
  induction mutations generalizing index partitions with
  | nil => simp [applyLoop, appliedTurns]
  | cons mutation mutations ih =>
    rw [applyLoop_cons, applyTurn_position]
    simp only [appliedTurns, List.append_eq_nil_iff]
    rw [ih]
    cases (applyTurn partitions 0 mutation).2.2 <;> simp

/-- Mutations of one partition only: the single-root loop is the general one. -/
theorem applyLoop_singleRoot {root : StateRoot} (one : singleRoot mutations root = true)
    (index : Nat) (partitions : Partitions) :
    applyLoop index partitions mutations =
      (Function.update partitions root
        (applySingleRootLoop root index (partitions root) mutations).1,
        (applySingleRootLoop root index (partitions root) mutations).2) := by
  induction mutations generalizing index partitions with
  | nil => simp [applyLoop, applySingleRootLoop]
  | cons mutation mutations ih =>
    simp only [singleRoot, List.all_cons, Bool.and_eq_true, beq_iff_eq] at one
    obtain ⟨here, post⟩ := one
    rw [applyLoop_cons]
    dsimp only
    rw [ih post]
    simp [applyTurn, applySingleRootLoop, here]

variable (store : StateStore)

/-- What every apply amounts to. -/
def applyGeneric (revision : Revision) (mutations : List NormalizedMutation) :
    StateStore × Option AppliedBatch :=
  let out := applyLoop 0 store.partitions mutations
  store.finish revision out.1 out.2

theorem applySingleRoot_eq {root : StateRoot} (one : singleRoot mutations root = true)
    (store : StateStore) (rev : Revision) :
    store.applySingleRoot rev root mutations = store.applyGeneric rev mutations := by
  unfold applySingleRoot applyGeneric
  rw [applyLoop_singleRoot one]

theorem applyWith_eq (rev : Revision) (mutations : List NormalizedMutation) :
    store.applyWith rev mutations = store.applyGeneric rev mutations := by
  unfold applyWith
  split
  · rfl
  · split
    · rename_i one
      exact applySingleRoot_eq one store rev
    · rfl

theorem applyMarketWith_eq (rev : Revision) (mutations : List NormalizedMutation) :
    store.applyMarketWith rev mutations = store.applyGeneric rev mutations := by
  unfold applyMarketWith
  split
  · rfl
  · split
    · rename_i one
      exact applySingleRoot_eq one store rev
    · split
      · rfl
      · exact applyWith_eq store rev _

end StateStore

/-! ## The partitions a batch leaves -/

/-- Mutations applied turn by turn, without their reports. -/
def runTurns (partitions : Partitions) (mutations : List NormalizedMutation) : Partitions :=
  mutations.foldl (fun partitions mutation => (applyTurn partitions 0 mutation).1) partitions

theorem applyLoop_partitions (index : Nat) (partitions : Partitions)
    (mutations : List NormalizedMutation) :
    (StateStore.applyLoop index partitions mutations).1 = runTurns partitions mutations := by
  induction mutations generalizing index partitions with
  | nil => rfl
  | cons mutation mutations ih =>
    rw [StateStore.applyLoop_cons]
    exact ih _ _

theorem runTurns_append (partitions : Partitions) (left right : List NormalizedMutation) :
    runTurns partitions (left ++ right) = runTurns (runTurns partitions left) right :=
  List.foldl_append

end Tqsdk
