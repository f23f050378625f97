import Tqsdk.State.Store

/-!
# What one mutation can change

The frame of `apply_mutation_at_partition`: a mutation at a path changes the tree only at
paths comparable with its own, right below its path it changes only the fields it
reports, and a mutation that reports nothing leaves its partition exactly as it was.
None of this needs the partition to be well formed.
-/

namespace Tqsdk

open List OrdMap

/-- Neither path is a prefix of the other. -/
def Apart (path other : List PathSegment) : Prop :=
  ¬ path <+: other ∧ ¬ other <+: path

variable {segment : PathSegment} {path other : List PathSegment}

theorem Apart.cons (sep : Apart (segment :: path) (segment :: other)) : Apart path other := by
  constructor
  · intro lt
    exact sep.1 ((prefix_cons_inj segment).mpr lt)
  · intro ovr
    exact sep.2 ((prefix_cons_inj segment).mpr ovr)

theorem Apart.symm (sep : Apart path other) : Apart other path :=
  ⟨sep.2, sep.1⟩

theorem Apart.of_head_ne {head segment : PathSegment} (ne : head ≠ segment)
    (path other : List PathSegment) : Apart (head :: path) (segment :: other) := by
  constructor
  · intro lt
    exact ne (cons_prefix_cons.mp lt).1
  · intro ovr
    exact ne (cons_prefix_cons.mp ovr).1.symm

theorem Apart.ne_nil (sep : Apart path other) :
    other ≠ [] := by
  rintro rfl
  exact sep.2 nil_prefix

namespace Value

variable (mems : Fields)

theorem getAtPath_object_insert (segment : String) (child : Value) (rest : List String) :
    (object (OrdMap.insert segment child mems)).getAtPath (segment :: rest) =
      child.getAtPath rest := by
  rw [getAtPath_cons, get_object, get?_insert_self]
  rfl

theorem getAtPath_object_insert_ne {segment other : String} (ne : other ≠ segment) (child : Value)
    (rest : List String) :
    (object (OrdMap.insert segment child mems)).getAtPath (other :: rest) =
      (object mems).getAtPath (other :: rest) := by
  rw [getAtPath_cons, getAtPath_cons, get_object, get_object, get?_insert_ne ne]

theorem getAtPath_object_erase (segment : String) (rest : List String) :
    (object (OrdMap.erase segment mems)).getAtPath (segment :: rest) = none := by
  rw [getAtPath_cons, get_object, get?_erase_self]
  rfl

theorem getAtPath_object_erase_ne {segment other : String} (ne : other ≠ segment)
    (rest : List String) :
    (object (OrdMap.erase segment mems)).getAtPath (other :: rest) =
      (object mems).getAtPath (other :: rest) := by
  rw [getAtPath_cons, getAtPath_cons, get_object, get_object, get?_erase_ne ne]

theorem get_eq_entries (v : Value) (key : String) : v.get key = get? key v.entries := by
  cases v <;> rfl

/-- Below its root, a value reads like the object of its members. -/
theorem getAtPath_entries (v : Value) (segment : String) (rest : List String) :
    (object v.entries).getAtPath (segment :: rest) = v.getAtPath (segment :: rest) := by
  rw [getAtPath_cons, getAtPath_cons, get_object, get_eq_entries]

theorem object_entries {v : Value} (isObject : v.isObject = true) : object v.entries = v := by
  obtain ⟨mems, rfl⟩ := isObject_iff.mp isObject
  rfl

theorem getAtPath_empty {rest : List String} (less : rest ≠ []) :
    (object []).getAtPath rest = none := by
  cases rest with
  | nil => exact absurd rfl less
  | cons segment rest => rfl

theorem getAtPath_of_not_object {v : Value} (scalar : v.isObject = false) {rest : List String}
    (less : rest ≠ []) : v.getAtPath rest = none := by
  cases rest with
  | nil => exact absurd rfl less
  | cons segment rest => rw [getAtPath_cons, get_of_not_object scalar]; rfl

end Value

theorem isEmptyPartition_iff {val : Value} :
    isEmptyPartition val = true ↔ val = .object [] := by
  cases val <;> simp [isEmptyPartition, Value.asObject]

open Value

/-! ## `ensure_child_object` -/

/-- What `ensure_child_object` guarantees to both its callers. -/
structure EnsuredChild.Spec (root : Value) (segment : PathSegment) (out : EnsuredChild) :
    Prop where
  child_isObject : out.child.isObject = true
  stored : get? segment out.members = some out.child
  siblings : ∀ other, other ≠ segment → ∀ rest,
    (object out.members).getAtPath (other :: rest) = root.getAtPath (other :: rest)
  below : ∀ rest, rest ≠ [] → out.child.getAtPath rest = root.getAtPath (segment :: rest)
  unchanged : out.changed = false → root = .object out.members

theorem ensureChildObject_spec (root : Value) (segment : PathSegment) :
    (ensureChildObject root segment).Spec root segment := by
  have created (below : ∀ rest, rest ≠ [] → root.getAtPath (segment :: rest) = none) :
      EnsuredChild.Spec root segment
        ⟨OrdMap.insert segment (.object []) root.entries, .object [], true⟩ :=
    { child_isObject := rfl
      stored := get?_insert_self _ _ _
      siblings := by
        intro other ne rest
        rw [getAtPath_object_insert_ne _ ne, getAtPath_entries]
      below := by
        intro rest proper
        rw [getAtPath_empty proper, below rest proper]
      unchanged := by intro no; cases no }
  unfold ensureChildObject
  cases got : get? segment root.entries with
  | none =>
    apply created
    intro rest _
    rw [getAtPath_cons, get_eq_entries, got]
    rfl
  | some child =>
    by_cases isObject : child.isObject = true
    · simp only [isObject, if_true]
      refine ⟨isObject, got, fun other _ rest => getAtPath_entries root other rest, ?_, ?_⟩
      · intro rest _
        rw [getAtPath_cons, get_eq_entries, got]
        rfl
      · intro kept
        exact (object_entries (by simpa using kept)).symm
    · rw [Bool.not_eq_true] at isObject
      simp only [isObject]
      apply created
      intro rest proper
      rw [getAtPath_cons, get_eq_entries, got]
      exact getAtPath_of_not_object isObject proper

theorem ensureChildObject_of_get {root child : Value} (got : root.get segment = some child)
    (isObject : child.isObject = true) :
    ensureChildObject root segment = ⟨root.entries, child, false⟩ := by
  have parent : root.isObject = true := by
    by_contra scalar
    rw [get_of_not_object (Bool.not_eq_true _ ▸ scalar)] at got
    cases got
  rw [get_eq_entries] at got
  simp [ensureChildObject, got, isObject, parent]

/-! ## The frame of an applied mutation -/

/-- The name of the field at one of the reported indexes. -/
def Applied.Reports (out : Applied) (fields : List FieldMutation) (name : String) : Prop :=
  ∃ index ∈ out.fieldIndexes, ∃ field, fields[index]? = some field ∧ field.field = name

/-- The frame of a mutation at `path` with the given fields: what it leaves alone. -/
structure Applied.Frame (node : Value) (path : List PathSegment) (fields : List FieldMutation)
    (out : Applied) : Prop where
  apart : ∀ other, Apart path other → out.node.getAtPath other = node.getAtPath other
  silent : out.fieldIndexes = [] → out.changed = false → out.node = node
  names : out.fields.map (·.field) = fields.map (·.field)

/-- Right below its path a field write changes only the fields it reports. -/
def Applied.FieldsReported (node : Value) (path : List PathSegment)
    (fields : List FieldMutation) (out : Applied) : Prop :=
  ∀ name, ¬ out.Reports fields name → ∀ rest,
    out.node.getAtPath (path ++ name :: rest) = node.getAtPath (path ++ name :: rest)

section Fields

variable {object : Option ObjectKey}

theorem applyField_some {map map' : Fields} {field field' : FieldMutation}
    (put : applyField object map field = some (map', field')) :
    field'.field = field.field ∧
      ∀ other, other ≠ field.field → get? other map' = get? other map := by
  have ins : (OrdMap.insert field.field field.value map,
        ({ field with value := .null } : FieldMutation)) = (map', field') →
      field'.field = field.field ∧
        ∀ other, other ≠ field.field → get? other map' = get? other map := by
    rintro ⟨⟩
    exact ⟨rfl, fun other ne => get?_insert_ne ne _ _⟩
  unfold applyField at put
  split at put
  · split at put
    · cases put
    · cases put
      exact ⟨rfl, fun other ne => get?_erase_ne ne _⟩
  · split at put
    · split at put
      · cases put
      · exact ins (Option.some.inj put)
    · exact ins (Option.some.inj put)

theorem applyFieldsFrom_names (idx : Nat) (map : Fields) (fields : List FieldMutation) :
    (applyFieldsFrom object idx map fields).2.1.map (·.field) = fields.map (·.field) := by
  induction fields generalizing idx map with
  | nil => rfl
  | cons fld fields ih =>
    rw [applyFieldsFrom]
    cases put : applyField object map fld with
    | none => simp [ih]
    | some out => simp [ih, (applyField_some put).1]

theorem applyFieldsFrom_silent {idx : Nat} {map : Fields} {fields : List FieldMutation}
    (silent : (applyFieldsFrom object idx map fields).2.2 = []) :
    (applyFieldsFrom object idx map fields).1 = map := by
  induction fields generalizing idx map with
  | nil => rfl
  | cons fld fields ih =>
    rw [applyFieldsFrom] at silent ⊢
    cases put : applyField object map fld with
    | none =>
      rw [put] at silent
      exact ih silent
    | some out =>
      rw [put] at silent
      cases silent

theorem applyFieldsFrom_reported (idx : Nat) (map : Fields) (fields : List FieldMutation)
    (name : String) (unreported : ¬ ∃ i ∈ (applyFieldsFrom object idx map fields).2.2, ∃ fld,
      fields[i - idx]? = some fld ∧ idx ≤ i ∧ fld.field = name) :
    get? name (applyFieldsFrom object idx map fields).1 = get? name map := by
  induction fields generalizing idx map with
  | nil => rfl
  | cons fld fields ih =>
    have post (map' : Fields)
        (unreported' : ¬ ∃ i ∈ (applyFieldsFrom object (idx + 1) map' fields).2.2, ∃ post,
          (fld :: fields)[i - idx]? = some post ∧ idx ≤ i ∧ post.field = name) :
        get? name (applyFieldsFrom object (idx + 1) map' fields).1 = get? name map' := by
      apply ih
      rintro ⟨i, mem, hit, atIndex, bnd, nm⟩
      apply unreported'
      refine ⟨i, mem, hit, ?_, by omega, nm⟩
      have at_ : i - idx = i - (idx + 1) + 1 := by omega
      rw [at_, getElem?_cons_succ]
      exact atIndex
    rw [applyFieldsFrom] at unreported ⊢
    cases put : applyField object map fld with
    | none =>
      rw [put] at unreported
      exact post map unreported
    | some out =>
      rw [put] at unreported
      have ne : name ≠ fld.field := by
        rintro rfl
        exact unreported ⟨idx, mem_cons_self, fld, by simp, le_refl _, rfl⟩
      have tail := post out.1 (by
        rintro ⟨i, mem, rest⟩
        exact unreported ⟨i, mem_cons_of_mem _ mem, rest⟩)
      exact tail.trans ((applyField_some put).2 name ne)

theorem applyFields_reported (cur : Value) (fields : List FieldMutation) :
    (applyFields object cur fields).FieldsReported cur [] fields := by
  intro name unrep rest
  rw [nil_append, ← getAtPath_entries cur, getAtPath_cons, getAtPath_cons]
  have same : get? name (applyFieldsFrom object 0 cur.entries fields).1 =
      get? name cur.entries := by
    apply applyFieldsFrom_reported
    rintro ⟨i, mem, fld, atIndex, _, nm⟩
    exact unrep ⟨i, mem, fld, atIndex, nm⟩
  simp only [applyFields, get_object, same]

theorem applyFields_frame (cur : Value) (fields : List FieldMutation) :
    (applyFields object cur fields).Frame cur [] fields where
  apart := fun other sep => absurd nil_prefix sep.1
  silent := by
    intro ixs same
    simp only [applyFields, Bool.or_eq_false_iff, Bool.not_eq_false'] at ixs same ⊢
    rw [applyFieldsFrom_silent ixs]
    exact object_entries same.1
  names := applyFieldsFrom_names 0 cur.entries fields

end Fields

/-- What a field write leaves under its name. -/
def fieldAfter (field : FieldMutation) : Option Value :=
  if field.value.isNull then none else some field.value

section FieldWrites

variable {object : Option ObjectKey} (removes : ∀ field, preservesNullField object field = false)

include removes

theorem get?_applyField (map : Fields) (fld : FieldMutation) (key : String) :
    get? key (((applyField object map fld).map Prod.fst).getD map) =
      if key = fld.field then fieldAfter fld else get? key map := by
  unfold applyField fieldAfter
  rw [removes, Bool.not_false, Bool.and_true]
  cases null : fld.value.isNull with
  | true =>
    cases got : get? fld.field map with
    | none =>
      by_cases same : key = fld.field
      · simp [same, got]
      · simp [same]
    | some old => simp [get?_erase]
  | false =>
    cases got : get? fld.field map with
    | none => simp [get?_insert]
    | some old =>
      by_cases same : old = fld.value
      · by_cases here : key = fld.field
        · simp [same, here, got]
        · simp [same, here]
      · simp [same, get?_insert]

/-- Writes of distinct fields: each field has its last word, every other key is kept. -/
theorem get?_applyFieldsFrom {fields : List FieldMutation}
    (nd : (fields.map (·.field)).Nodup) (idx : Nat) (map : Fields) :
    (∀ fld ∈ fields, get? fld.field
        (applyFieldsFrom object idx map fields).1 = fieldAfter fld) ∧
      ∀ key, key ∉ fields.map (·.field) →
        get? key (applyFieldsFrom object idx map fields).1 = get? key map := by
  induction fields generalizing idx map with
  | nil => exact ⟨nofun, fun _ _ => rfl⟩
  | cons fld fields ih =>
    rw [map_cons, nodup_cons] at nd
    obtain ⟨new, nd⟩ := nd
    have turn : (applyFieldsFrom object idx map (fld :: fields)).1 =
        (applyFieldsFrom object (idx + 1)
          (((applyField object map fld).map Prod.fst).getD map) fields).1 := by
      rw [applyFieldsFrom]
      cases applyField object map fld <;> rfl
    obtain ⟨post, kept⟩ := ih nd (idx + 1) (((applyField object map fld).map Prod.fst).getD map)
    rw [turn]
    constructor
    · intro put member
      rcases mem_cons.mp member with rfl | member
      · rw [kept _ new, get?_applyField removes, if_pos rfl]
      · exact post put member
    · intro key gone
      rw [map_cons, mem_cons, not_or] at gone
      rw [kept key gone.2, get?_applyField removes, if_neg gone.1]

end FieldWrites

/-! ## Descending to the mutation's path -/

section Path

variable (object : Option ObjectKey) (fields : List FieldMutation) (prune : Bool)

/-- One level of `apply_mutation_at_path`, seen from the parent: what it does to the child
is all it does. -/
theorem applyMutationAtPath_cons_get (cur : Value) (segment : PathSegment)
    (path : List PathSegment) :
    let inner := applyMutationAtPath object fields prune
      (ensureChildObject cur segment).child path
    let out := applyMutationAtPath object fields prune cur (segment :: path)
    out.fields = inner.fields ∧ out.fieldIndexes = inner.fieldIndexes ∧
      (∀ rest, rest ≠ [] → out.node.getAtPath (segment :: rest) = inner.node.getAtPath rest) ∧
      ∀ other, other ≠ segment → ∀ rest,
        out.node.getAtPath (other :: rest) = cur.getAtPath (other :: rest) := by
  intro inner out
  have ensured := ensureChildObject_spec cur segment
  have siblings (other : PathSegment) (ne : other ≠ segment) (rest : List PathSegment) :
      (Value.object (OrdMap.insert segment inner.node
        (ensureChildObject cur segment).members)).getAtPath (other :: rest) =
          cur.getAtPath (other :: rest) := by
    rw [getAtPath_object_insert_ne _ ne, ensured.siblings other ne]
  simp only [out, applyMutationAtPath]
  split
  · rename_i pruned
    have emp : inner.node = .object [] := by
      apply isEmptyPartition_iff.mp
      exact (Bool.and_eq_true _ _ ▸ pruned).2
    refine ⟨rfl, rfl, ?_, ?_⟩
    · intro rest proper
      rw [getAtPath_object_erase, emp, getAtPath_empty proper]
    · intro other ne rest
      rw [getAtPath_object_erase_ne _ ne]
      exact siblings other ne rest
  · refine ⟨rfl, rfl, ?_, siblings⟩
    intro rest _
    exact getAtPath_object_insert _ _ _ _

theorem applyMutationAtPath_frame (cur : Value) (path : List PathSegment) :
    (applyMutationAtPath object fields prune cur path).Frame cur path fields := by
  induction path generalizing cur with
  | nil => exact applyFields_frame cur fields
  | cons segment path ih =>
    have inner := ih (ensureChildObject cur segment).child
    have ensured := ensureChildObject_spec cur segment
    obtain ⟨sameFields, -, lt, siblings⟩ :=
      applyMutationAtPath_cons_get object fields prune cur segment path
    refine ⟨?_, ?_, ?_⟩
    · intro other sep
      cases other with
      | nil => exact absurd rfl sep.ne_nil
      | cons head rest =>
        by_cases same : head = segment
        · subst same
          have sepLt := sep.cons
          rw [lt rest sepLt.ne_nil, inner.apart rest sepLt, ensured.below rest sepLt.ne_nil]
        · exact siblings head same rest
    · intro noIndexes unchanged
      simp only [applyMutationAtPath] at noIndexes unchanged ⊢
      split at unchanged
      · cases unchanged
      · rename_i kept
        rw [if_neg kept] at noIndexes ⊢
        simp only [Bool.or_eq_false_iff] at unchanged
        -- nothing was created and the child is as it was, so it is put back in place
        rw [inner.silent noIndexes unchanged.2, insert_of_get? ensured.stored]
        exact (ensured.unchanged unchanged.1).symm
    · rw [sameFields]
      exact inner.names

theorem applyMutationAtPath_reported (cur : Value) (path : List PathSegment) :
    (applyMutationAtPath object fields prune cur path).FieldsReported cur path
      fields := by
  induction path generalizing cur with
  | nil => exact applyFields_reported cur fields
  | cons segment path ih =>
    intro name unrep rest
    obtain ⟨-, sameIndexes, lt, -⟩ :=
      applyMutationAtPath_cons_get object fields prune cur segment path
    have inner : (applyMutationAtPath object fields prune
        (ensureChildObject cur segment).child path).node.getAtPath (path ++ name :: rest) =
          (ensureChildObject cur segment).child.getAtPath (path ++ name :: rest) := by
      apply ih
      rintro ⟨idx, mem, hit⟩
      exact unrep ⟨idx, sameIndexes ▸ mem, hit⟩
    have proper : path ++ name :: rest ≠ [] := by simp
    rw [cons_append, lt _ proper, inner, (ensureChildObject_spec cur segment).below _ proper]

/-- A field written at a path reads back there, also when its empty parents are pruned. -/
theorem applyMutationAtPath_written (removes : ∀ fld, preservesNullField object fld = false)
    (nd : (fields.map (·.field)).Nodup) {fld : FieldMutation} (mem : fld ∈ fields)
    (cur : Value) (path : List PathSegment) :
    (applyMutationAtPath object fields prune cur path).node.getAtPath (path ++ [fld.field]) =
      fieldAfter fld := by
  induction path generalizing cur with
  | nil =>
    have put := (get?_applyFieldsFrom removes nd 0 cur.entries).1 fld mem
    simp only [applyMutationAtPath, applyFields, nil_append, getAtPath_cons, get_object, put]
    cases fieldAfter fld <;> rfl
  | cons segment path ih =>
    obtain ⟨-, -, inner, -⟩ := applyMutationAtPath_cons_get object fields prune cur segment path
    rw [cons_append, inner (path ++ [fld.field]) (by simp)]
    exact ih _

end Path

/-! ## Direct scalars and partition deletes -/

theorem removeScalar_apart {cur next : Value} {ups : List PathSegment}
    (rem : removeScalar cur ups segment = some next) (other : List PathSegment)
    (sep : Apart (ups ++ [segment]) other) :
    next.getAtPath other = cur.getAtPath other := by
  induction ups generalizing cur next other with
  | nil =>
    cases cur with
    | object mems =>
      simp only [removeScalar, asObject_object] at rem
      split at rem
      · cases rem
        cases other with
        | nil => exact absurd rfl sep.ne_nil
        | cons head rest =>
          have ne : head ≠ segment := by
            rintro rfl
            exact sep.1 (by simp)
          exact getAtPath_object_erase_ne mems ne rest
      · cases rem
    | null | bool | number | string | array => cases rem
  | cons parent ups ih =>
    cases cur with
    | object mems =>
      simp only [removeScalar, asObject_object] at rem
      cases got : get? parent mems with
      | none => simp [got] at rem
      | some child =>
        simp only [got, Option.map_eq_some_iff] at rem
        obtain ⟨child', removedBelow, rfl⟩ := rem
        cases other with
        | nil => exact absurd rfl sep.ne_nil
        | cons head rest =>
          by_cases same : head = parent
          · subst same
            rw [getAtPath_object_insert, ih removedBelow rest sep.cons,
              getAtPath_cons, get_object, got]
            rfl
          · exact getAtPath_object_insert_ne mems same _ rest
    | null | bool | number | string | array => cases rem

theorem writeScalar_apart (val cur : Value) (ups : List PathSegment) (segment : PathSegment)
    (other : List PathSegment) (sep : Apart (ups ++ [segment]) other) :
    (writeScalar val cur ups segment).1.getAtPath other = cur.getAtPath other := by
  induction ups generalizing cur other with
  | nil =>
    cases other with
    | nil => exact absurd rfl sep.ne_nil
    | cons head rest =>
      have ne : head ≠ segment := by
        rintro rfl
        exact sep.1 (by simp)
      rw [writeScalar]
      split
      · exact getAtPath_entries cur head rest
      · rw [getAtPath_object_insert_ne _ ne, getAtPath_entries]
  | cons parent ups ih =>
    have ensured := ensureChildObject_spec cur parent
    cases other with
    | nil => exact absurd rfl sep.ne_nil
    | cons head rest =>
      rw [writeScalar]
      by_cases same : head = parent
      · subst same
        have sepLt := sep.cons
        rw [getAtPath_object_insert, ih _ rest sepLt, ensured.below rest sepLt.ne_nil]
      · rw [getAtPath_object_insert_ne _ same, ensured.siblings head same]

/-- A scalar is only found in place below parents that were in place. -/
theorem writeScalar_silent {val cur : Value} {ups : List PathSegment}
    (silent : (writeScalar val cur ups segment).2 = false) :
    cur.getAtPath (ups ++ [segment]) = some val ∧ (writeScalar val cur ups segment).1 = cur := by
  induction ups generalizing cur with
  | nil =>
    rw [writeScalar] at silent ⊢
    split at silent
    · rename_i got
      have hit : cur.get segment = some val := by rw [get_eq_entries, got]
      have isObject : cur.isObject = true := by
        by_contra scalar
        rw [get_of_not_object (Bool.not_eq_true _ ▸ scalar)] at hit
        cases hit
      rw [if_pos got]
      exact ⟨by simp [getAtPath_cons, hit], object_entries isObject⟩
    · cases silent
  | cons parent ups ih =>
    have proper : ups ++ [segment] ≠ [] := by simp
    rw [writeScalar] at silent ⊢
    obtain ⟨hit, same⟩ := ih silent
    rw [(ensureChildObject_spec cur parent).below _ proper] at hit
    obtain ⟨child, got, foundBelow⟩ : ∃ child, cur.get parent = some child ∧
        child.getAtPath (ups ++ [segment]) = some val := by
      rw [getAtPath_cons] at hit
      exact Option.bind_eq_some_iff.mp hit
    have childIsObject : child.isObject = true := by
      by_contra scalar
      rw [getAtPath_of_not_object (Bool.not_eq_true _ ▸ scalar) proper] at foundBelow
      cases foundBelow
    refine ⟨hit, ?_⟩
    rw [same, ensureChildObject_of_get got childIsObject]
    have isObject : cur.isObject = true := by
      by_contra scalar
      rw [get_of_not_object (Bool.not_eq_true _ ▸ scalar)] at got
      cases got
    rw [get_eq_entries] at got
    simp only [insert_of_get? got]
    exact object_entries isObject

theorem applyDirectScalar_frame (root : Value) (path : List PathSegment)
    (fields : List FieldMutation) :
    (applyDirectScalar root path fields).Frame root path fields := by
  have kept : Applied.Frame root path fields ⟨root, fields, [], false⟩ :=
    ⟨fun _ _ => rfl, fun _ _ => rfl, rfl⟩
  unfold applyDirectScalar
  split
  · rename_i segment fld last
    have split : path.dropLast ++ [segment] = path := by
      obtain ⟨init, rfl⟩ := getLast?_eq_some_iff.mp last
      simp
    split
    · exact kept
    · split
      · split
        · exact kept
        · rename_i next rem
          refine ⟨fun other sep => ?_, nofun, rfl⟩
          exact removeScalar_apart rem other (split.symm ▸ sep)
      · split
        · rename_i next put
          have same : next = root := by
            have silent := writeScalar_silent (congrArg Prod.snd put)
            rw [put] at silent
            exact silent.2
          rw [same]
          exact kept
        · rename_i next put
          refine ⟨fun other sep => ?_, nofun, rfl⟩
          have apartWrite := writeScalar_apart fld.value root path.dropLast segment other
            (split.symm ▸ sep)
          rw [put] at apartWrite
          exact apartWrite
  · exact kept

theorem applyPartitionRootDelete_frame (root : Value) (fields : List FieldMutation) :
    (applyPartitionRootDelete root fields).Frame root [] fields := by
  unfold applyPartitionRootDelete
  split
  · exact ⟨fun _ _ => rfl, fun _ _ => rfl, rfl⟩
  · exact ⟨fun _ sep => absurd nil_prefix sep.1, nofun, rfl⟩

/-! ## A mutation in its partition -/

/-- The mutation is applied field by field: neither a partition delete nor a direct
scalar. -/
def WritesFields (mutation : NormalizedMutation) : Prop :=
  isPartitionRootDelete (partitionPath mutation).1 (partitionPath mutation).2
      mutation.fields = false ∧
    isDirectScalarPath (partitionPath mutation).1 (partitionPath mutation).2 = false

theorem applyAtPartition_frame (root : StateRoot) (part : Value)
    (path : List PathSegment) (object : Option ObjectKey) (fields : List FieldMutation) :
    (applyAtPartition root part path object fields).Frame part path fields := by
  unfold applyAtPartition
  split
  · rename_i dels
    have atRoot : path = [] := by
      simp only [isPartitionRootDelete, Bool.and_eq_true, List.isEmpty_iff] at dels
      exact dels.1.2
    subst atRoot
    exact applyPartitionRootDelete_frame part fields
  · split
    · exact applyDirectScalar_frame part path fields
    · exact applyMutationAtPath_frame object fields _ part path

theorem applyAtPartition_reported {root : StateRoot} {fields : List FieldMutation} (part : Value)
    (object : Option ObjectKey) (hold : isPartitionRootDelete root path fields = false)
    (ws : isDirectScalarPath root path = false) :
    (applyAtPartition root part path object fields).FieldsReported part path
      fields := by
  unfold applyAtPartition
  rw [hold, ws]
  exact applyMutationAtPath_reported object fields _ part path

end Tqsdk
