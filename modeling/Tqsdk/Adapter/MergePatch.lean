import Tqsdk.Adapter.Common
import Tqsdk.Runtime.Reachable

/-!
# A document is merged into the tree

The reference is the recursive merge of a patch: objects are merged key by key, `null`
deletes a key, anything else replaces what was there.  A row of a kline or tick series also
gets its id from its key.

`applyBelow_flattenObject` is the correctness of the flattening decoder below one node: the
mutations it emits for a patch, applied one after the other, merge the patch.
-/

namespace Tqsdk

open List OrdMap

open Value

/-! ## The reference merge -/

/-- The row below a key that is a number has that number as its id, unless the patch sets
the id itself. -/
def withRowId (path : List PathSegment) (patch target : Fields) : Fields :=
  if patch.any fun entry => entry.1 == "id" && !entry.2.isObject then target
  else
    match marketDataRowId path with
    | none => target
    | some id => OrdMap.insert "id" (.ofI64 id) target

mutual

def mergeFields (path : List PathSegment) : Fields → List (String × Value) → Fields
  | target, [] => target
  | target, (key, value) :: rest =>
    mergeFields path (mergeMember path key target value) rest

def mergeMember (path : List PathSegment) (key : String) (target : Fields) : Value → Fields
  | .null => OrdMap.erase key target
  | .object patch =>
    let old := ((get? key target).getD (.object [])).entries
    OrdMap.insert key (.object (mergeFields (path ++ [key])
      (withRowId (path ++ [key]) patch old) patch)) target
  | value => OrdMap.insert key value target

end

/-- The patch of the object at `path` merged into a target; a target that is no object is
replaced. -/
def mergeObject (path : List PathSegment) (target : Value) (patch : Fields) : Value :=
  .object (mergeFields path (withRowId path patch target.entries) patch)

/-- What a member of a patch makes of the value under its key. -/
def memberAfter (path : List PathSegment) (key : String) (old : Option Value) :
    Value → Option Value
  | .null => none
  | .object patch => some (mergeObject (path ++ [key]) (old.getD (.object [])) patch)
  | value => some value

theorem get?_mergeMember (path : List PathSegment) (key : String) (tgt : Fields)
    (val : Value) (alt : String) :
    get? alt (mergeMember path key tgt val) =
      if alt = key then memberAfter path key (get? key tgt) val
      else get? alt tgt := by
  cases val with
  | null =>
    rw [mergeMember, get?_erase]
    rfl
  | object patch =>
    rw [mergeMember, get?_insert]
    rfl
  | bool | number | string | array => exact get?_insert key alt _ tgt

variable {path : List PathSegment} {patch : Fields} {node : Value}
  {mutations : List NormalizedMutation}

theorem get?_mergeFields (path : List PathSegment) (tgt : Fields) (srt : OrdMap.Sorted patch)
    (key : String) :
    get? key (mergeFields path tgt patch) =
      match get? key patch with
      | none => get? key tgt
      | some val => memberAfter path key (get? key tgt) val := by
  induction patch generalizing tgt with
  | nil => rw [mergeFields]; rfl
  | cons ent patch ih =>
    obtain ⟨fld, val⟩ := ent
    rw [mergeFields, ih _ srt.tail, get?_cons]
    by_cases same : key = fld
    · subst same
      rw [srt.get?_head_tail, if_pos rfl, get?_mergeMember, if_pos rfl]
    · rw [get?_mergeMember, if_neg same, if_neg same]

theorem sorted_withRowId {tgt : Fields} (srt : OrdMap.Sorted tgt) :
    OrdMap.Sorted (withRowId path patch tgt) := by
  unfold withRowId
  split
  · exact srt
  · split
    · exact srt
    · exact srt.insert _ _

theorem sorted_mergeFields (path : List PathSegment) {tgt : Fields}
    (srt : OrdMap.Sorted tgt) (patch : Fields) :
    OrdMap.Sorted (mergeFields path tgt patch) := by
  induction patch generalizing tgt with
  | nil => rw [mergeFields]; exact srt
  | cons ent patch ih =>
    obtain ⟨fld, val⟩ := ent
    rw [mergeFields]
    apply ih
    cases val with
    | null => rw [mergeMember]; exact srt.erase _
    | object patch => rw [mergeMember]; exact srt.insert _ _
    | bool | number | string | array => exact srt.insert _ _

/-! ## Applying mutations below a node -/

/-- Mutations applied to the node `depth` segments down their paths. -/
def applyBelow (depth : Nat) (node : Value) (mutations : List NormalizedMutation) : Value :=
  mutations.foldl
    (fun node mutation =>
      (applyMutationAtPath mutation.object mutation.fields false node
        (mutation.path.drop depth)).node) node

theorem applyBelow_append (depth : Nat) (node : Value) (left right : List NormalizedMutation) :
    applyBelow depth node (left ++ right) = applyBelow depth (applyBelow depth node left) right :=
  foldl_append

theorem applyBelow_wf {depth : Nat} (wf : node.Wf) (vals : ∀ m ∈ mutations, m.Wf) :
    (applyBelow depth node mutations).Wf := by
  induction mutations generalizing node with
  | nil => exact wf
  | cons m mutations ih =>
    apply ih
    · exact applyMutationAtPath_wf _ (vals m mem_cons_self) false wf _
    · exact fun post mem => vals post (mem_cons_of_mem _ mem)

/-- The value written below an object, with the object's other members as they were. -/
theorem applyMutationAtPath_cons (obj : Option ObjectKey) (flds : List FieldMutation)
    (cur : Value) (seg : PathSegment) (path : List PathSegment) :
    (applyMutationAtPath obj flds false cur (seg :: path)).node =
      .object (OrdMap.insert seg
        (applyMutationAtPath obj flds false (ensureChildObject cur seg).child
          path).node cur.entries) := by
  have mems : ∀ val, OrdMap.insert seg val (ensureChildObject cur seg).members =
      OrdMap.insert seg val cur.entries := by
    intro val
    unfold ensureChildObject
    split
    · exact insert_insert _ _ _ _
    · split
      · rfl
      · exact insert_insert _ _ _ _
  rw [applyMutationAtPath]
  simp only [Bool.false_and, Bool.false_eq_true, if_false, mems]

theorem applyMutationAtPath_isObject (obj : Option ObjectKey)
    (flds : List FieldMutation) (prune : Bool) (cur : Value) (path : List PathSegment) :
    (applyMutationAtPath obj flds prune cur path).node.isObject = true := by
  obtain ⟨mems, same, -⟩ := applyMutationAtPath_edits obj flds prune cur path
  rw [same]
  rfl

/-- Mutations below one key: they change the value under that key and nothing else. -/
theorem applyBelow_child {key : String}
    (less : ∀ m ∈ mutations, ∃ rest, m.path = path ++ key :: rest)
    (some_ : mutations ≠ []) (cur : Value) :
    applyBelow path.length cur mutations =
      .object (OrdMap.insert key
        (applyBelow (path.length + 1) (ensureChildObject cur key).child mutations)
        cur.entries) := by
  induction mutations generalizing cur with
  | nil => exact absurd rfl some_
  | cons m mutations ih =>
    obtain ⟨rest, all⟩ := less m mem_cons_self
    have here : m.path.drop path.length = key :: rest := by simp [all]
    have inner : m.path.drop (path.length + 1) = rest := by
      rw [← drop_drop, here]
      rfl
    unfold applyBelow
    rw [foldl_cons, foldl_cons, here, inner, applyMutationAtPath_cons]
    generalize put : (applyMutationAtPath m.object m.fields false
      (ensureChildObject cur key).child rest).node = value
    have isObject : value.isObject = true := by
      rw [← put]
      exact applyMutationAtPath_isObject _ _ _ _ _
    cases mutations with
    | nil => rfl
    | cons next mutations =>
      have post := ih (fun post mem => less post (mem_cons_of_mem _ mem))
        (cons_ne_nil _ _) (.object (OrdMap.insert key value cur.entries))
      unfold applyBelow at post
      rw [post, ensureChildObject_of_get (by simp) isObject, entries_object,
        insert_insert]

/-! ## The fields of one node -/

/-- A path in the market part of the tree.  Nothing there is a scalar leaf, and `null`
always removes. -/
def MarketPath (path : List PathSegment) : Prop :=
  ∃ root rest, path = root :: rest ∧ root ≠ "trade" ∧ root ≠ "system"

theorem MarketPath.concat (mkt : MarketPath path) (key : String) :
    MarketPath (path ++ [key]) := by
  obtain ⟨root, rest, rfl, notTrade, notSystem⟩ := mkt
  exact ⟨root, rest ++ [key], rfl, notTrade, notSystem⟩

theorem MarketPath.ne_nil (mkt : MarketPath path) : path ≠ [] := by
  obtain ⟨root, rest, rfl, -⟩ := mkt
  exact cons_ne_nil _ _

theorem MarketPath.noLeaf (mkt : MarketPath path) (fld : String) :
    emitsScalarLeaf path fld = false := by
  obtain ⟨root, rest, rfl, notTrade, -⟩ := mkt
  unfold emitsScalarLeaf
  split
  · rename_i no
    cases no
  · rename_i same
    cases same
    simp [notTrade]
  · rfl

theorem klineKey_ne_sessionReconnect (sym dur barId : String) :
    klineKey sym dur barId ≠ some .sessionReconnect := by
  unfold klineKey
  cases parseI64 dur <;> cases parseI64 barId <;> exact nofun

theorem tickKey_ne_sessionReconnect (sym tickId : String) :
    tickKey sym tickId ≠ some .sessionReconnect := by
  unfold tickKey
  cases parseI64 tickId <;> exact nofun

theorem tradeObjectKey_ne_sessionReconnect (acct : String) (rest : List PathSegment) :
    tradeObjectKey acct rest ≠ some .sessionReconnect := by
  unfold tradeObjectKey
  split <;> exact nofun

theorem MarketPath.removes (mkt : MarketPath path) (fld : String) :
    preservesNullField (inferObjectKeyFromSegments path) fld = false := by
  have key : inferObjectKeyFromSegments path ≠ some .sessionReconnect := by
    obtain ⟨root, rest, rfl, -, notSystem⟩ := mkt
    intro inf
    unfold inferObjectKeyFromSegments at inf
    split at inf
    case h_4 =>
      split at inf
      · exact klineKey_ne_sessionReconnect _ _ _ inf
      · exact klineKey_ne_sessionReconnect _ _ _ inf
      · cases inf
    case h_5 =>
      split at inf
      · exact tickKey_ne_sessionReconnect _ _ inf
      · exact tickKey_ne_sessionReconnect _ _ inf
      · cases inf
    case h_6 =>
      split at inf
      · exact tradeObjectKey_ne_sessionReconnect _ _ inf
      · cases inf
    case h_11 same => exact notSystem (List.cons.inj same).1
    case h_12 => cases inf
    all_goals split at inf <;> cases inf
  simp [preservesNullField, key]

/-- The fields `flatten_object` writes for a node. -/
def nodeFields (path : List PathSegment) (patch : Fields) : List FieldMutation :=
  injectMarketDataRowId path (sortFieldMutations (ownFields path patch))

/-- The id a row gets from its key. -/
def rowIdField (path : List PathSegment) (patch : Fields) : List FieldMutation :=
  if patch.any fun entry => entry.1 == "id" && !entry.2.isObject then []
  else
    match marketDataRowId path with
    | none => []
    | some id => [⟨"id", .ofI64 id⟩]

theorem mem_ownFields (mkt : MarketPath path) {fld : FieldMutation} :
    fld ∈ ownFields path patch ↔ (fld.field, fld.value) ∈ patch ∧ fld.value.isObject = false := by
  obtain ⟨name, val⟩ := fld
  simp only [ownFields, mem_map, mem_filter, mkt.noLeaf, Bool.not_false,
    Bool.and_true, Bool.not_eq_true']
  constructor
  · rintro ⟨ent, ⟨mem, scalar⟩, same⟩
    cases same
    exact ⟨mem, scalar⟩
  · rintro ⟨mem, scalar⟩
    exact ⟨(name, val), ⟨mem, scalar⟩, rfl⟩

theorem sortFieldMutations_perm (flds : List FieldMutation) : (sortFieldMutations flds).Perm flds :=
  perm_insertionSort _ flds

theorem nodeFields_perm (mkt : MarketPath path) (patch : Fields) :
    (nodeFields path patch).Perm (ownFields path patch ++ rowIdField path patch) := by
  have srt := sortFieldMutations_perm (ownFields path patch)
  have ids : ((sortFieldMutations (ownFields path patch)).any (·.field == "id")) =
      patch.any fun ent => ent.1 == "id" && !ent.2.isObject := by
    rw [Bool.eq_iff_iff, any_eq_true, any_eq_true]
    constructor
    · rintro ⟨fld, mem, nm⟩
      obtain ⟨got, scalar⟩ := (mem_ownFields mkt).mp (srt.mem_iff.mp mem)
      exact ⟨_, got, by simp_all⟩
    · rintro ⟨ent, mem, nm⟩
      simp only [Bool.and_eq_true, Bool.not_eq_true'] at nm
      refine ⟨⟨ent.1, ent.2⟩, srt.mem_iff.mpr ?_, nm.1⟩
      exact (mem_ownFields mkt).mpr ⟨mem, nm.2⟩
  unfold nodeFields injectMarketDataRowId rowIdField
  rw [ids]
  split
  · rw [append_nil]
    exact srt
  · cases marketDataRowId path with
    | none =>
      rw [append_nil]
      exact srt
    | some id => exact (sortFieldMutations_perm _).trans (srt.append_right _)

theorem ownFields_names_nodup (path : List PathSegment) (srt : OrdMap.Sorted patch) :
    ((ownFields path patch).map (·.field)).Nodup := by
  unfold ownFields
  rw [map_map]
  exact srt.keys_nodup.sublist (List.Sublist.map _ filter_sublist)

theorem nodeFields_names_nodup (mkt : MarketPath path) (srt : OrdMap.Sorted patch) :
    ((nodeFields path patch).map (·.field)).Nodup := by
  rw [((nodeFields_perm mkt patch).map _).nodup_iff, map_append, nodup_append]
  refine ⟨ownFields_names_nodup path srt, ?_, ?_⟩
  · unfold rowIdField
    split
    · exact nodup_nil
    · cases marketDataRowId path <;> simp
  · intro name own id injected
    rintro rfl
    unfold rowIdField at injected
    split at injected
    · cases injected
    · rename_i noId
      cases rowId : marketDataRowId path with
      | none => simp [rowId] at injected
      | some id =>
        simp only [rowId, map_cons, map_nil, mem_singleton] at injected
        subst injected
        obtain ⟨fld, mem, nm⟩ := mem_map.mp own
        obtain ⟨got, scalar⟩ := (mem_ownFields mkt).mp mem
        exact noId (any_eq_true.mpr ⟨_, got, by simp [nm, scalar]⟩)

theorem isNull_ofI64 (n : Int) : (ofI64 n).isNull = false := rfl

/-- The node after its fields are written: plain members of the patch are in place, the
rest is the target with its row id. -/
theorem get?_nodeFields (mkt : MarketPath path) (srt : OrdMap.Sorted patch) (tgt : Fields)
    (key : String) :
    get? key (applyFieldsFrom (inferObjectKeyFromSegments path) 0 tgt
        (nodeFields path patch)).1 =
      match get? key patch with
      | some (.object _) | none => get? key (withRowId path patch tgt)
      | some val => if val.isNull then none else some val := by
  obtain ⟨put, kept⟩ := get?_applyFieldsFrom mkt.removes (nodeFields_names_nodup mkt srt) 0 tgt
  have perm := nodeFields_perm mkt patch
  have own (val : Value) (got : get? key patch = some val)
      (scalar : val.isObject = false) :
      get? key (applyFieldsFrom (inferObjectKeyFromSegments path) 0 tgt
        (nodeFields path patch)).1 = if val.isNull then none else some val :=
    put ⟨key, val⟩ (perm.mem_iff.mpr (mem_append_left _
      ((mem_ownFields mkt).mpr ⟨mem_of_get? got, scalar⟩)))
  have rest (notOwn : ∀ val, (key, val) ∈ patch → val.isObject = true) :
      get? key (applyFieldsFrom (inferObjectKeyFromSegments path) 0 tgt
        (nodeFields path patch)).1 = get? key (withRowId path patch tgt) := by
    have gone : key ∉ (ownFields path patch).map (·.field) := by
      intro nm
      obtain ⟨fld, mem, same⟩ := mem_map.mp nm
      obtain ⟨got, scalar⟩ := (mem_ownFields mkt).mp mem
      rw [notOwn _ (same ▸ got)] at scalar
      cases scalar
    have names : key ∉ (rowIdField path patch).map (·.field) → get? key
        (applyFieldsFrom (inferObjectKeyFromSegments path) 0 tgt
          (nodeFields path patch)).1 = get? key tgt := by
      intro noId
      apply kept
      rw [(perm.map _).mem_iff, map_append, mem_append, not_or]
      exact ⟨gone, noId⟩
    unfold rowIdField at names perm
    unfold withRowId
    split
    · rename_i sets
      rw [if_pos sets] at names
      exact names (by simp)
    · rename_i sets
      rw [if_neg sets] at names perm
      cases rowId : marketDataRowId path with
      | none => exact names (by simp [rowId])
      | some id =>
        simp only [rowId] at names perm ⊢
        by_cases here : key = "id"
        · subst here
          rw [get?_insert_self]
          have fld := put ⟨"id", .ofI64 id⟩ (perm.mem_iff.mpr (by simp))
          rw [fld, fieldAfter, isNull_ofI64]
          rfl
        · rw [get?_insert_ne here]
          exact names (by simpa using here)
  cases got : get? key patch with
  | none =>
    apply rest
    intro val mem
    rw [srt.get?_of_mem mem] at got
    cases got
  | some val =>
    cases val with
    | object child =>
      apply rest
      intro val mem
      rw [srt.get?_of_mem mem] at got
      cases got
      rfl
    | null | bool | number | string | array => exact own _ got rfl

/-! ## What `flatten_object` emits below a node -/

theorem injectMarketDataRowId_wf {flds : List FieldMutation} (vals : ∀ fld ∈ flds, fld.value.Wf) :
    ∀ fld ∈ injectMarketDataRowId path flds, fld.value.Wf := by
  intro fld mem
  unfold injectMarketDataRowId at mem
  split at mem
  · exact vals fld mem
  · split at mem
    · exact vals fld mem
    · rw [(sortFieldMutations_perm _).mem_iff, mem_append, mem_singleton] at mem
      rcases mem with old | rfl
      · exact vals fld old
      · exact trivial

theorem ownFields_wf (vals : ∀ ent ∈ patch, ent.2.Wf) :
    ∀ fld ∈ ownFields path patch, fld.value.Wf := by
  intro fld mem
  obtain ⟨ent, got, rfl⟩ := mem_map.mp mem
  exact vals ent (mem_of_mem_filter got)

theorem nodeFields_wf (path : List PathSegment) (vals : ∀ ent ∈ patch, ent.2.Wf) :
    ∀ fld ∈ nodeFields path patch, fld.value.Wf := by
  apply injectMarketDataRowId_wf
  intro fld mem
  exact ownFields_wf vals fld ((sortFieldMutations_perm _).mem_iff.mp mem)

/-- The mutation of a node's own fields, at the node's path. -/
theorem mem_flattenFields {src : MutationSource} (proper : path ≠ []) {m : NormalizedMutation}
    (mem : m ∈ flattenFields src path patch.isEmpty (ownFields path patch)) :
    m = ⟨path, inferObjectKeyFromSegments path, nodeFields path patch, src⟩ := by
  have notRoot : path.isEmpty = false := by
    cases path with
    | nil => exact absurd rfl proper
    | cons _ _ => rfl
  change m ∈ (if !path.isEmpty && !(nodeFields path patch).isEmpty then _ else _) at mem
  rw [notRoot] at mem
  cases none_ : (nodeFields path patch).isEmpty with
  | false =>
    rw [none_] at mem
    exact mem_singleton.mp mem
  | true =>
    rw [none_] at mem
    rw [List.isEmpty_iff] at none_
    cases emp : patch.isEmpty with
    | true =>
      rw [emp] at mem
      rw [none_]
      exact mem_singleton.mp mem
    | false =>
      rw [emp] at mem
      cases mem

mutual

theorem flattenChildren_below (src : MutationSource) (path : List PathSegment) :
    ∀ patch : List (String × Value), (∀ ent ∈ patch, ent.2.Wf) →
      ∀ m ∈ flattenChildren src path patch, m.Wf ∧ ∃ key rest, m.path = path ++ key :: rest
  | [], _ => by
      intro m mem
      rw [flattenChildren] at mem
      cases mem
  | (key, value) :: rest, wf => by
      intro m mem
      rw [flattenChildren, mem_append] at mem
      rcases mem with here | later
      · obtain ⟨vals, lt⟩ := flattenMember_below src path key value
          (wf _ mem_cons_self) m here
        exact ⟨vals, key, lt⟩
      · exact flattenChildren_below src path rest
          (fun ent mem => wf ent (mem_cons_of_mem _ mem)) m later

theorem flattenMember_below (src : MutationSource) (path : List PathSegment)
    (key : String) : ∀ val : Value, val.Wf →
      ∀ m ∈ flattenMember src path key val, m.Wf ∧ ∃ rest, m.path = path ++ key :: rest
  | .object patch, wf => by
      intro m mem
      have vals := (wf_object.mp wf).2
      rw [flattenMember, mem_append] at mem
      rcases mem with here | later
      · rw [mem_flattenFields (by simp) here]
        exact ⟨nodeFields_wf _ vals, [], rfl⟩
      · obtain ⟨wf, key', rest, lt⟩ := flattenChildren_below src (path ++ [key]) patch vals m later
        exact ⟨wf, key' :: rest, by rw [lt, append_assoc]; rfl⟩
  | .null, wf | .bool _, wf | .number _, wf | .string _, wf | .array _, wf => by
      intro m mem
      unfold flattenMember at mem
      split at mem
      · rw [mem_singleton.mp mem]
        exact ⟨fun fld here => by rw [mem_singleton.mp here]; exact wf, [], rfl⟩
      · cases mem

end

theorem mem_flattenChildren {src : MutationSource} {m : NormalizedMutation}
    (mem : m ∈ flattenChildren src path patch) :
    ∃ ent ∈ patch, m ∈ flattenMember src path ent.1 ent.2 := by
  induction patch with
  | nil =>
    rw [flattenChildren] at mem
    cases mem
  | cons ent patch ih =>
    rw [flattenChildren, mem_append] at mem
    rcases mem with here | later
    · exact ⟨ent, mem_cons_self, here⟩
    · obtain ⟨hit, got, emit⟩ := ih later
      exact ⟨hit, mem_cons_of_mem _ got, emit⟩

mutual

theorem flattenChildren_source (src : MutationSource) (path : List PathSegment) :
    ∀ patch : List (String × Value), ∀ m ∈ flattenChildren src path patch,
      m.source = src
  | [] => by
      intro m mem
      rw [flattenChildren] at mem
      cases mem
  | (key, value) :: rest => by
      intro m mem
      rw [flattenChildren, mem_append] at mem
      rcases mem with here | later
      · exact flattenMember_source src path key value m here
      · exact flattenChildren_source src path rest m later

theorem flattenMember_source (src : MutationSource) (path : List PathSegment)
    (key : String) : ∀ val : Value, ∀ m ∈ flattenMember src path key val,
      m.source = src
  | .object patch => by
      intro m mem
      rw [flattenMember, mem_append] at mem
      rcases mem with here | later
      · rw [mem_flattenFields (by simp) here]
      · exact flattenChildren_source src (path ++ [key]) patch m later
  | .null | .bool _ | .number _ | .string _ | .array _ => by
      intro m mem
      unfold flattenMember at mem
      split at mem
      · rw [mem_singleton.mp mem]
        rfl
      · cases mem

end

/-- The mutation of a node is left out when the node has only objects to pass on to. -/
theorem flattenFields_market (src : MutationSource) (mkt : MarketPath path) (patch : Fields) :
    flattenFields src path patch.isEmpty (ownFields path patch) =
        [⟨path, inferObjectKeyFromSegments path, nodeFields path patch, src⟩] ∨
      flattenFields src path patch.isEmpty (ownFields path patch) = [] ∧
        nodeFields path patch = [] ∧ patch ≠ [] := by
  have notRoot : path.isEmpty = false := by
    obtain ⟨root, rest, rfl, -⟩ := mkt
    rfl
  have unfolded : flattenFields src path patch.isEmpty (ownFields path patch) =
      if (!path.isEmpty && !(nodeFields path patch).isEmpty) = true then
        [⟨path, inferObjectKeyFromSegments path, nodeFields path patch, src⟩]
      else if (!path.isEmpty && patch.isEmpty) = true then
        [⟨path, inferObjectKeyFromSegments path, [], src⟩]
      else if path.isEmpty = true then
        ((nodeFields path patch).filter fun fld =>
          emitsRootDelete fld.field fld.value src).map
            fun fld => ⟨[fld.field], none, [⟨"value", .null⟩], src⟩
      else [] := rfl
  rw [unfolded, notRoot]
  cases none_ : nodeFields path patch with
  | cons fld flds => exact .inl rfl
  | nil =>
    cases patch with
    | nil => exact .inl rfl
    | cons ent patch => exact .inr ⟨rfl, rfl, cons_ne_nil _ _⟩

/-- A node without fields of its own has a child, so every object leaves a mutation. -/
theorem flattenObject_ne_nil (src : MutationSource) (mkt : MarketPath path) (patch : Fields) :
    flattenObject src path patch ≠ [] := by
  have size : ∀ n, ∀ (path : List PathSegment) (patch : Fields), MarketPath path →
      sizeOf patch < n → flattenObject src path patch ≠ [] := by
    intro n
    induction n with
    | zero => intro path patch _ small; omega
    | succ n ih =>
      intro path patch mkt small
      unfold flattenObject
      rcases flattenFields_market src mkt patch with emit | ⟨-, none_, some_⟩
      · rw [emit]
        exact cons_ne_nil _ _
      · obtain ⟨⟨key, val⟩, rest, rfl⟩ := exists_cons_of_ne_nil some_
        have own : ownFields path ((key, val) :: rest) = [] := by
          have perm := nodeFields_perm mkt ((key, val) :: rest)
          rw [none_] at perm
          exact (append_eq_nil_iff.mp perm.symm.eq_nil).1
        cases val with
        | object child =>
          have inner := ih (path ++ [key]) child (mkt.concat key) (by
            simp only [List.cons.sizeOf_spec, Prod.mk.sizeOf_spec, object.sizeOf_spec] at small
            omega)
          rw [flattenChildren, flattenMember]
          intro nothing
          rw [append_eq_nil_iff, append_eq_nil_iff] at nothing
          exact inner nothing.2.1
        | null | bool | number | string | array => simp [ownFields, mkt.noLeaf, isObject] at own
  exact size (sizeOf patch + 1) path patch mkt (Nat.lt_succ_self _)

/-! ## Flattening and applying is merging -/

theorem ensureChildObject_entries (cur : Value) (key : String) :
    (ensureChildObject cur key).child.entries =
      ((get? key cur.entries).getD (.object [])).entries := by
  unfold ensureChildObject
  cases get? key cur.entries with
  | none => rfl
  | some child =>
    dsimp only
    split
    · rfl
    · cases child <;> first | rfl | simp_all

/-- Below its root, a cursor that is no object is written like the empty object. -/
theorem applyBelow_entries {depth : Nat} (some_ : mutations ≠ [])
    (less : ∀ m ∈ mutations, m.path.drop depth ≠ []) (cur : Value) :
    applyBelow depth cur mutations = applyBelow depth (.object cur.entries) mutations := by
  obtain ⟨m, rest, rfl⟩ := exists_cons_of_ne_nil some_
  obtain ⟨key, path, rel⟩ := exists_cons_of_ne_nil (less m mem_cons_self)
  have child : (ensureChildObject cur key).child =
      (ensureChildObject (.object cur.entries) key).child := by
    unfold ensureChildObject
    rw [entries_object]
    split
    · rfl
    · split <;> rfl
  unfold applyBelow
  rw [foldl_cons, foldl_cons, rel, applyMutationAtPath_cons,
    applyMutationAtPath_cons, child, entries_object]

/-- What the children of a patch do to the members of a node. -/
def ChildrenMerged (path : List PathSegment) (patch members members' : Fields) : Prop :=
  OrdMap.Sorted members' ∧ ∀ key, get? key members' =
    match get? key patch with
    | some (.object child) =>
      some (mergeObject (path ++ [key]) ((get? key members).getD (.object [])) child)
    | _ => get? key members

/-- The fields and then the children of a node add up to the merge of the patch. -/
theorem mergeObject_of_children (src : MutationSource) {path : List PathSegment}
    (mkt : MarketPath path) {patch : Fields} (patchWf : (object patch).Wf) {node : Value}
    (wf : node.Wf) (children : ∀ members, (object members).Wf → ∃ members',
      applyBelow path.length (.object members) (flattenChildren src path patch) =
        .object members' ∧ ChildrenMerged path patch members members') :
    applyBelow path.length node (flattenObject src path patch) = mergeObject path node patch := by
  obtain ⟨sorted, vals⟩ := wf_object.mp patchWf
  have nodeSorted := (wf_object.mp (wf_entries wf)).1
  have fieldsWf := applyFieldsFrom_wf (inferObjectKeyFromSegments path) 0 (wf_entries wf)
    (nodeFields_wf path vals)
  obtain ⟨members', app, sorted', lookups⟩ := children _ fieldsWf
  have all : applyBelow path.length node (flattenObject src path patch) =
      .object members' := by
    rw [← app]
    unfold flattenObject
    rcases flattenFields_market src mkt patch with
      emitted | ⟨skipped, none_, some_⟩
    · rw [emitted, applyBelow_append]
      congr 1
      simp only [applyBelow, foldl_cons, foldl_nil, drop_length]
      rfl
    · rw [skipped, nil_append, none_]
      have ne : flattenChildren src path patch ≠ [] := by
        have object_ := flattenObject_ne_nil src mkt patch
        rw [flattenObject, skipped, nil_append] at object_
        exact object_
      apply applyBelow_entries ne
      intro m mem
      obtain ⟨-, key, rest, lt⟩ := flattenChildren_below src path patch vals m mem
      simp [lt]
  rw [all, mergeObject]
  congr 1
  apply sorted'.ext (sorted_mergeFields path (sorted_withRowId nodeSorted) patch)
  intro key
  rw [lookups key, get?_mergeFields path _ sorted, get?_nodeFields mkt sorted]
  cases get? key patch with
  | none => rfl
  | some val => cases val <;> rfl

mutual

theorem flattenChildren_merges (src : MutationSource) (path : List PathSegment)
    (mkt : MarketPath path) : ∀ patch : List (String × Value), (object patch).Wf →
      ∀ members, (object members).Wf → ∃ members',
        applyBelow path.length (.object members) (flattenChildren src path patch) =
          .object members' ∧ ChildrenMerged path patch members members'
  | [], _, members, wf => by
      rw [flattenChildren]
      exact ⟨members, rfl, (wf_object.mp wf).1, fun _ => rfl⟩
  | (key, value) :: rest, patchWf, members, wf => by
      obtain ⟨sorted, vals⟩ := wf_object.mp patchWf
      have valueWf := vals _ mem_cons_self
      have restWf : (object rest).Wf := wf_object.mpr
        ⟨sorted.tail, fun ent mem => vals ent (mem_cons_of_mem _ mem)⟩
      obtain ⟨mid, here, hereLookups⟩ :=
        flattenMember_merges src path mkt key value valueWf members wf
      have middleWf : (object mid).Wf := by
        rw [← here]
        exact applyBelow_wf wf fun m mem => (flattenMember_below src path key value valueWf m mem).1
      obtain ⟨members', post, sorted', lookups⟩ :=
        flattenChildren_merges src path mkt rest restWf mid middleWf
      refine ⟨members', ?_, sorted', ?_⟩
      · rw [flattenChildren, applyBelow_append, here, post]
      · intro alt
        rw [lookups alt, hereLookups alt, get?_cons]
        by_cases same : alt = key
        · subst same
          rw [sorted.get?_head_tail, if_pos rfl, if_pos rfl]
          cases value <;> rfl
        · rw [if_neg same, if_neg same]

theorem flattenMember_merges (src : MutationSource) (path : List PathSegment)
    (mkt : MarketPath path) (key : String) : ∀ val : Value, val.Wf →
      ∀ members, (object members).Wf → ∃ members',
        applyBelow path.length (.object members) (flattenMember src path key val) =
          .object members' ∧
        ∀ alt, get? alt members' =
          if alt = key then
            match val with
            | .object child =>
              some (mergeObject (path ++ [key]) ((get? key members).getD (.object [])) child)
            | _ => get? key members
          else get? alt members
  | .object child, childWf, members, wf => by
      have lt := fun m mem => (flattenMember_below src path key (.object child) childWf m mem).2
      have inner := mergeObject_of_children src (mkt.concat key) childWf
        (ensureChildObject_wf wf key).2
        (flattenChildren_merges src (path ++ [key]) (mkt.concat key) child childWf)
      rw [length_append, length_singleton] at inner
      refine ⟨_, applyBelow_child lt (flattenObject_ne_nil src (mkt.concat key) child)
        (.object members), ?_⟩
      intro alt
      change get? alt (OrdMap.insert key (applyBelow (path.length + 1)
        (ensureChildObject (.object members) key).child
          (flattenObject src (path ++ [key]) child)) members) = _
      rw [inner, get?_insert]
      unfold mergeObject
      rw [ensureChildObject_entries]
      rfl
  | .null, _, members, _ | .bool _, _, members, _ | .number _, _, members, _
  | .string _, _, members, _ | .array _, _, members, _ => by
      refine ⟨members, ?_, fun alt => ?_⟩
      · simp [flattenMember, mkt.noLeaf, applyBelow]
      · by_cases same : alt = key
        · simp [same]
        · simp [same]

end

/-- The mutations of a patch, applied below a node, merge the patch into the node. -/
theorem applyBelow_flattenObject (src : MutationSource) (mkt : MarketPath path)
    (patchWf : (object patch).Wf) (wf : node.Wf) :
    applyBelow path.length node (flattenObject src path patch) = mergeObject path node patch :=
  mergeObject_of_children src mkt patchWf wf (flattenChildren_merges src path mkt patch patchWf)

end Tqsdk
