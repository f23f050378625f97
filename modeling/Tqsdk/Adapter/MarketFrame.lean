import Tqsdk.Adapter.Agreement
import Tqsdk.Adapter.MergePatch

/-!
# A market packet is merged into the state tree

The items of a market packet use the market roots only.  Every key of an item acts on its
own slot of the store, a partition or a member of the fallback partition, and there it
merges; the tree a snapshot shows after the packet is the fold of the merges.
-/

namespace Tqsdk

open List Option

open Value

/-! ## Slots -/

theorem runTurns_regular {ps : Partitions} (regl : ps.Regular) {muts : List NormalizedMutation}
    (wf : ∀ m ∈ muts, m.Wf) (rooted : ∀ m ∈ muts, m.path ≠ []) :
    (runTurns ps muts).Regular := by
  rw [← applyLoop_partitions 0]
  exact applyLoop_regular regl 0 wf rooted

/-- Where the store keeps what a snapshot shows under a key. -/
def slot (partitions : Partitions) (key : String) : Option Value :=
  match StateRoot.fromSegment key with
  | some root => some (partitions root)
  | none => (partitions .other).get key

theorem get_materialized {ps : Partitions} (regl : ps.Regular)
    (key : String) : ps.materialized.get key = (slot ps key).bind shown := by
  have shownAt : ps.materialized.get key =
      (((ps .other).get key).bind shown).or
        ((StateRoot.fromSegment key).bind fun root => shown (ps root)) := by
    simpa [getAtPath_cons] using materialized_getAtPath regl.fallbackSorted key []
  rw [shownAt]
  unfold slot
  cases res : StateRoot.fromSegment key with
  | none => simp
  | some root =>
    rw [regl.unshadowed key (by rw [res]; exact nofun)]
    rfl

/-- Mutations below one key leave the slots of the other keys alone. -/
theorem slot_runTurns_ne {key alt : String} (ne : alt ≠ key) {muts : List NormalizedMutation}
    (less : ∀ m ∈ muts, ∃ rest, m.path = key :: rest) (ps : Partitions) :
    slot (runTurns ps muts) alt = slot ps alt := by
  induction muts generalizing ps with
  | nil => rfl
  | cons m muts ih =>
    have post := ih (fun post mem => less post (mem_cons_of_mem _ mem)) (applyTurn ps 0 m).1
    obtain ⟨rest, all⟩ := less m mem_cons_self
    refine post.trans ?_
    rw [applyTurn_partitions]
    have frame := turnApplied_frame ps m
    unfold slot
    rcases split : partitionPath m with ⟨root, rel⟩
    rw [split] at frame
    by_cases fb : root = .other
    · subst fb
      obtain ⟨rfl, -⟩ := partitionPathSegments_other split
      cases res : StateRoot.fromSegment alt with
      | some hit =>
        have seen := (StateRoot.fromSegment_eq_some res).2
        simp only [Function.update_of_ne seen]
      | none =>
        have same := frame.apart [alt] (by
          rw [all]
          exact Apart.of_head_ne (Ne.symm ne) rest [])
        simpa [getAtPath_cons] using same
    · have nm := partitionPathSegments_known split fb
      rw [all, List.cons.injEq] at nm
      cases res : StateRoot.fromSegment alt with
      | some hit =>
        have ne' : hit ≠ root := by
          rintro rfl
          exact ne ((StateRoot.fromSegment_eq_some res).1.trans nm.1.symm)
        simp only [Function.update_of_ne ne']
      | none => simp only [Function.update_of_ne (Ne.symm fb)]

/-! ## Items of a market packet -/

def partitionRoots : List String := ["quotes", "trading_status", "charts", "klines", "ticks"]

/-- A member of an item: a root as an object or `null`, `symbols` as an object, or one of the
two scalars. -/
def marketMember (entry : String × Value) : Bool :=
  (partitionRoots.contains entry.1 && (entry.2.isObject || entry.2.isNull)) ||
    (entry.1 == "symbols" && entry.2.isObject) ||
    ((entry.1 == "ins_list" || entry.1 == "mdhis_more_data") && !entry.2.isObject)

/-- The root object has `value: null` as its only plain member, which asks for the removal of
the whole root. -/
def clearsRoot (entry : String × Value) : Bool :=
  partitionRoots.contains entry.1 &&
    (entry.2.entries.filter fun member => !member.2.isObject) == [("value", .null)]

theorem fromSegment_partitionRoot {key : String} (root : key ∈ partitionRoots) :
    ∃ hit, StateRoot.fromSegment key = some hit ∧ hit ≠ .other ∧ hit ≠ .trade ∧ hit ≠ .runtime := by
  simp only [partitionRoots, mem_cons, not_mem_nil, or_false] at root
  rcases root with rfl | rfl | rfl | rfl | rfl <;> exact ⟨_, rfl, by decide, by decide, by decide⟩

/-- Mutations of one partition, applied turn by turn, are applied below the partition's
root. -/
theorem runTurns_known {key : String} {root : StateRoot}
    (res : StateRoot.fromSegment key = some root) (notTrade : root ≠ .trade)
    (notRuntime : root ≠ .runtime) {muts : List NormalizedMutation}
    (less : ∀ m ∈ muts, ∃ rest, m.path = key :: rest ∧
      isPartitionRootDelete root rest m.fields = false) (ps : Partitions) :
    runTurns ps muts = Function.update ps root (applyBelow 1 (ps root) muts) := by
  have notOther := (StateRoot.fromSegment_eq_some res).2
  induction muts generalizing ps with
  | nil => exact (Function.update_eq_self _ _).symm
  | cons m muts ih =>
    obtain ⟨rest, all, hold⟩ := less m mem_cons_self
    have split : partitionPath m = (root, rest) := by
      simp [partitionPath, all, partitionPathSegments, res]
    have direct : isDirectScalarPath root rest = false := by
      cases root <;> first | rfl | exact absurd rfl notOther | exact absurd rfl notTrade
    have prune : (root == .runtime) = false := by simpa using notRuntime
    have turn : (turnApplied ps m).node =
        (applyMutationAtPath m.object m.fields false (ps root) (m.path.drop 1)).node := by
      unfold turnApplied applyAtPartition
      rw [split]
      simp only [hold, direct, prune, all, Bool.false_eq_true, if_false, drop_one, tail_cons]
    have post := ih (fun post mem => less post (mem_cons_of_mem _ mem)) (applyTurn ps 0 m).1
    change runTurns (applyTurn ps 0 m).1 muts = _
    rw [post, applyTurn_partitions, split]
    simp only [Function.update_self, Function.update_idem, turn]
    rfl

theorem runTurns_symbols {muts : List NormalizedMutation}
    (less : ∀ m ∈ muts, ∃ rest, m.path = "symbols" :: rest)
    (ps : Partitions) :
    runTurns ps muts = Function.update ps .other (applyBelow 0 (ps .other) muts) := by
  induction muts generalizing ps with
  | nil => exact (Function.update_eq_self _ _).symm
  | cons m muts ih =>
    obtain ⟨rest, all⟩ := less m mem_cons_self
    have split : partitionPath m = (.other, "symbols" :: rest) := by
      rw [partitionPath, all]
      rfl
    have direct : isDirectScalarPath .other ("symbols" :: rest) = false := by
      cases rest <;> rfl
    have turn : (turnApplied ps m).node =
        (applyMutationAtPath m.object m.fields false (ps .other) (m.path.drop 0)).node := by
      unfold turnApplied applyAtPartition
      rw [split]
      simp only [direct, all, Bool.false_eq_true, if_false, drop_zero]
      rfl
    have post := ih (fun post mem => less post (mem_cons_of_mem _ mem)) (applyTurn ps 0 m).1
    change runTurns (applyTurn ps 0 m).1 muts = _
    rw [post, applyTurn_partitions, split]
    simp only [Function.update_self, Function.update_idem, turn]
    rfl

theorem nodeFields_root {key : String} (mkt : MarketPath [key]) {pat : Fields}
    (cleared : nodeFields [key] pat = [⟨"value", .null⟩]) :
    (pat.filter fun mem => !mem.2.isObject) = [("value", .null)] := by
  have perm := nodeFields_perm mkt pat
  have noId : rowIdField [key] pat = [] := by simp [rowIdField, marketDataRowId]
  rw [cleared, noId, append_nil, singleton_perm] at perm
  simp only [ownFields, mkt.noLeaf, Bool.not_false, Bool.and_true] at perm
  obtain ⟨ent, only, same⟩ := map_eq_singleton_iff.mp perm.symm
  rw [only]
  obtain ⟨name, val⟩ := ent
  cases same
  rfl

/-- Below a root, no mutation of the item asks for the root's removal. -/
theorem flattenMember_keepsRoot {key : String} (mkt : MarketPath [key]) {child : Fields}
    (wf : (object child).Wf) (root : StateRoot)
    (spares : (child.filter fun mem => !mem.2.isObject) ≠ [("value", .null)]) :
    ∀ m ∈ flattenMember .marketDiff [] key (.object child), ∃ rest,
      m.path = key :: rest ∧ isPartitionRootDelete root rest m.fields = false := by
  intro m mem
  rw [flattenMember, nil_append, mem_append] at mem
  rcases mem with here | later
  · refine ⟨[], by rw [mem_flattenFields mkt.ne_nil here], ?_⟩
    rw [mem_flattenFields mkt.ne_nil here]
    by_contra deletes
    rw [Bool.not_eq_false] at deletes
    apply spares
    apply nodeFields_root mkt
    unfold isPartitionRootDelete at deletes
    rw [Bool.and_eq_true] at deletes
    obtain ⟨-, asks⟩ := deletes
    split at asks
    · rename_i fld only
      obtain ⟨name, val⟩ := fld
      rw [Bool.and_eq_true, beq_iff_eq, isNull_iff] at asks
      obtain ⟨rfl, rfl⟩ := asks
      exact only
    · cases asks
  · obtain ⟨-, key', rest, lt⟩ := flattenChildren_below .marketDiff [key] child
      (wf_object.mp wf).2 m later
    exact ⟨key' :: rest, lt, by simp [isPartitionRootDelete]⟩

/-- What the mutations of a member make of its slot.  A root that is `null` has its mutation
among the fields of the item. -/
def slotAfter (key : String) (old : Option Value) (value : Value) : Option Value :=
  if partitionRoots.contains key && value.isNull then old else memberAfter [] key old value

theorem marketPath_root {key : String} (notTrade : key ≠ "trade") (notSystem : key ≠ "system") :
    MarketPath [key] :=
  ⟨key, [], rfl, notTrade, notSystem⟩

theorem slot_root {key : String} (root : key ∈ partitionRoots) {child : Fields}
    (wf : (object child).Wf)
    (spares : (child.filter fun mem => !mem.2.isObject) ≠ [("value", .null)])
    {ps : Partitions} (regl : ps.Regular) :
    slot (runTurns ps (flattenMember .marketDiff [] key (.object child))) key =
      memberAfter [] key (slot ps key) (.object child) := by
  obtain ⟨hit, res, -, notTrade, notRuntime⟩ := fromSegment_partitionRoot root
  have mkt : MarketPath [key] := by
    apply marketPath_root <;> rintro rfl <;> exact absurd root (by decide)
  have hold := flattenMember_keepsRoot mkt wf hit spares
  rw [runTurns_known res notTrade notRuntime hold]
  simp only [slot, res, Function.update_self]
  have merged := applyBelow_flattenObject .marketDiff mkt wf (regl.wf hit)
  exact congrArg some merged

theorem slot_symbols {child : Fields} (wf : (object child).Wf) {ps : Partitions}
    (regl : ps.Regular) :
    slot (runTurns ps (flattenMember .marketDiff [] "symbols" (.object child)))
        "symbols" =
      memberAfter [] "symbols" (slot ps "symbols") (.object child) := by
  have mkt : MarketPath ["symbols"] := marketPath_root (by decide) (by decide)
  have lt : ∀ m ∈ flattenMember .marketDiff [] "symbols" (.object child),
      ∃ rest, m.path = [] ++ "symbols" :: rest := fun m mem =>
    (flattenMember_below .marketDiff [] "symbols" (.object child) wf m mem).2
  have merged := applyBelow_flattenObject .marketDiff mkt wf
    (ensureChildObject_wf (regl.wf .other) "symbols").2
  rw [runTurns_symbols lt]
  have put := applyBelow_child lt (flattenObject_ne_nil .marketDiff mkt child) (ps .other)
  rw [length_nil] at put
  have res : StateRoot.fromSegment "symbols" = none := rfl
  simp only [slot, res, Function.update_self]
  rw [put, get_object, OrdMap.get?_insert_self]
  change some (applyBelow (["symbols"] : List String).length _
    (flattenObject .marketDiff ["symbols"] child)) = _
  rw [merged]
  unfold memberAfter mergeObject
  rw [ensureChildObject_entries, get_eq_entries]
  rfl

theorem slot_scalar {key : String} (leaf : emitsScalarLeaf [] key = true) {val : Value}
    (scalar : val.isObject = false) (ps : Partitions) (regl : ps.Regular) :
    slot (runTurns ps (flattenMember .marketDiff [] key val)) key =
      memberAfter [] key (slot ps key) val := by
  have res : StateRoot.fromSegment key = none := by
    simp only [emitsScalarLeaf, Bool.or_eq_true, beq_iff_eq] at leaf
    rcases leaf with rfl | rfl <;> rfl
  have emit : flattenMember .marketDiff [] key val =
      [⟨[key], none, [⟨"value", val⟩], .marketDiff⟩] := by
    cases val with
    | object child => cases scalar
    | null | bool | number | string | array => simp only [flattenMember, leaf, if_true]; rfl
  obtain ⟨mems, all⟩ := isObject_iff.mp (regl.objects .other)
  have direct : isDirectScalarPath .other [key] = true := by
    simpa [emitsScalarLeaf, isDirectScalarPath] using leaf
  rw [emit]
  simp only [runTurns, foldl_cons, foldl_nil, applyTurn_partitions, turnApplied, partitionPath,
    partitionPathSegments, res, slot, Function.update_self, applyAtPartition, direct, if_true]
  have hold : isPartitionRootDelete .other [key] [⟨"value", val⟩] = false := rfl
  rw [hold, all]
  simp only [Bool.false_eq_true, if_false, applyDirectScalar, getLast?_singleton,
    dropLast_singleton, bne_self_eq_false]
  cases null : val.isNull with
  | true =>
    rw [isNull_iff] at null
    subst null
    cases got : OrdMap.get? key mems with
    | none => simp [removeScalar, got, memberAfter]
    | some old => simp [removeScalar, got, memberAfter]
  | false =>
    have post : memberAfter [] key (OrdMap.get? key mems) val = some val := by
      cases val with
      | object child => cases scalar
      | null => cases null
      | bool | number | string | array => rfl
    simp only [Bool.false_eq_true, if_false, get_object, post, writeScalar, entries_object]
    by_cases same : OrdMap.get? key mems = some val
    · simp [same]
    · simp [same]

theorem slot_member {key : String} {val : Value} (mem : marketMember (key, val) = true)
    (spares : clearsRoot (key, val) = false) (wf : val.Wf) {ps : Partitions} (regl : ps.Regular) :
    slot (runTurns ps (flattenMember .marketDiff [] key val)) key =
      slotAfter key (slot ps key) val := by
  simp only [marketMember, Bool.or_eq_true, Bool.and_eq_true, contains_iff_mem,
    beq_iff_eq, Bool.not_eq_true'] at mem
  rcases mem with (⟨root, isObject | isNull⟩ | ⟨rfl, isObject⟩) | ⟨leaf, scalar⟩
  · obtain ⟨child, rfl⟩ := isObject_iff.mp isObject
    have hold : (child.filter fun mem => !mem.2.isObject) ≠ [("value", .null)] := by
      simpa [clearsRoot, root] using spares
    rw [slot_root root wf hold regl]
    simp [slotAfter, isNull]
  · rw [isNull_iff] at isNull
    subst isNull
    have noLeaf : emitsScalarLeaf [] key = false := by
      simp only [partitionRoots, mem_cons, not_mem_nil, or_false] at root
      rcases root with rfl | rfl | rfl | rfl | rfl <;> rfl
    simp [flattenMember, noLeaf, runTurns, slotAfter, root, isNull]
  · obtain ⟨child, rfl⟩ := isObject_iff.mp isObject
    rw [slot_symbols wf regl]
    rfl
  · have emits : emitsScalarLeaf [] key = true := by simpa [emitsScalarLeaf] using leaf
    have notRoot : partitionRoots.contains key = false := by rcases leaf with rfl | rfl <;> decide
    rw [slot_scalar emits scalar ps regl, slotAfter, notRoot]
    rfl

/-- The members of an item, each within what the packet may use. -/
structure MarketItem (fields : Fields) : Prop where
  sorted : OrdMap.Sorted fields
  wf : ∀ entry ∈ fields, entry.2.Wf
  market : ∀ entry ∈ fields, marketMember entry = true
  spares : ∀ entry ∈ fields, clearsRoot entry = false

theorem MarketItem.tail {ent : String × Value} {flds : Fields}
    (item : MarketItem (ent :: flds)) : MarketItem flds where
  sorted := item.sorted.tail
  wf := fun post mem => item.wf post (mem_cons_of_mem _ mem)
  market := fun post mem => item.market post (mem_cons_of_mem _ mem)
  spares := fun post mem => item.spares post (mem_cons_of_mem _ mem)

theorem slot_children {flds : Fields} (item : MarketItem flds) {ps : Partitions}
    (regl : ps.Regular) (key : String) :
    slot (runTurns ps (flattenChildren .marketDiff [] flds)) key =
      match OrdMap.get? key flds with
      | none => slot ps key
      | some val => slotAfter key (slot ps key) val := by
  induction flds generalizing ps with
  | nil => rw [flattenChildren]; rfl
  | cons ent flds ih =>
    obtain ⟨fld, val⟩ := ent
    have wf := item.wf _ mem_cons_self
    have emit := flattenMember_below .marketDiff [] fld val wf
    have next : (runTurns ps (flattenMember .marketDiff [] fld val)).Regular := by
      apply runTurns_regular regl
      · exact fun m mem => (emit m mem).1
      · intro m mem
        obtain ⟨-, rest, lt⟩ := emit m mem
        simp [lt]
    have lt : ∀ m ∈ flattenMember .marketDiff [] fld val,
        ∃ rest, m.path = fld :: rest := fun m mem =>
      (emit m mem).2
    rw [flattenChildren, runTurns_append, ih item.tail next, OrdMap.get?_cons]
    by_cases same : key = fld
    · subst same
      rw [item.sorted.get?_head_tail, if_pos rfl]
      exact slot_member (item.market _ mem_cons_self) (item.spares _ mem_cons_self) wf regl
    · rw [if_neg same, slot_runTurns_ne same lt]

/-! ## Roots that an item removes -/

def rootDelete (root : String) : NormalizedMutation :=
  ⟨[root], none, [⟨"value", .null⟩], .marketDiff⟩

theorem applyTurn_rootDelete {key : String} {root : StateRoot}
    (res : StateRoot.fromSegment key = some root) (ps : Partitions) :
    (applyTurn ps 0 (rootDelete key)).1 = Function.update ps root (.object []) := by
  have split : partitionPath (rootDelete key) = (root, []) := by
    simp [partitionPath, rootDelete, partitionPathSegments, res]
  have dels : isPartitionRootDelete root [] (rootDelete key).fields = true := by
    have seen := (StateRoot.fromSegment_eq_some res).2
    simpa [isPartitionRootDelete, rootDelete, isNull] using seen
  rw [applyTurn_partitions, split]
  unfold turnApplied applyAtPartition
  rw [split, if_pos dels, applyPartitionRootDelete]
  congr 1
  split
  · rename_i emp
    exact isEmptyPartition_iff.mp emp
  · rfl

theorem slot_rootDeletes {roots : List String} (seen : ∀ root ∈ roots, root ∈ partitionRoots)
    (ps : Partitions) (key : String) :
    slot (runTurns ps (roots.map rootDelete)) key =
      if key ∈ roots then some (.object []) else slot ps key := by
  induction roots generalizing ps with
  | nil => rfl
  | cons root roots ih =>
    obtain ⟨hit, res, -⟩ := fromSegment_partitionRoot (seen root mem_cons_self)
    have post := ih (fun post mem => seen post (mem_cons_of_mem _ mem))
      (applyTurn ps 0 (rootDelete root)).1
    refine post.trans ?_
    by_cases again : key ∈ roots
    · rw [if_pos again, if_pos (mem_cons_of_mem _ again)]
    · rw [if_neg again]
      by_cases here : key = root
      · subst here
        rw [if_pos mem_cons_self, applyTurn_rootDelete res]
        simp [slot, res]
      · rw [if_neg (by simp [here, again])]
        have one : ∀ m ∈ [rootDelete root], ∃ rest, m.path = root :: rest := by simp [rootDelete]
        exact slot_runTurns_ne here one ps

theorem flattenFields_item {flds : Fields} (item : MarketItem flds) :
    ∃ roots : List String, flattenFields .marketDiff [] flds.isEmpty (ownFields [] flds) =
        roots.map rootDelete ∧
      ∀ key, key ∈ roots ↔ key ∈ partitionRoots ∧ OrdMap.get? key flds = some .null := by
  have noRowId (own : List FieldMutation) : injectMarketDataRowId [] own = own := by
    simp [injectMarketDataRowId, marketDataRowId]
  refine ⟨((sortFieldMutations (ownFields [] flds)).filter fun fld =>
    emitsRootDelete fld.field fld.value .marketDiff).map (·.field), ?_, ?_⟩
  · rw [List.map_map]
    simp only [flattenFields, noRowId]
    rfl
  · intro key
    simp only [List.mem_map, mem_filter, (sortFieldMutations_perm _).mem_iff]
    constructor
    · rintro ⟨fld, ⟨own, dels⟩, rfl⟩
      obtain ⟨ent, got, rfl⟩ := mem_map.mp own
      simp only [emitsRootDelete, Bool.and_eq_true, isNull_iff, contains_iff_mem] at dels
      refine ⟨dels.2, ?_⟩
      rw [← dels.1]
      exact item.sorted.get?_of_mem (mem_of_mem_filter got)
    · rintro ⟨root, got⟩
      have noLeaf : emitsScalarLeaf [] key = false := by
        simp only [partitionRoots, mem_cons, not_mem_nil, or_false] at root
        rcases root with rfl | rfl | rfl | rfl | rfl <;> rfl
      refine ⟨⟨key, .null⟩, ⟨?_, by simpa [emitsRootDelete, isNull, partitionRoots] using root⟩,
        rfl⟩
      refine mem_map.mpr ⟨(key, .null), ?_, rfl⟩
      rw [mem_filter]
      exact ⟨OrdMap.mem_of_get? got, by simp [isObject, noLeaf]⟩

theorem rootDelete_wf (root : String) : (rootDelete root).Wf := by
  intro fld mem
  rw [mem_singleton.mp mem]
  exact trivial

/-- The mutations of an item. -/
def itemMutations (fields : Fields) : List NormalizedMutation :=
  flattenObject .marketDiff [] fields

theorem itemMutations_below {flds : Fields} (item : MarketItem flds) :
    ∀ m ∈ itemMutations flds, m.Wf ∧ m.source = .marketDiff ∧
      ∃ ent ∈ flds, ∃ rest, m.path = ent.1 :: rest := by
  intro m mem
  rcases mem_append.mp mem with removes | writes
  · obtain ⟨roots, rem, mem_roots⟩ := flattenFields_item item
    rw [rem] at removes
    obtain ⟨root, here, rfl⟩ := mem_map.mp removes
    have got := OrdMap.mem_of_get? ((mem_roots root).mp here).2
    exact ⟨rootDelete_wf root, rfl, _, got, [], rfl⟩
  · obtain ⟨ent, got, emit⟩ := mem_flattenChildren writes
    obtain ⟨wf, lt⟩ := flattenMember_below .marketDiff [] ent.1 ent.2 (item.wf ent got) m emit
    exact ⟨wf, flattenMember_source .marketDiff [] ent.1 ent.2 m emit, ent, got, lt⟩

/-- An item merges each of its members into the member's slot. -/
theorem slot_item {flds : Fields} (item : MarketItem flds) {ps : Partitions}
    (regl : ps.Regular) (key : String) :
    (slot (runTurns ps (itemMutations flds)) key).bind shown =
      (match OrdMap.get? key flds with
        | none => slot ps key
        | some val => memberAfter [] key (slot ps key) val).bind shown := by
  obtain ⟨roots, rem, mem_roots⟩ := flattenFields_item item
  have seen : ∀ root ∈ roots, root ∈ partitionRoots := fun root mem => ((mem_roots root).mp mem).1
  have cleared : (runTurns ps (roots.map rootDelete)).Regular := by
    apply runTurns_regular regl
    · intro m mem
      obtain ⟨root, -, rfl⟩ := mem_map.mp mem
      exact rootDelete_wf root
    · intro m mem
      obtain ⟨root, -, rfl⟩ := mem_map.mp mem
      exact cons_ne_nil _ _
  unfold itemMutations flattenObject
  rw [rem, runTurns_append, slot_children item cleared, slot_rootDeletes seen]
  cases got : OrdMap.get? key flds with
  | none =>
    have kept : key ∉ roots := by
      intro mem
      rw [((mem_roots key).mp mem).2] at got
      cases got
    rw [if_neg kept]
  | some val =>
    by_cases gone : key ∈ roots
    · obtain ⟨root, null⟩ := (mem_roots key).mp gone
      rw [got] at null
      cases null
      rw [if_pos gone]
      simp only [slotAfter, contains_iff_mem.mpr root, isNull, Bool.and_self, if_true, memberAfter]
      rfl
    · have stays : (partitionRoots.contains key && val.isNull) = false := by
        by_contra gone'
        rw [Bool.not_eq_false, Bool.and_eq_true, contains_iff_mem, isNull_iff] at gone'
        exact gone ((mem_roots key).mpr ⟨gone'.1, by rw [got, gone'.2]⟩)
      dsimp only
      rw [if_neg gone, slotAfter, stays]
      rfl

/-! ## The tree -/

/-- One item merged into the tree. -/
def mergeItem (tree : Fields) (item : Value) : Fields := mergeFields [] tree item.entries

/-- The tree without the roots that are empty objects, which count as absent. -/
def withoutEmptyRoots (tree : Fields) : Value :=
  .object (tree.filter fun entry => !isEmptyPartition entry.2)

/-- The tree holds what the slots of the store show. -/
structure TracksSlots (partitions : Partitions) (tree : Fields) : Prop where
  sorted : OrdMap.Sorted tree
  same : ∀ key, (slot partitions key).bind shown = (OrdMap.get? key tree).bind shown

theorem entries_of_shown {old old' : Option Value} (same : old.bind shown = old'.bind shown) :
    (old.getD (.object [])).entries = (old'.getD (.object [])).entries := by
  have read : ∀ val : Option Value,
      (val.getD (.object [])).entries = ((val.bind shown).getD (.object [])).entries := by
    intro val
    cases val with
    | none => rfl
    | some val =>
      rw [bind_some, getD_some, shown]
      split
      · rename_i emp
        rw [isEmptyPartition_iff.mp emp]
        rfl
      · rfl
  rw [read old, read old', same]

/-- A member of a patch cannot tell an empty slot from an absent one. -/
theorem memberAfter_of_shown {old old' : Option Value} (same : old.bind shown = old'.bind shown)
    (key : String) (val : Value) : memberAfter [] key old val = memberAfter [] key old' val := by
  cases val with
  | object pat => simp only [memberAfter, mergeObject, entries_of_shown same]
  | null | bool | number | string | array => rfl

theorem TracksSlots.item {ps : Partitions} {tree : Fields} (trk : TracksSlots ps tree)
    (regl : ps.Regular) {flds : Fields} (item : MarketItem flds) :
    TracksSlots (runTurns ps (itemMutations flds)) (mergeItem tree (.object flds)) where
  sorted := sorted_mergeFields [] trk.sorted flds
  same := by
    intro key
    rw [slot_item item regl, mergeItem, entries_object, get?_mergeFields [] tree item.sorted]
    cases OrdMap.get? key flds with
    | none => exact trk.same key
    | some val =>
      dsimp only
      rw [memberAfter_of_shown (trk.same key)]

theorem sorted_insertSnapshotRoot {data : Fields} (srt : OrdMap.Sorted data) (key : String)
    (val : Value) : OrdMap.Sorted (insertSnapshotRoot data key val) := by
  unfold insertSnapshotRoot
  split
  · exact srt
  · exact srt.insert _ _

theorem sorted_materialized (ps : Partitions) :
    OrdMap.Sorted ps.materialized.entries := by
  have run : ∀ {α : Type} (key : α → String) (val : α → Value) (ents : List α)
      (data : Fields), OrdMap.Sorted data → OrdMap.Sorted (ents.foldl
        (fun data ent => insertSnapshotRoot data (key ent) (val ent)) data) := by
    intro α key val ents
    induction ents with
    | nil => exact fun data srt => srt
    | cons ent ents ih => exact fun data srt => ih _ (sorted_insertSnapshotRoot srt _ _)
  exact run Prod.fst Prod.snd _ _ (run StateRoot.asStr ps _ _ OrdMap.sorted_nil)

theorem TracksSlots.materialized {ps : Partitions} (regl : ps.Regular) :
    TracksSlots ps ps.materialized.entries where
  sorted := sorted_materialized ps
  same := by
    intro key
    have shownTwice (val : Option Value) : (val.bind shown).bind shown = val.bind shown := by
      cases val with
      | none => rfl
      | some val =>
        rw [bind_some]
        cases emp : isEmptyPartition val <;> simp [shown, emp]
    rw [← get_eq_entries, get_materialized regl, shownTwice]

/-- What the slots show is the tree without its empty roots. -/
theorem TracksSlots.shows {ps : Partitions} {tree : Fields}
    (trk : TracksSlots ps tree) (regl : ps.Regular) :
    ps.materialized = withoutEmptyRoots tree := by
  have all : ps.materialized = .object ps.materialized.entries := rfl
  rw [all, withoutEmptyRoots]
  congr 1
  apply (sorted_materialized ps).ext (trk.sorted.filter _)
  intro key
  rw [← get_eq_entries, get_materialized regl, trk.same key,
    trk.sorted.get?_filter fun val => !isEmptyPartition val]
  cases OrdMap.get? key tree with
  | none => rfl
  | some val =>
    rw [bind_some, shown]
    cases emp : isEmptyPartition val <;> simp [Option.filter, emp]

/-! ## Packets -/

/-- The item uses the market roots only. -/
def usesMarketRoots : Value → Bool
  | .object fields => fields.all marketMember
  | _ => false

/-- Some root of the item has `value: null` as its only plain member. -/
def clearsSomeRoot (item : Value) : Bool := item.entries.any clearsRoot

/-- The item has a member other than `symbols`, which alone is left to the query adapter. -/
def carriesMarketRoot (item : Value) : Bool := item.entries.any fun entry => entry.1 != "symbols"

theorem MarketItem.of_uses {item : Value} (wf : item.Wf) (uses : usesMarketRoots item = true)
    (spares : clearsSomeRoot item = false) :
    ∃ flds, item = .object flds ∧ MarketItem flds := by
  cases item with
  | object flds =>
    obtain ⟨srt, vals⟩ := wf_object.mp wf
    refine ⟨flds, rfl, srt, vals, all_eq_true.mp uses, ?_⟩
    simpa [clearsSomeRoot] using spares
  | null | bool | number | string | array => cases uses

/-- The keys of an item that uses the market roots only. -/
theorem marketMember_key {ent : String × Value} (mem : marketMember ent = true) :
    ent.1 ∈ "symbols" :: marketRoots := by
  simp only [marketMember, Bool.or_eq_true, Bool.and_eq_true, contains_iff_mem, beq_iff_eq] at mem
  rcases mem with (⟨root, -⟩ | ⟨same, -⟩) | ⟨same, -⟩
  · simp only [partitionRoots, mem_cons, not_mem_nil, or_false] at root
    rcases root with same | same | same | same | same <;> rw [same] <;> decide
  · rw [same]
    decide
  · rcases same with same | same <;> rw [same] <;> decide

theorem get_of_uses {item : Value} (uses : usesMarketRoots item = true) {key : String}
    (foreign : key ∉ "symbols" :: marketRoots) : item.get key = none := by
  cases item with
  | object flds =>
    cases got : OrdMap.get? key flds with
    | none => exact got
    | some val =>
      have mem := all_eq_true.mp uses _ (OrdMap.mem_of_get? got)
      exact absurd (marketMember_key mem) foreign
  | null | bool | number | string | array => cases uses

theorem valueContains_item {item : Value} (uses : usesMarketRoots item = true)
    (here : Value → Bool) (miss : Bool) : valueContains here miss item = here item := by
  cases item with
  | object flds =>
    have aid : DiffInboundAid.ofValue (.object flds) ≠ .rtnData := by
      rw [DiffInboundAid.ofValue, get_of_uses uses (by decide)]
      exact nofun
    rw [valueContains, if_neg aid]
  | null | bool | number | string | array => cases uses

theorem anyContains_eq (here : Value → Bool) (miss : Bool) (items : List Value) :
    anyContains here miss items = items.any (valueContains here miss) := by
  induction items with
  | nil => rw [anyContains]; rfl
  | cons item items ih => rw [anyContains, ih]; rfl

theorem dataContains_eq (here : Value → Bool) (miss : Bool) {flds : Fields}
    {items : List Value} (data : OrdMap.get? "data" flds = some (.array items)) :
    dataContains here miss flds = items.any (valueContains here miss) := by
  induction flds with
  | nil => cases data
  | cons ent flds ih =>
    obtain ⟨key, val⟩ := ent
    rw [OrdMap.get?_cons] at data
    rw [dataContains]
    by_cases same : key = "data"
    · subst same
      rw [if_pos rfl] at data
      cases data
      rw [if_pos rfl, itemsContain, anyContains_eq]
    · rw [if_neg (Ne.symm same)] at data
      rw [if_neg same, ih data]

theorem any_congr {items : List Value} {p q : Value → Bool} (same : ∀ item ∈ items, p item = q item) :
    items.any p = items.any q := by
  rw [Bool.eq_iff_iff, List.any_eq_true, List.any_eq_true]
  exact exists_congr fun item => and_congr_right fun mem => by rw [same item mem]

theorem carriesMarketRoot_eq {item : Value} (uses : usesMarketRoots item = true) :
    (marketRoots.any fun root => (item.get root).isSome) = carriesMarketRoot item := by
  cases item with
  | object flds =>
    rw [Bool.eq_iff_iff, carriesMarketRoot, List.any_eq_true, List.any_eq_true]
    constructor
    · rintro ⟨root, known, got⟩
      obtain ⟨val, hit⟩ := isSome_iff_exists.mp got
      refine ⟨(root, val), OrdMap.mem_of_get? hit, ?_⟩
      have ne : root ≠ "symbols" := by
        rintro rfl
        exact absurd known (by decide)
      simpa using ne
    · rintro ⟨ent, mem, ne⟩
      have key := marketMember_key (all_eq_true.mp uses ent mem)
      rcases mem_cons.mp key with same | known
      · simp [same] at ne
      · refine ⟨ent.1, known, ?_⟩
        by_contra absent
        rw [Bool.not_eq_true, isSome_eq_false_iff, isNone_iff_eq_none] at absent
        exact OrdMap.get?_ne_none_of_mem mem absent
  | null | bool | number | string | array => cases uses

/-- A packet of items that use the market roots only. -/
structure MarketPacket (frame : Document) (items : List Value) : Prop where
  aid : DiffInboundAid.ofValue frame.value = .rtnData
  data : (frame.value.get "data").bind asArray = some items
  uses : ∀ item ∈ items, usesMarketRoots item = true
  spares : ∀ item ∈ items, clearsSomeRoot item = false

namespace MarketPacket

variable {frame : Document} {items : List Value} (packet : MarketPacket frame items)

include packet

theorem fields : ∃ flds, frame.value = .object flds ∧
    OrdMap.get? "data" flds = some (.array items) := by
  have data := packet.data
  cases all : frame.value with
  | object flds =>
    rw [all, get_object] at data
    obtain ⟨val, got, items_⟩ := bind_eq_some_iff.mp data
    refine ⟨flds, rfl, ?_⟩
    rw [got]
    cases val <;> cases items_
    rfl
  | null | bool | number | string | array => rw [all] at data; cases data

theorem contains (here : Value → Bool) (miss : Bool) :
    valueContains here miss frame.value = items.any here := by
  obtain ⟨flds, all, data⟩ := packet.fields
  have aid := packet.aid
  rw [all] at aid ⊢
  rw [valueContains, if_pos aid, dataContains_eq here miss data]
  apply any_congr
  intro item mem
  exact valueContains_item (packet.uses item mem) here miss

theorem item {item : Value} (mem : item ∈ items) :
    ∃ flds, item = .object flds ∧ MarketItem flds := by
  obtain ⟨flds, all, data⟩ := packet.fields
  have wf := frame.wf
  rw [all] at wf
  exact MarketItem.of_uses (wf_array.mp (wf.get? data) item mem) (packet.uses item mem)
    (packet.spares item mem)

/-- Only the market adapter accepts the packet, if it carries a market root at all. -/
theorem accepted (route : String) :
    (AdapterRegistry.defaultAdapters.filter fun adp =>
        adp.acceptsInput (.io ⟨route, [.market], .json frame.value⟩)) =
      if items.any carriesMarketRoot then [.market] else [] := by
  have mkt : valueContainsMarketPayload frame.value = items.any carriesMarketRoot := by
    unfold valueContainsMarketPayload
    rw [packet.contains]
    apply any_congr
    intro item mem
    exact carriesMarketRoot_eq (packet.uses item mem)
  have notify : valueContainsNotifyPayload frame.value = false := by
    unfold valueContainsNotifyPayload
    rw [packet.contains, List.any_eq_false]
    intro item mem
    rw [get_of_uses (packet.uses item mem) (by decide)]
    exact nofun
  simp only [AdapterRegistry.defaultAdapters, filter_cons, ProtocolAdapter.acceptsInput,
    isMarketIoEvent, isNotifyIoEvent, IoEvent.jsonContains, mkt, notify]
  cases items.any carriesMarketRoot <;> rfl

/-- The items one after the other: the slots follow the fold of the merges. -/
theorem tracks {ps : Partitions} (regl : ps.Regular) {tree : Fields} (trk : TracksSlots ps tree) :
    let mutations := items.flatMap fun item => decodeJsonValue item .marketDiff []
    (runTurns ps mutations).Regular ∧
      TracksSlots (runTurns ps mutations) (items.foldl mergeItem tree) := by
  have each : ∀ item ∈ items, ∃ flds, item = .object flds ∧ MarketItem flds :=
    fun _ mem => packet.item mem
  clear packet
  induction items generalizing ps tree with
  | nil => exact ⟨regl, trk⟩
  | cons item items ih =>
    obtain ⟨flds, rfl, shape⟩ := each item mem_cons_self
    have emit := itemMutations_below shape
    have next : (runTurns ps (itemMutations flds)).Regular := by
      apply runTurns_regular regl
      · exact fun m mem => (emit m mem).1
      · intro m mem
        obtain ⟨-, -, ent, -, rest, lt⟩ := emit m mem
        simp [lt]
    have post := ih next (trk.item regl shape) fun item mem => each item (mem_cons_of_mem _ mem)
    simp only [flatMap_cons, runTurns_append, foldl_cons]
    exact post

/-- Every mutation of the packet writes a root of the market. -/
theorem validated :
    validateMutationDomains (items.flatMap fun item => decodeJsonValue item .marketDiff []) =
      .ok () := by
  rw [validateMutationDomains_ok_iff]
  intro m mem
  obtain ⟨item, here, emit⟩ := mem_flatMap.mp mem
  obtain ⟨flds, rfl, shape⟩ := packet.item here
  obtain ⟨-, src, ent, got, rest, lt⟩ := itemMutations_below shape m emit
  refine ⟨ent.1, rest, lt, ?_⟩
  have key := marketMember_key (shape.market ent got)
  rw [src]
  simp only [marketRoots, mem_cons, not_mem_nil, or_false] at key
  rcases key with same | same | same | same | same | same | same | same <;> rw [same] <;> decide

theorem applied (sto : StateStore) (cause : List CommandId) (sc : CommitScope) :
    let mutations := items.flatMap fun item => decodeJsonValue item .marketDiff []
    RuntimeHandle.applyUnderCommitGate sto mutations [.market] cause sc =
      .ok (CommitEngine.apply sto mutations [.market] cause sc) := by
  unfold RuntimeHandle.applyUnderCommitGate RuntimeHandle.normalizeMutations
  simp only [domainsArePureMarket, beq_self_eq_true, if_true, bind, Except.bind, packet.validated]
  rfl

end MarketPacket

namespace RuntimeHandle

/-- The ingest of a market packet merges its items into the state tree, one after the other.
A packet that carries `symbols` only is not the market adapter's, and leaves the tree as it
was. -/
theorem ingest_market_packet {store : StateStore} (reachable : store.Reachable)
    {frame : Document} {items : List Value} (packet : MarketPacket frame items)
    (route : String) (causedBy : List CommandId) (scope : CommitScope) :
    ∃ after commit,
      ingest AdapterRegistry.defaultAdapters store
          (.io ⟨route, [.market], .json frame.value⟩) causedBy scope = .ok (after, commit) ∧
        after.partitions.materialized =
          if items.any carriesMarketRoot then
            withoutEmptyRoots (items.foldl mergeItem store.partitions.materialized.entries)
          else store.partitions.materialized := by
  unfold ingest ingestWith AdapterRegistry.decodeInputOwned
  rw [packet.accepted route]
  cases items.any carriesMarketRoot with
  | false => exact ⟨store, none, rfl, rfl⟩
  | true =>
    simp only [if_true]
    rw [ProtocolAdapter.decodeOwned_eq]
    have dec : ProtocolAdapter.decode .flattened .market
        (.io ⟨route, [.market], .json frame.value⟩) =
          .ok (items.flatMap fun item => decodeJsonValue item .marketDiff []) := by
      simp only [ProtocolAdapter.decode, decodeIoPayload, decodeJsonEnvelope, packet.aid,
        packet.data, if_true]
      rfl
    have agr := ProtocolAdapter.decode_agree .market
      (.io ⟨route, [.market], .json frame.value⟩)
    rw [dec] at agr
    rw [applyDecoded_agree reachable agr]
    have regular := reachable.regular
    obtain ⟨regular', trk⟩ := packet.tracks regular (.materialized regular)
    refine ⟨(CommitEngine.apply store _ [.market] causedBy scope).1,
      (CommitEngine.apply store _ [.market] causedBy scope).2,
      packet.applied store causedBy scope, ?_⟩
    rw [CommitEngine.apply_partitions, applyLoop_partitions]
    exact trk.shows regular'

/-! A packet with a kline row, whose id comes from its key, and a packet that carries
`symbols` only. -/

def klineItems : List Value :=
  [.object [("klines", .object [("X", .object [("60", .object [("data",
    .object [("7", .object [("close", .ofI64 3)])])])])])]]

def symbolItems : List Value :=
  [.object [("symbols", .object [("X", .object [("class", .string "FUTURE")])])]]

def packetOf (items : List Value) : Value :=
  .object [("aid", .string "rtn_data"), ("data", .array items)]

def klinePacket : Document where
  value := packetOf klineItems
  wf := by decide

theorem klinePacket_marketPacket : MarketPacket klinePacket klineItems where
  aid := by decide
  data := by decide
  uses := by decide
  spares := by decide

theorem ingest_klinePacket :
    ∃ after commit,
      ingest AdapterRegistry.defaultAdapters (.new 0)
          (.io ⟨"md", [.market], .json klinePacket.value⟩) [] .realtimeUpdate =
            .ok (after, commit) ∧
        after.partitions.materialized = .object [("klines", .object [("X", .object [("60",
          .object [("data", .object [("7",
            .object [("close", .ofI64 3), ("id", .ofI64 7)])])])])])] := by
  obtain ⟨after, commit, ing, merged⟩ := ingest_market_packet (StateStore.Reachable.new 0)
    klinePacket_marketPacket "md" [] .realtimeUpdate
  exact ⟨after, commit, ing, merged.trans (by decide)⟩

/-- The packet of `symbols` passes the ingest without a trace, although its merge has one. -/
theorem ingest_symbols_unmerged :
    (ingest AdapterRegistry.defaultAdapters (.new 0)
        (.io ⟨"md", [.market], .json (packetOf symbolItems)⟩) [] .realtimeUpdate).map
          (fun out => out.1.partitions.materialized) = .ok (.object []) ∧
      withoutEmptyRoots (symbolItems.foldl mergeItem
          (StateStore.new 0).partitions.materialized.entries) =
        .object [("symbols", .object [("X", .object [("class", .string "FUTURE")])])] := by
  decide

end RuntimeHandle

end Tqsdk
