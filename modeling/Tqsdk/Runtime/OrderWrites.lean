import Tqsdk.Adapter.TradeMutations

/-!
# Writes to an order

Lifecycles only move forward, and the lifecycle of an order is read off a few of its fields.
A mutation below `trade` writes an order, removes it from above, writes inside one of its
fields, or leaves it alone.
-/

namespace Tqsdk

open List Option OrdMap

open Value

/-! ## Lifecycles move forward -/

namespace OrderLifecycle

theorem fromStr_asStr (life : OrderLifecycle) : fromStr life.asStr = some life := by
  cases life <;> rfl

/-- How far an order has come; the terminal lifecycles are equally far. -/
def rank : OrderLifecycle → Nat
  | .unknown => 0
  | .submitting => 1
  | .sent => 2
  | .accepted => 3
  | .partiallyFilled => 4
  | .cancelling => 5
  | .filled | .rejected | .cancelled | .failed => 6

theorem canTransitionTo_iff {cur next : OrderLifecycle} :
    cur.canTransitionTo next = true ↔ cur = next ∨ cur.rank < next.rank := by
  cases cur <;> cases next <;> decide

theorem isTerminal_iff {life : OrderLifecycle} :
    life.isTerminal = true ↔ ∀ alt : OrderLifecycle, alt.rank ≤ life.rank := by
  constructor
  · intro term alt
    have bnd : alt.rank ≤ 6 := by cases alt <;> decide
    cases life <;> first | exact bnd | cases term
  · intro last
    have bnd := last .filled
    cases life <;> first | rfl | (exact absurd bnd (by decide))

theorem canTransitionTo_refl (life : OrderLifecycle) : life.canTransitionTo life = true :=
  canTransitionTo_iff.mpr (.inl rfl)

theorem canTransitionTo_trans {hd snd third : OrderLifecycle}
    (left : hd.canTransitionTo snd = true) (right : snd.canTransitionTo third = true) :
    hd.canTransitionTo third = true := by
  rw [canTransitionTo_iff] at left right ⊢
  rcases left with rfl | left
  · exact right
  · rcases right with rfl | right
    · exact .inr left
    · exact .inr (by omega)

theorem canTransitionTo_terminal {cur next : OrderLifecycle}
    (terminal : cur.isTerminal = true) (mvs : cur.canTransitionTo next = true) :
    next = cur := by
  rcases canTransitionTo_iff.mp mvs with same | further
  · exact same.symm
  · have last := isTerminal_iff.mp terminal next
    omega

/-- The fields a lifecycle is inferred from. -/
def inferenceFields : List String :=
  ["status", "is_dead", "is_error", "volume_orign", "volume_left", "last_msg"]

variable {order order' : Fields}

theorem inferFromOrderObject_congr
    (same : ∀ name ∈ inferenceFields, get? name order = get? name order') :
    inferFromOrderObject order = inferFromOrderObject order' := by
  unfold inferFromOrderObject
  rw [same "status" (by decide), same "is_dead" (by decide), same "is_error" (by decide),
    same "volume_orign" (by decide), same "volume_left" (by decide), same "last_msg" (by decide)]

/-- The fields and the lifecycle of both orders read the same. -/
def SameView (order order' : Fields) : Prop :=
  ∀ name, name = "lifecycle" ∨ name ∈ inferenceFields →
    get? name order = get? name order'

theorem SameView.refl (order : Fields) : SameView order order := fun _ _ => rfl

theorem SameView.trans {hd snd third : Fields} (left : SameView hd snd)
    (right : SameView snd third) : SameView hd third :=
  fun name seen => (left name seen).trans (right name seen)

theorem SameView.infer (same : SameView order order') :
    inferFromOrderObject order = inferFromOrderObject order' :=
  inferFromOrderObject_congr fun name mem => same name (.inr mem)

theorem SameView.stored (same : SameView order order') :
    stored order = stored order' := by
  unfold OrderLifecycle.stored
  rw [same "lifecycle" (.inl rfl)]

/-- An order whose fields determine a lifecycle stores that lifecycle. -/
def Matches (order : Fields) : Prop :=
  ∀ lifecycle, inferFromOrderObject order = some lifecycle →
    get? "lifecycle" order = some (.string lifecycle.asStr)

theorem matches_nil : Matches [] := nofun

theorem SameView.matches_ (same : SameView order order') (hit : Matches order) :
    Matches order' := by
  intro life inf
  rw [← same "lifecycle" (.inl rfl)]
  exact hit life (same.infer.trans inf)

/-- A stored lifecycle is still there and has only moved forward. -/
def Advances (order order' : Fields) : Prop :=
  ∀ current, stored order = some current →
    ∃ next, stored order' = some next ∧ current.canTransitionTo next = true

theorem SameView.advances (same : SameView order order') :
    Advances order order' := by
  intro cur got
  exact ⟨cur, same.stored ▸ got, canTransitionTo_refl cur⟩

theorem Advances.trans {hd snd third : Fields} (left : Advances hd snd)
    (right : Advances snd third) : Advances hd third := by
  intro cur stored
  obtain ⟨next, stored', moves⟩ := left cur stored
  obtain ⟨last, stored'', moves'⟩ := right next stored'
  exact ⟨last, stored'', canTransitionTo_trans moves moves'⟩

end OrderLifecycle

/-! ## Writing an order -/

section OrderFields

variable {flds : List FieldMutation}

theorem get?_foldl_applyOrderField (nd : (flds.map (·.field)).Nodup) (map : Fields) :
    (∀ fld ∈ flds,
        get? fld.field (flds.foldl applyOrderField map) = fieldAfter fld) ∧
      ∀ key, key ∉ flds.map (·.field) →
        get? key (flds.foldl applyOrderField map) = get? key map := by
  have w (map : Fields) (fld : FieldMutation) (key : String) :
      get? key (applyOrderField map fld) =
        if key = fld.field then fieldAfter fld else get? key map := by
    unfold applyOrderField fieldAfter
    split
    · rw [get?_erase]
    · rw [get?_insert]
  induction flds generalizing map with
  | nil => exact ⟨nofun, fun _ _ => rfl⟩
  | cons fld flds ih =>
    rw [map_cons, nodup_cons] at nd
    obtain ⟨new, nd⟩ := nd
    obtain ⟨post, kept⟩ := ih nd (applyOrderField map fld)
    rw [foldl_cons]
    constructor
    · intro put member
      rcases mem_cons.mp member with rfl | member
      · rw [kept _ new, w, if_pos rfl]
      · exact post put member
    · intro key gone
      rw [map_cons, mem_cons, not_or] at gone
      rw [kept key gone.2, w, if_neg gone.1]

/-- The store and the normalization write the same fields in the same way. -/
theorem get?_applyFieldsFrom_eq_foldl {obj : Option ObjectKey}
    (removes : ∀ fld, preservesNullField obj fld = false) (nd : (flds.map (·.field)).Nodup)
    {map map' : Fields} {key : String} (same : get? key map = get? key map') :
    get? key (applyFieldsFrom obj 0 map flds).1 = get? key (flds.foldl applyOrderField map') := by
  obtain ⟨written, kept⟩ := get?_applyFieldsFrom removes nd 0 map
  obtain ⟨written', kept'⟩ := get?_foldl_applyOrderField nd map'
  by_cases nm : key ∈ flds.map (·.field)
  · obtain ⟨fld, mem, rfl⟩ := mem_map.mp nm
    rw [written fld mem, written' fld mem]
  · rw [kept key nm, kept' key nm, same]

theorem setLifecycleField_none {val : Value} (abst : setLifecycleField val flds = none) :
    "lifecycle" ∉ flds.map (·.field) := by
  induction flds with
  | nil => exact not_mem_nil
  | cons fld flds ih =>
    rw [setLifecycleField] at abst
    split at abst
    · cases abst
    · rename_i alt
      rw [map_eq_none_iff] at abst
      rw [map_cons, mem_cons, not_or]
      exact ⟨fun same => alt (by simp [same]), ih abst⟩

/-- The lifecycle field is replaced where it stands. -/
theorem setLifecycleField_some {val : Value} {fields' : List FieldMutation}
    (swap : setLifecycleField val flds = some fields') :
    fields'.map (·.field) = flds.map (·.field) ∧ ⟨"lifecycle", val⟩ ∈ fields' ∧
      ∀ fld ∈ fields', fld.field ≠ "lifecycle" → fld ∈ flds := by
  induction flds generalizing fields' with
  | nil => cases swap
  | cons fld flds ih =>
    rw [setLifecycleField] at swap
    split at swap
    · rename_i nm
      cases swap
      rw [beq_iff_eq] at nm
      refine ⟨rfl, by simp [nm], ?_⟩
      intro alt mem ne
      rcases mem_cons.mp mem with rfl | later
      · exact absurd nm ne
      · exact mem_cons_of_mem _ later
    · obtain ⟨rest, replacedRest, rfl⟩ := map_eq_some_iff.mp swap
      obtain ⟨names, life, alts⟩ := ih replacedRest
      refine ⟨by simp [names], mem_cons_of_mem _ life, ?_⟩
      intro alt mem ne
      rcases mem_cons.mp mem with rfl | later
      · exact mem_cons_self
      · exact mem_cons_of_mem _ (alts alt later ne)

/-- The upserted fields: the lifecycle, and the other fields as they were. -/
theorem upsertOrderLifecycleField_spec (nd : (flds.map (·.field)).Nodup) (life : OrderLifecycle) :
    let upserted := upsertOrderLifecycleField flds life
    (upserted.map (·.field)).Nodup ∧ ⟨"lifecycle", .string life.asStr⟩ ∈ upserted ∧
      (∀ fld ∈ upserted, fld.field ≠ "lifecycle" → fld ∈ flds) ∧
      ∀ name ∈ flds.map (·.field), name ∈ upserted.map (·.field) := by
  intro upserted
  have perm : upserted.Perm ((setLifecycleField (.string life.asStr) flds).getD
      (flds ++ [⟨"lifecycle", .string life.asStr⟩])) := sortFieldMutations_perm _
  cases swap : setLifecycleField (.string life.asStr) flds with
  | none =>
    have app : upserted.Perm (flds ++ [⟨"lifecycle", .string life.asStr⟩]) := by
      rw [swap] at perm
      exact perm
    have gone := setLifecycleField_none swap
    refine ⟨?_, ?_, ?_, ?_⟩
    · rw [(app.map _).nodup_iff, map_append, nodup_append]
      refine ⟨nd, by simp, ?_⟩
      rintro name mem _ appendedName rfl
      have same : name = "lifecycle" := mem_singleton.mp appendedName
      exact gone (same ▸ mem)
    · rw [app.mem_iff]
      simp
    · intro fld mem ne
      rw [app.mem_iff, mem_append, mem_singleton] at mem
      rcases mem with old | rfl
      · exact old
      · exact absurd rfl ne
    · intro name mem
      rw [(app.map _).mem_iff, map_append]
      exact mem_append_left _ mem
  | some fields' =>
    have kept : upserted.Perm fields' := by
      rw [swap] at perm
      exact perm
    obtain ⟨names, life, alts⟩ := setLifecycleField_some swap
    refine ⟨?_, kept.mem_iff.mpr life, ?_, ?_⟩
    · rw [(kept.map _).nodup_iff, names]
      exact nd
    · intro fld mem
      exact alts fld (kept.mem_iff.mp mem)
    · intro name mem
      rw [(kept.map _).mem_iff, names]
      exact mem

/-- Writing the upserted fields stores the lifecycle and is otherwise the plain write. -/
theorem get?_upserted {obj : Option ObjectKey} (removes : ∀ fld, preservesNullField obj fld = false)
    (distinct : (flds.map (·.field)).Nodup) (life : OrderLifecycle) (map : Fields) :
    let order := (applyFieldsFrom obj 0 map (upsertOrderLifecycleField flds life)).1
    get? "lifecycle" order = some (.string life.asStr) ∧
      ∀ key, key ≠ "lifecycle" → get? key order = get? key (applyFieldsFrom obj 0 map flds).1 := by
  obtain ⟨distinct', car, alts, names⟩ := upsertOrderLifecycleField_spec distinct life
  obtain ⟨put, kept⟩ := get?_applyFieldsFrom removes distinct' 0 map
  obtain ⟨raw, untouched⟩ := get?_applyFieldsFrom removes distinct 0 map
  refine ⟨put _ car, ?_⟩
  intro key ne
  by_cases nm : key ∈ (upsertOrderLifecycleField flds life).map (·.field)
  · obtain ⟨fld, mem, rfl⟩ := mem_map.mp nm
    rw [put fld mem, raw fld (alts fld mem ne)]
  · rw [kept key nm, untouched key fun mem => nm (names key mem)]

end OrderFields

/-! ## What a turn does to one order -/

def orderPath (accountId : AccountId) (orderId : OrderId) : StatePath :=
  ["trade", accountId, "orders", orderId]

/-- The members of a node; one that is absent or no object has none. -/
def membersOf (node : Option Value) : Fields := (node.map entries).getD []

/-- Below its root, a cursor that is no object is written like the empty object. -/
theorem applyMutationAtPath_entries (obj : Option ObjectKey) (flds : List FieldMutation)
    (cur : Value) (path : List PathSegment) :
    (applyMutationAtPath obj flds false (.object cur.entries) path).node =
      (applyMutationAtPath obj flds false cur path).node := by
  cases path with
  | nil => rfl
  | cons seg path =>
    have child : (ensureChildObject (.object cur.entries) seg).child =
        (ensureChildObject cur seg).child := by
      unfold ensureChildObject
      rw [entries_object]
      split
      · rfl
      · split <;> rfl
    rw [applyMutationAtPath_cons, applyMutationAtPath_cons, child, entries_object]

/-- On its way a mutation acts on each node as a mutation of that node. -/
theorem applyMutationAtPath_getAtPath (obj : Option ObjectKey)
    (flds : List FieldMutation) (cur : Value) (path rest : List PathSegment) :
    (applyMutationAtPath obj flds false cur (path ++ rest)).node.getAtPath path =
      some (applyMutationAtPath obj flds false (.object (membersOf (cur.getAtPath path)))
        rest).node := by
  induction path generalizing cur with
  | nil =>
    rw [getAtPath_nil, getAtPath_nil, nil_append]
    exact congrArg some (applyMutationAtPath_entries obj flds cur rest).symm
  | cons seg path ih =>
    rw [cons_append, applyMutationAtPath_cons, getAtPath_object_insert, ih]
    have same : membersOf ((ensureChildObject cur seg).child.getAtPath path) =
        membersOf (cur.getAtPath (seg :: path)) := by
      cases path with
      | nil =>
        simp only [getAtPath_nil, getAtPath_cons, membersOf, map_some, getD_some,
          ensureChildObject_entries, get_eq_entries]
        cases get? seg cur.entries <;> rfl
      | cons next path => rw [(ensureChildObject_spec cur seg).below _ (cons_ne_nil _ _)]
    rw [same]

/-- The mutation writes a key on the way to the node, or removes the whole tree above it. -/
def overwrites (mutation : NormalizedMutation) (path : StatePath) : Bool :=
  mutation.path.isPrefixOf path &&
    match path.drop mutation.path.length with
    | [] => false
    | key :: _ =>
      mutation.fields.any (·.field == key) ||
        isPartitionRootDelete (partitionPath mutation).1 (partitionPath mutation).2
          mutation.fields

theorem isDirectScalarPath_above {accountId : AccountId} {orderId : OrderId}
    {rel rest : List PathSegment}
    (ovr : [accountId, "orders", orderId] = rel ++ rest) :
    isDirectScalarPath .trade rel = false := by
  match rel, ovr with
  | [], _ => rfl
  | [_], _ => rfl
  | [_, _], ovr =>
    cases ovr
    rfl
  | _ :: _ :: _ :: _, _ => rfl

section Turn

variable {mutation : NormalizedMutation} {rel : List PathSegment}
  (less : mutation.path = "trade" :: rel) {accountId : AccountId} {orderId : OrderId}

/-- The order of an account, as the trade partition holds it. -/
def orderIn (trade : Value) (accountId : AccountId) (orderId : OrderId) : Option Value :=
  trade.getAtPath [accountId, "orders", orderId]

/-- The trade partition after a mutation below `trade`. -/
def tradeAfter (trade : Value) (mutation : NormalizedMutation) : Value :=
  (applyAtPartition .trade trade (mutation.path.drop 1) mutation.object mutation.fields).node

include less

theorem tradeAfter_writes (notDirect : isDirectScalarPath .trade rel = false)
    (hold : isPartitionRootDelete .trade rel mutation.fields = false) (td : Value) :
    tradeAfter td mutation =
      (applyMutationAtPath mutation.object mutation.fields false td rel).node := by
  unfold tradeAfter applyAtPartition
  rw [less, drop_one, tail_cons, hold, notDirect]
  rfl

theorem orderIn_apart (sep : Apart rel [accountId, "orders", orderId]) (td : Value) :
    orderIn (tradeAfter td mutation) accountId orderId = orderIn td accountId orderId := by
  have frm := applyAtPartition_frame .trade td (mutation.path.drop 1) mutation.object
    mutation.fields
  refine frm.apart _ ?_
  rw [less]
  exact sep

theorem orderIn_here (here : rel = [accountId, "orders", orderId]) (td : Value) :
    orderIn (tradeAfter td mutation) accountId orderId = some (.object
      (applyFieldsFrom mutation.object 0 (membersOf (orderIn td accountId orderId))
        mutation.fields).1) := by
  subst here
  rw [tradeAfter_writes less rfl rfl]
  have put := applyMutationAtPath_getAtPath mutation.object mutation.fields td
    [accountId, "orders", orderId] []
  rw [append_nil] at put
  exact put

variable {rest : List PathSegment} {key : PathSegment}

theorem orderIn_below {fld : String}
    (mem : rel = [accountId, "orders", orderId] ++ fld :: rest) (td : Value) :
    ∃ mems, orderIn (tradeAfter td mutation) accountId orderId = some (.object mems) ∧
      ∀ key, key ≠ fld → get? key mems = get? key (membersOf (orderIn td accountId orderId)) := by
  subst mem
  rw [tradeAfter_writes less rfl rfl]
  have put := applyMutationAtPath_getAtPath mutation.object mutation.fields td
    [accountId, "orders", orderId] (fld :: rest)
  rw [applyMutationAtPath_cons] at put
  exact ⟨_, put, fun key ne => get?_insert_ne ne _ _⟩

theorem overwrites_above (ovr : [accountId, "orders", orderId] = rel ++ key :: rest) :
    overwrites mutation (orderPath accountId orderId) =
      (mutation.fields.any (·.field == key) ||
        isPartitionRootDelete .trade rel mutation.fields) := by
  have all : orderPath accountId orderId = mutation.path ++ key :: rest := by
    rw [less, cons_append, ← ovr]
    rfl
  have split : partitionPath mutation = (.trade, rel) := by
    unfold partitionPath
    rw [less]
    rfl
  unfold overwrites
  rw [all, isPrefixOf_iff_prefix.mpr (prefix_append _ _), drop_left, split]
  rfl

theorem orderIn_kept (ovr : [accountId, "orders", orderId] = rel ++ key :: rest)
    (kept : overwrites mutation (orderPath accountId orderId) = false) (td : Value) :
    orderIn (tradeAfter td mutation) accountId orderId = orderIn td accountId orderId := by
  rw [overwrites_above less ovr, Bool.or_eq_false_iff] at kept
  obtain ⟨unnamed, hold⟩ := kept
  have repd := applyAtPartition_reported td mutation.object hold (isDirectScalarPath_above ovr)
  unfold orderIn tradeAfter
  rw [less, drop_one, tail_cons, ovr]
  apply repd
  rintro ⟨idx, -, fld, got, nm⟩
  rw [List.any_eq_false] at unnamed
  exact unnamed fld (mem_of_getElem? got) (by simp [nm])

/-- A node above the order that loses or replaces the key to it leaves no order. -/
theorem orderIn_overwritten (form : TradeShaped mutation)
    (ovr : [accountId, "orders", orderId] = rel ++ key :: rest)
    (overwritten : overwrites mutation (orderPath accountId orderId) = true) (td : Value) :
    membersOf (orderIn (tradeAfter td mutation) accountId orderId) = [] := by
  rw [overwrites_above less ovr] at overwritten
  cases rem : isPartitionRootDelete .trade rel mutation.fields with
  | true =>
    have emp : tradeAfter td mutation = .object [] := by
      unfold tradeAfter applyAtPartition applyPartitionRootDelete
      rw [less, drop_one, tail_cons, if_pos rem]
      split
      · rename_i emp
        exact isEmptyPartition_iff.mp emp
      · rfl
    rw [emp]
    rfl
  | false =>
    rw [rem, Bool.or_false, List.any_eq_true] at overwritten
    obtain ⟨fld, mem, nm⟩ := overwritten
    rw [beq_iff_eq] at nm
    rw [tradeAfter_writes less (isDirectScalarPath_above ovr) rem]
    have put := applyMutationAtPath_getAtPath mutation.object mutation.fields td rel []
    rw [append_nil] at put
    unfold orderIn
    rw [ovr, getAtPath_append, put, bind_some, getAtPath_cons]
    simp only [applyMutationAtPath, applyFields, get_object, ← nm]
    rw [(get?_applyFieldsFrom form.removes form.distinct 0 _).1 fld mem]
    -- what is stored under the key now is no object
    unfold fieldAfter
    split
    · rfl
    · have scalar := form.scalar fld mem
      rw [bind_some]
      cases rest with
      | nil => cases val : fld.value <;> first | rfl | (rw [val] at scalar; cases scalar)
      | cons next rest =>
        rw [getAtPath_of_not_object scalar (cons_ne_nil _ _)]
        rfl

end Turn

/-- The mutation writes inside a field that takes part in the lifecycle of an order. -/
def hidesLifecycle (mutation : NormalizedMutation) : Bool :=
  match mutation.path with
  | "trade" :: _ :: "orders" :: _ :: field :: _ =>
    field == "lifecycle" || OrderLifecycle.inferenceFields.contains field
  | _ => false

/-- What one turn does to an order: it writes the order, it removes it from above, or the
order looks as before and has not gone away. -/
theorem orderIn_turn {mutation : NormalizedMutation} {rel : List PathSegment}
    (less : mutation.path = "trade" :: rel) (form : TradeShaped mutation)
    (raw : hidesLifecycle mutation = false) (accountId : AccountId) (orderId : OrderId)
    (td : Value) :
    let pre := orderIn td accountId orderId
    let post := orderIn (tradeAfter td mutation) accountId orderId
    mutation.path = orderPath accountId orderId ∨
      (overwrites mutation (orderPath accountId orderId) = true ∧ membersOf post = []) ∨
      OrderLifecycle.SameView (membersOf pre) (membersOf post) ∧
        ∀ members, pre = some (.object members) → ∃ members', post = some (.object members') := by
  intro pre post
  have same (unchanged : post = pre) :
      OrderLifecycle.SameView (membersOf pre) (membersOf post) ∧
        ∀ members, pre = some (.object members) → ∃ members', post = some (.object members') := by
    rw [unchanged]
    exact ⟨.refl _, fun members got => ⟨members, got⟩⟩
  by_cases ovr : rel <+: [accountId, "orders", orderId]
  · obtain ⟨rest, all⟩ := ovr
    cases rest with
    | nil =>
      rw [append_nil] at all
      exact .inl (by rw [less, all]; rfl)
    | cons key rest =>
      cases overwritten : overwrites mutation (orderPath accountId orderId) with
      | true => exact .inr (.inl ⟨rfl, orderIn_overwritten less form all.symm overwritten td⟩)
      | false => exact .inr (.inr (same (orderIn_kept less all.symm overwritten td)))
  · by_cases mem : [accountId, "orders", orderId] <+: rel
    · obtain ⟨rest, all⟩ := mem
      cases rest with
      | nil =>
        rw [append_nil] at all
        exact absurd (all ▸ prefix_refl _) ovr
      | cons fld rest =>
        obtain ⟨members, got, kept⟩ := orderIn_below less all.symm td
        refine .inr (.inr ⟨?_, fun _ _ => ⟨members, got⟩⟩)
        intro name seen
        have ne : name ≠ fld := by
          rintro rfl
          rw [hidesLifecycle, less, ← all] at raw
          rcases seen with rfl | inferred
          · cases raw
          · simp [inferred] at raw
        rw [show post = some (.object members) from got]
        exact (kept name ne).symm
    · exact .inr (.inr (same (orderIn_apart less ⟨ovr, mem⟩ td)))

end Tqsdk
