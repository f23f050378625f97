import Tqsdk.Runtime.Handle
import Tqsdk.Runtime.Reachable

/-!
# The decoders agree

An input is decoded by the owned decoder with its quote fast path, or by the borrowed one;
the reference sends every item through `flatten_object`.  The owned and the borrowed
decoder emit the same mutations.  The fast path leaves out one mutation, that of an empty
`quotes` object, which writes nothing: its partition is an object already.  So all of them
ingest an input the same way.
-/

namespace Tqsdk

open List

open Value

/-! ## Owned and borrowed decoding -/

theorem splitOwned_fields (path : List PathSegment) (map : Fields) :
    (splitOwned path map).1 = ownFields path map := by
  induction map with
  | nil => rfl
  | cons ent map ih =>
    obtain ⟨fld, val⟩ := ent
    rw [splitOwned]
    cases child : val.isObject || emitsScalarLeaf path fld with
    | true =>
      rw [Bool.or_eq_true] at child
      rcases child with child | child <;> simp [ownFields, child, ih]
    | false =>
      rw [Bool.or_eq_false_iff] at child
      simp [ownFields, child, ih]

mutual

theorem flattenChildrenOwned_eq (src : MutationSource) (path : List PathSegment) :
    ∀ map : List (String × Value),
      flattenChildrenOwned src path map = flattenChildren src path map
  | [] => rfl
  | (field, value) :: rest => by
      rw [flattenChildrenOwned, flattenChildren, flattenChildrenOwned_eq src path rest,
        flattenChildOwned_eq src path field value]

theorem flattenChildOwned_eq (src : MutationSource) (path : List PathSegment)
    (fld : String) : ∀ val : Value,
      (if val.isObject || emitsScalarLeaf path fld then
        flattenChildOwned src path fld val else []) =
          flattenMember src path fld val
  | .object child => by
      rw [flattenMember, isObject_object, Bool.true_or, if_pos rfl, flattenChildOwned,
        splitOwned_fields, flattenChildrenOwned_eq src (path ++ [fld]) child]
  | .null | .bool _ | .number _ | .string _ | .array _ => rfl

end

theorem decodeJsonValueOwned_eq (val : Value) (src : MutationSource) (base : List PathSegment) :
    decodeJsonValueOwned val src base = decodeJsonValue val src base := by
  cases val with
  | object map =>
    simp only [decodeJsonValueOwned, decodeJsonValue, flattenObjectOwned, flattenObject,
      splitOwned_fields, flattenChildrenOwned_eq]
  | null | bool | number | string | array => rfl

theorem decodeItemOwned_eq (src : MutationSource) (base : List PathSegment) (item : Value) :
    decodeItemOwned src base item = decodeItem .fastPath src base item := by
  unfold decodeItemOwned decodeItem decodeMarketQuoteRtnDataItemOwned
    decodeMarketQuoteRtnDataItem decodeQuoteObjectFastPath
  cases marketQuoteRtnDataItemQuotes item src base with
  | none => exact decodeJsonValueOwned_eq item src base
  | some qs =>
    dsimp only [Option.bind_some]
    cases leavesQuoteShape qs with
    | true => exact decodeJsonValueOwned_eq item src base
    | false => rfl

theorem decodeJsonEnvelopeOwned_eq (val : Value) (src : MutationSource) (base : List PathSegment) :
    decodeJsonEnvelopeOwned val src base = decodeJsonEnvelope .fastPath val src base := by
  have its : decodeItemOwned src base = decodeItem .fastPath src base :=
    funext (decodeItemOwned_eq src base)
  unfold decodeJsonEnvelopeOwned decodeJsonEnvelope
  split
  · cases val with
    | object env =>
      dsimp only [get_object]
      cases OrdMap.get? "data" env with
      | none => rfl
      | some data => cases data <;> simp [asArray, its]
    | null | bool | number | string | array => rfl
  · rw [decodeJsonValueOwned_eq]

theorem ProtocolAdapter.decodeOwned_eq (adp : ProtocolAdapter) (inp : RuntimeInput) :
    adp.decodeOwned inp = adp.decode .fastPath inp := by
  cases adp with
  | market =>
    cases inp with
    | io ev =>
      simp only [decodeOwned, decode, decodeIoPayloadOwned, decodeIoPayload]
      cases ev.payload <;> simp [decodeJsonEnvelopeOwned_eq]
    | timer | auth | replay | internal => rfl
  | system | trade | replay | query | schema => cases inp <;> rfl

theorem AdapterRegistry.decodeInputOwned_eq (adps : AdapterRegistry) (inp : RuntimeInput) :
    adps.decodeInputOwned inp = decodeInput .fastPath adps inp := by
  unfold decodeInputOwned decodeInput
  split
  · rename_i none_
    rw [none_]
    rfl
  · rename_i adp only
    rw [only, adp.decodeOwned_eq]
    simp only [decodeAll]
    cases adp.decode .fastPath inp with
    | error error => rfl
    | ok dec => simp [bind, Except.bind, pure, Except.pure]
  · rfl

/-! ## The quote fast path -/

/-- What `flatten_object` emits for an empty `quotes` object. -/
def emptyQuotes : NormalizedMutation := ⟨["quotes"], none, [], .marketDiff⟩

/-- The second list is the first one, with writes of no field of `quotes` in between. -/
inductive WithoutEmptyQuotes : List NormalizedMutation → List NormalizedMutation → Prop
  | nil : WithoutEmptyQuotes [] []
  | keep (mutation : NormalizedMutation) {fast full : List NormalizedMutation} :
      WithoutEmptyQuotes fast full → WithoutEmptyQuotes (mutation :: fast) (mutation :: full)
  | skip {fast full : List NormalizedMutation} :
      WithoutEmptyQuotes fast full → WithoutEmptyQuotes fast (emptyQuotes :: full)

namespace WithoutEmptyQuotes

theorem refl (mus : List NormalizedMutation) :
    WithoutEmptyQuotes mus mus := by
  induction mus with
  | nil => exact .nil
  | cons m mus ih => exact .keep m ih

theorem append {fast full fast' full' : List NormalizedMutation}
    (left : WithoutEmptyQuotes fast full) (right : WithoutEmptyQuotes fast' full') :
    WithoutEmptyQuotes (fast ++ fast') (full ++ full') := by
  induction left with
  | nil => exact right
  | keep m _ ih => exact .keep m ih
  | skip _ ih => exact .skip ih

theorem flatMap {its : List Value} {fast full : Value → List NormalizedMutation}
    (each : ∀ item, WithoutEmptyQuotes (fast item) (full item)) :
    WithoutEmptyQuotes (its.flatMap fast) (its.flatMap full) := by
  induction its with
  | nil => exact .nil
  | cons item its ih => exact (each item).append ih

end WithoutEmptyQuotes

theorem sortFieldMutations_isEmpty (flds : List FieldMutation) :
    (sortFieldMutations flds).isEmpty = flds.isEmpty := by
  have len : (sortFieldMutations flds).length = flds.length := length_insertionSort _ _
  cases flds with
  | nil => rfl
  | cons fld flds =>
    cases srt : sortFieldMutations (fld :: flds) with
    | nil => rw [srt] at len; cases len
    | cons _ _ => rfl

/-- Members that are neither objects nor scalar leaves have no mutations of their own. -/
theorem flattenChildren_plain {src : MutationSource} {path : List PathSegment}
    {map : Fields} (raw : map.any (fun ent => ent.2.isObject) = false)
    (flds : ∀ fld, emitsScalarLeaf path fld = false) :
    flattenChildren src path map = [] := by
  induction map with
  | nil => rw [flattenChildren]
  | cons ent map ih =>
    obtain ⟨fld, val⟩ := ent
    rw [any_cons, Bool.or_eq_false_iff] at raw
    rw [flattenChildren, ih raw.2, append_nil]
    cases val with
    | object child => cases raw.1
    | null | bool | number | string | array => simp [flattenMember, flds]

theorem ownFields_plain {path : List PathSegment} {map : Fields}
    (raw : map.any (fun ent => ent.2.isObject) = false)
    (flds : ∀ fld, emitsScalarLeaf path fld = false) :
    ownFields path map = map.map fun ent => ⟨ent.1, ent.2⟩ := by
  unfold ownFields
  congr 1
  apply filter_eq_self.mpr
  intro ent mem
  rw [any_eq_false] at raw
  simp [raw ent mem, flds]

/-- A quote of plain fields is one mutation, also when it has no field. -/
theorem flattenMember_quote {sym : String} {flds : Fields}
    (raw : flds.any (fun fld => fld.2.isObject) = false) :
    flattenMember .marketDiff ["quotes"] sym (.object flds) =
      [quoteMutation (sym, .object flds)] := by
  have noLeaf (fld : String) : emitsScalarLeaf (["quotes"] ++ [sym]) fld = false := rfl
  have noRowId (flds : List FieldMutation) :
      injectMarketDataRowId ["quotes", sym] flds = flds := by
    simp [injectMarketDataRowId, marketDataRowId]
  rw [flattenMember, flattenChildren_plain raw noLeaf, append_nil, ownFields_plain raw noLeaf]
  simp only [flattenFields, cons_append, nil_append, noRowId, sortFieldMutations_isEmpty]
  cases flds with
  | nil => rfl
  | cons fld flds => rfl

theorem flattenChildren_quotes {qs : Fields} (shape : leavesQuoteShape qs = false) :
    flattenChildren .marketDiff ["quotes"] qs = qs.map quoteMutation := by
  induction qs with
  | nil => rw [flattenChildren]; rfl
  | cons ent qs ih =>
    obtain ⟨sym, val⟩ := ent
    simp only [leavesQuoteShape, any_cons, Bool.or_eq_false_iff] at shape
    cases val with
    | object flds =>
      rw [flattenChildren, flattenMember_quote shape.1, ih shape.2]
      rfl
    | null | bool | number | string | array => cases shape.1

/-- An item that only carries quotes: both ways emit one mutation for each quote. -/
theorem decodeJsonValue_quotes {qs : Fields} (shape : leavesQuoteShape qs = false) :
    WithoutEmptyQuotes (qs.map quoteMutation)
      (decodeJsonValue (.object [("quotes", .object qs)]) .marketDiff []) := by
  have noFields : ownFields ["quotes"] qs = [] := by
    unfold ownFields
    rw [map_eq_nil_iff, filter_eq_nil_iff]
    intro ent mem
    simp only [leavesQuoteShape, any_eq_false] at shape
    have isObject := shape ent mem
    cases val : ent.2 with
    | object flds => simp
    | null | bool | number | string | array => simp [val] at isObject
  have dec : decodeJsonValue (.object [("quotes", .object qs)]) .marketDiff [] =
      flattenFields .marketDiff ["quotes"] qs.isEmpty [] ++ qs.map quoteMutation := by
    simp only [decodeJsonValue, flattenObject, flattenChildren, flattenMember, append_nil,
      nil_append]
    rw [noFields, flattenChildren_quotes shape]
    rfl
  rw [dec]
  cases qs with
  | nil => exact .skip .nil
  | cons ent qs => exact .refl _

theorem decodeItem_withoutEmptyQuotes (src : MutationSource) (base : List PathSegment)
    (item : Value) :
    WithoutEmptyQuotes (decodeItem .fastPath src base item)
      (decodeItem .flattened src base item) := by
  simp only [decodeItem, decodeMarketQuoteRtnDataItem]
  cases car : marketQuoteRtnDataItemQuotes item src base with
  | none => exact .refl _
  | some qs =>
    unfold marketQuoteRtnDataItemQuotes at car
    split at car
    · cases car
    · rename_i mkt
      simp only [Bool.or_eq_true, bne_iff_ne, ne_eq, Bool.not_eq_true', not_or, not_not,
        Bool.not_eq_false, List.isEmpty_iff] at mkt
      obtain ⟨rfl, rfl⟩ := mkt
      split at car
      · cases car
        simp only [Option.bind_some, decodeQuoteObjectFastPath]
        cases shape : leavesQuoteShape qs with
        | true => exact .refl _
        | false => exact decodeJsonValue_quotes shape
      · cases car

/-! ## Decoding an input -/

/-- Two decodings fail with one error, or differ in empty `quotes` objects only. -/
inductive DecodingsAgree : Decoded → Decoded → Prop
  | error (error : ContractError) : DecodingsAgree (.error error) (.error error)
  | ok {fast full : List NormalizedMutation} :
      WithoutEmptyQuotes fast full → DecodingsAgree (.ok fast) (.ok full)

theorem DecodingsAgree.refl (dec : Decoded) : DecodingsAgree dec dec := by
  cases dec with
  | error error => exact .error error
  | ok muts => exact .ok (.refl muts)

theorem DecodingsAgree.append {fast full fast' full' : Decoded}
    (left : DecodingsAgree fast full) (right : DecodingsAgree fast' full') :
    DecodingsAgree (do return (← fast) ++ (← fast')) (do return (← full) ++ (← full')) := by
  cases left with
  | error error => exact .error error
  | ok here =>
    cases right with
    | error error => exact .error error
    | ok post => exact .ok (here.append post)

theorem decodeJsonEnvelope_agree (val : Value) (src : MutationSource) (base : List PathSegment) :
    DecodingsAgree (decodeJsonEnvelope .fastPath val src base)
      (decodeJsonEnvelope .flattened val src base) := by
  unfold decodeJsonEnvelope
  split
  · split
    · exact .ok (.flatMap (decodeItem_withoutEmptyQuotes src base))
    · exact .error rtnDataError
  · exact .refl _

theorem decodeIoPayload_agree (ev : IoEvent) (src : MutationSource) (base : List PathSegment) :
    DecodingsAgree (decodeIoPayload .fastPath ev src base)
      (decodeIoPayload .flattened ev src base) := by
  unfold decodeIoPayload
  cases ev.payload with
  | json val => exact decodeJsonEnvelope_agree val src base
  | text | binary => exact .refl _

theorem ProtocolAdapter.decode_agree (adp : ProtocolAdapter) (inp : RuntimeInput) :
    DecodingsAgree (adp.decode .fastPath inp) (adp.decode .flattened inp) := by
  cases inp with
  | io ev =>
    cases adp with
    | system =>
      simp only [decode]
      split
      · exact decodeIoPayload_agree ev _ _
      · exact .refl _
    | market =>
      simp only [decode]
      split
      · exact decodeIoPayload_agree ev _ _
      · exact .refl _
    | trade =>
      simp only [decode]
      split
      · unfold decodeTradeIoPayload
        cases ev.payload with
        | json val =>
          dsimp only
          split
          · exact .refl _
          · exact decodeJsonEnvelope_agree val _ _
        | text | binary => exact .refl _
      · exact .refl _
    | schema =>
      simp only [decode]
      split
      · unfold decodeSchemaIoPayload
        cases ev.payload with
        | json val => exact decodeJsonEnvelope_agree _ _ _
        | text | binary => exact .refl _
      · exact .refl _
    | replay | query => exact .refl _
  | timer | auth | replay | internal => cases adp <;> exact .refl _

theorem AdapterRegistry.decodeInput_agree (adps : AdapterRegistry) (inp : RuntimeInput) :
    DecodingsAgree (decodeInput .fastPath adps inp)
      (decodeInput .flattened adps inp) := by
  unfold decodeInput
  induction adps.filter fun adp => adp.acceptsInput inp with
  | nil => exact .refl _
  | cons adp rest ih =>
    rw [decodeAll, decodeAll]
    exact (adp.decode_agree inp).append ih

/-! ## Applying a batch with and without empty `quotes` objects -/

variable {fast full : List NormalizedMutation} {store : StateStore}

theorem normalizeEach_withoutEmptyQuotes (td : Value) (same : WithoutEmptyQuotes fast full) :
    DecodingsAgree (normalizeEach td fast) (normalizeEach td full) := by
  induction same with
  | nil => exact .refl _
  | keep m _ ih =>
    simp only [normalizeEach]
    cases normalizeOrderLifecycleMutation td m with
    | error error => exact .error error
    | ok norm =>
      generalize normalizeEach td _ = fast' at ih ⊢
      generalize normalizeEach td _ = full' at ih ⊢
      cases ih with
      | error error => exact .error error
      | ok post => exact .ok (.keep norm post)
  | skip _ ih =>
    simp only [normalizeEach]
    generalize normalizeEach td _ = fast' at ih ⊢
    generalize normalizeEach td _ = full' at ih ⊢
    cases ih with
    | error error => exact .error error
    | ok post => exact .ok (.skip post)

theorem normalize_withoutEmptyQuotes (store : StateStore) (same : WithoutEmptyQuotes fast full) :
    DecodingsAgree (normalizeOrderLifecycleMutations store fast)
      (normalizeOrderLifecycleMutations store full) := by
  have ords : fast.any isTradeOrderMutation = full.any isTradeOrderMutation := by
    induction same with
    | nil => rfl
    | keep m _ ih => simp [ih]
    | skip _ ih =>
      rw [any_cons, ← ih]
      rfl
  unfold normalizeOrderLifecycleMutations
  rw [ords]
  split
  · exact normalizeEach_withoutEmptyQuotes _ same
  · exact .ok same

theorem validate_withoutEmptyQuotes (same : WithoutEmptyQuotes fast full) :
    validateMutationDomains fast = validateMutationDomains full := by
  induction same with
  | nil => rfl
  | keep m _ ih => simp only [validateMutationDomains, ih]
  | skip _ ih => exact ih

/-- Writing no field of an object changes nothing and is not reported. -/
theorem applyTurn_emptyQuotes {ps : Partitions} (objs : (∀ root, (ps root).isObject = true))
    (idx : Nat) : applyTurn ps idx emptyQuotes = (ps, emptyQuotes, none) := by
  have turn : turnApplied ps emptyQuotes = ⟨ps .quotes, [], [], false⟩ := by
    have app : turnApplied ps emptyQuotes =
        ⟨.object (ps .quotes).entries, [], [], !(ps .quotes).isObject || false⟩ :=
      rfl
    rw [app, object_entries (objs .quotes), objs .quotes]
    rfl
  refine Prod.ext ?_ (Prod.ext ?_ ?_)
  · rw [applyTurn_partitions, turn]
    exact Function.update_eq_self _ _
  · rfl
  · rw [applyTurn_reports, turn]
    rfl

theorem applyLoop_withoutEmptyQuotes (same : WithoutEmptyQuotes fast full) {ps : Partitions}
    (objs : (∀ root, (ps root).isObject = true)) (index index' : Nat) :
    (StateStore.applyLoop index ps fast).1 =
        (StateStore.applyLoop index' ps full).1 ∧
      StateStore.appliedTurns ps fast = StateStore.appliedTurns ps full := by
  induction same generalizing ps index index' with
  | nil => exact ⟨rfl, rfl⟩
  | keep m _ ih =>
    obtain ⟨partitions', turns⟩ := ih (applyTurn_objects objs 0 m) (index + 1) (index' + 1)
    rw [StateStore.applyLoop_cons, StateStore.applyLoop_cons,
      StateStore.applyTurn_position _ index, StateStore.applyTurn_position _ index']
    simp only [StateStore.appliedTurns, turns]
    exact ⟨partitions', trivial⟩
  | skip _ ih =>
    obtain ⟨partitions', turns⟩ := ih objs index (index' + 1)
    rw [StateStore.applyLoop_cons]
    simp only [StateStore.appliedTurns, applyTurn_emptyQuotes objs]
    exact ⟨partitions', turns⟩

section

variable (reachable : store.Reachable) (same : WithoutEmptyQuotes fast full)
  (doms : List ProtocolDomain) (causedBy : List CommandId) (scope : CommitScope)

include reachable same doms causedBy scope

theorem CommitEngine.apply_withoutEmptyQuotes :
    apply store fast doms causedBy scope = apply store full doms causedBy scope := by
  obtain ⟨ps, turns⟩ := applyLoop_withoutEmptyQuotes same reachable.regular.objects 0 0
  rw [apply_eq_turns, apply_eq_turns, ps, turns]

theorem RuntimeHandle.applyUnderCommitGate_withoutEmptyQuotes :
    applyUnderCommitGate store fast doms causedBy scope =
      applyUnderCommitGate store full doms causedBy scope := by
  have norm : DecodingsAgree (normalizeMutations store doms fast)
      (normalizeMutations store doms full) := by
    unfold normalizeMutations
    split
    · exact .ok same
    · exact normalize_withoutEmptyQuotes store same
  unfold applyUnderCommitGate
  generalize normalizeMutations store doms fast = left at norm ⊢
  generalize normalizeMutations store doms full = right at norm ⊢
  cases norm with
  | error error => rfl
  | ok same =>
    simp only [bind, Except.bind, validate_withoutEmptyQuotes same,
      CommitEngine.apply_withoutEmptyQuotes reachable same]

end

theorem RuntimeHandle.applyDecoded_agree (reachable : store.Reachable) {fast full : Decoded}
    (agr : DecodingsAgree fast full) (doms : List ProtocolDomain) (causedBy : List CommandId)
    (scope : CommitScope) :
    (fast >>= fun muts => applyUnderCommitGate store muts doms causedBy scope) =
      full >>= fun muts => applyUnderCommitGate store muts doms causedBy scope := by
  cases agr with
  | error error => rfl
  | ok same => exact applyUnderCommitGate_withoutEmptyQuotes reachable same doms causedBy scope

/-- The owned decoder with its fast path ingests every input as the flattening one does: the
same failure, or the same state tree, revision and change set. -/
theorem RuntimeHandle.ingest_eq_flattened (adapters : AdapterRegistry) {store : StateStore}
    (reachable : store.Reachable) (input : RuntimeInput) (causedBy : List CommandId)
    (scope : CommitScope) :
    ingest adapters store input causedBy scope =
      ingestWith (AdapterRegistry.decodeInput .flattened adapters) store input causedBy
        scope := by
  unfold ingest ingestWith
  rw [AdapterRegistry.decodeInputOwned_eq]
  exact applyDecoded_agree reachable (AdapterRegistry.decodeInput_agree adapters input) _
    causedBy scope

/-- A packet with an empty `quotes` object, which only the flattening decoder turns into a
mutation, and a quote update. -/
def quotePacket : RuntimeInput :=
  .io ⟨"md", [.market], .json (.object [("aid", .string "rtn_data"),
    ("data", .array [.object [("quotes", .object [])],
      .object [("quotes", .object [("X", .object [("last_price", .ofI64 3)])])]])])⟩

theorem RuntimeHandle.ingest_quotePacket :
    AdapterRegistry.decodeInput .fastPath AdapterRegistry.defaultAdapters quotePacket ≠
        AdapterRegistry.decodeInput .flattened AdapterRegistry.defaultAdapters quotePacket ∧
      ingest AdapterRegistry.defaultAdapters (.new 0) quotePacket [] .realtimeUpdate =
        ingestWith (AdapterRegistry.decodeInput .flattened AdapterRegistry.defaultAdapters)
          (.new 0) quotePacket [] .realtimeUpdate :=
  ⟨by decide, ingest_eq_flattened _ (.new 0) _ _ _⟩

end Tqsdk
