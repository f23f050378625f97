import Tqsdk.Adapter.Agreement
import Tqsdk.Adapter.MergePatch

/-!
# The mutations of a trade packet

Only the trade adapter emits mutations of trade replies.  Below `trade` such a mutation is
keyed as an order exactly when it lies at the path of an order, its values are no objects,
and no field of it is written twice.
-/

namespace Tqsdk

open List

open Value

/-! ## Inputs that carry documents -/

def InputPayload.Wf : InputPayload → Prop
  | .json value => value.Wf
  | .text _ | .binary _ => True

/-- Every payload of the input is a document. -/
def RuntimeInput.Wf : RuntimeInput → Prop
  | .io event => event.payload.Wf
  | .timer event | .auth event | .internal event => ∀ value ∈ event.payload, value.Wf
  | .replay event => ∀ value ∈ event.payload, value.Wf

/-! ## Sources -/

/-- The source an adapter marks its mutations with. -/
def ProtocolAdapter.source : ProtocolAdapter → MutationSource
  | .system => .sessionControl
  | .market => .marketDiff
  | .trade => .tradeReply
  | .replay => .replayStep
  | .query => .queryResult
  | .schema => .schemaBootstrap

variable {path : List PathSegment} {value : Value}

theorem flattenFields_source {src : MutationSource} {isEmpty : Bool} {flds : List FieldMutation} :
    ∀ mu ∈ flattenFields src path isEmpty flds, mu.source = src := by
  intro mu mem
  simp only [flattenFields] at mem
  split at mem
  · rw [mem_singleton.mp mem]
  · split at mem
    · rw [mem_singleton.mp mem]
    · split at mem
      · obtain ⟨fld, -, rfl⟩ := mem_map.mp mem
        rfl
      · cases mem

theorem decodeJsonValue_source (value : Value) (src : MutationSource) (base : List PathSegment) :
    ∀ mu ∈ decodeJsonValue value src base, mu.source = src := by
  intro mu mem
  unfold decodeJsonValue at mem
  split at mem
  · rcases mem_append.mp mem with own | below
    · exact flattenFields_source mu own
    · exact flattenChildren_source src base _ mu below
  · split at mem
    · cases mem
    · rw [mem_singleton.mp mem]

theorem decodeItem_source (qs : QuoteItems) (src : MutationSource)
    (base : List PathSegment) (item : Value) :
    ∀ mu ∈ decodeItem qs src base item, mu.source = src := by
  intro mu mem
  cases qs with
  | flattened => exact decodeJsonValue_source item src base mu mem
  | fastPath =>
    simp only [decodeItem] at mem
    cases fast : decodeMarketQuoteRtnDataItem item src base with
    | none =>
      rw [fast] at mem
      exact decodeJsonValue_source item src base mu mem
    | some dec =>
      rw [fast] at mem
      unfold decodeMarketQuoteRtnDataItem at fast
      obtain ⟨mems, hit, decoded_⟩ := Option.bind_eq_some_iff.mp fast
      -- the fast path is only taken for market diffs
      have mkt : src = .marketDiff := by
        unfold marketQuoteRtnDataItemQuotes at hit
        split at hit
        · cases hit
        · rename_i mkt
          simp only [Bool.or_eq_true, bne_iff_ne, ne_eq, not_or, not_not] at mkt
          exact mkt.1
      unfold decodeQuoteObjectFastPath at decoded_
      split at decoded_
      · cases decoded_
      · cases decoded_
        obtain ⟨ent, -, rfl⟩ := mem_map.mp mem
        exact mkt.symm

/-- Every mutation of a successful decoding satisfies `P`. -/
def Decoded.All (P : NormalizedMutation → Prop) (decoded : Decoded) : Prop :=
  ∀ mutations, decoded = .ok mutations → ∀ mutation ∈ mutations, P mutation

namespace Decoded.All

variable {P : NormalizedMutation → Prop}

theorem ok {mus : List NormalizedMutation} (all : ∀ mu ∈ mus, P mu) :
    All P (.ok mus) := by
  rintro _ ⟨⟩
  exact all

theorem nil : All P (.ok []) := ok nofun

theorem error {error : ContractError} : All P (.error error) := nofun

theorem flatMap {its : List Value} {decode : Value → List NormalizedMutation}
    (all : ∀ item ∈ its, ∀ mu ∈ decode item, P mu) :
    All P (.ok (its.flatMap decode)) := by
  apply ok
  intro mu mem
  obtain ⟨item, got, emit⟩ := mem_flatMap.mp mem
  exact all item got mu emit

theorem append {hd : Decoded} {post : Decoded} (here : All P hd) (rest : All P post) :
    All P (do
      let dec ← hd
      let alts ← post
      return dec ++ alts) := by
  cases hd with
  | error => exact error
  | ok dec =>
    cases post with
    | error => exact error
    | ok alts =>
      apply ok
      intro mu mem
      rcases mem_append.mp mem with left | right
      · exact here dec rfl mu left
      · exact rest alts rfl mu right

end Decoded.All

theorem decodeJsonEnvelope_all {P : NormalizedMutation → Prop} {qs : QuoteItems}
    {src : MutationSource} {base : List PathSegment}
    (its : ∀ data, (value.get "data").bind Value.asArray = some data → ∀ item ∈ data,
      ∀ mu ∈ decodeItem qs src base item, P mu)
    (all : ∀ mu ∈ decodeJsonValue value src base, P mu) :
    Decoded.All P (decodeJsonEnvelope qs value src base) := by
  unfold decodeJsonEnvelope
  split
  · split
    · rename_i data hit
      exact .flatMap (its data hit)
    · exact .error
  · exact .ok all

/-- Where an adapter puts the documents it decodes. -/
def ProtocolAdapter.Base : ProtocolAdapter → List PathSegment → Prop
  | .market, base | .trade, base => base = []
  | .system, base => base.head? = some "system"
  | .replay, base => base.head? = some "replay"
  | .query, base => base.head? = some "query"
  | .schema, base => base.head? = some "schema"

section Adapters

variable {P : NormalizedMutation → Prop} {qs : QuoteItems}

theorem decodeNamedPayload_all {base : List PathSegment} {ev : NamedPayloadEvent}
    {src : MutationSource}
    (vals : ∀ value, ∀ mu ∈ decodeJsonValue value src (base ++ [ev.label]), P mu)
    (scalars : ∀ flds, P ⟨base ++ [ev.label], none, flds, src⟩ ∧ P ⟨base, none, flds, src⟩) :
    Decoded.All P (decodeNamedPayload base ev src) := by
  unfold decodeNamedPayload
  cases ev.payload with
  | none => exact .ok (by simpa using (scalars _).2)
  | some value =>
    cases value with
    | object map => exact .ok (vals _)
    | null | bool | number | string | array => exact .ok (by simpa using (scalars _).1)

theorem notifyMutations_all
    (vals : ∀ value, ∀ mu ∈ decodeJsonValue value .sessionControl ["system"], P mu)
    (value : Value) : ∀ mu ∈ notifyMutations value, P mu := by
  unfold notifyMutations
  cases value.get "notify" with
  | none => exact nofun
  | some notify => exact vals _

theorem decodeQueryValue_all
    (vals : ∀ value, ∀ mu ∈ decodeJsonValue value .queryResult ["query"], P mu)
    (value : Value) : ∀ mu ∈ decodeQueryValue value, P mu := by
  unfold decodeQueryValue
  split
  · exact vals _
  · split <;> exact vals _

/-- A property of every mutation that an adapter decodes, from the documents it decodes and
from the bare events. -/
theorem ProtocolAdapter.decode_all (adp : ProtocolAdapter) (inp : RuntimeInput)
    (its : ∀ base item, adp.Base base → ∀ mu ∈ decodeItem qs adp.source base item, P mu)
    (vals : ∀ base value, adp.Base base → ∀ mu ∈ decodeJsonValue value adp.source base, P mu)
    (evs : ∀ path flds, adp.Base path → path ≠ [] → P ⟨path, none, flds, adp.source⟩) :
    Decoded.All P (adp.decode qs inp) := by
  have env (value : Value) {base : List PathSegment} (placed : adp.Base base) :
      Decoded.All P (decodeJsonEnvelope qs value adp.source base) :=
    decodeJsonEnvelope_all (fun _ _ item _ => its base item placed) (vals base value placed)
  have pld (ev : IoEvent) {base : List PathSegment} (placed : adp.Base base) :
      Decoded.All P (decodeIoPayload qs ev adp.source base) := by
    unfold decodeIoPayload
    split
    · exact env _ placed
    · exact .nil
    · exact .nil
  cases adp with
  | system =>
    have nm (base : List PathSegment) (ev : NamedPayloadEvent)
        (placed : base.head? = some "system") :
        Decoded.All P (decodeNamedPayload base ev .sessionControl) := by
      have proper : base ≠ [] := by
        rintro rfl
        cases placed
      have lt : (base ++ [ev.label]).head? = some "system" := by
        rw [head?_append, placed]
        rfl
      exact decodeNamedPayload_all (fun value => vals _ value lt)
        fun flds => ⟨evs _ flds lt (by simp), evs _ flds placed proper⟩
    cases inp with
    | io ev =>
      simp only [decode]
      split
      · exact pld ev rfl
      · split
        · unfold decodeNotifyIoPayload
          have notify := notifyMutations_all fun value => vals ["system"] value rfl
          split
          · unfold decodeNotifyEnvelope
            split
            · split
              · exact .flatMap fun item _ => notify item
              · exact .nil
            · exact .ok (notify _)
          · exact .nil
          · exact .nil
        · exact .nil
    | timer ev => exact nm _ ev rfl
    | auth ev => exact nm _ ev rfl
    | internal ev => exact nm _ ev rfl
    | replay ev => exact .nil
  | market =>
    cases inp with
    | io ev =>
      simp only [decode]
      split
      · exact pld ev rfl
      · exact .nil
    | timer | auth | internal | replay => exact .nil
  | trade =>
    cases inp with
    | io ev =>
      simp only [decode]
      split
      · unfold decodeTradeIoPayload
        split
        · split
          · unfold decodeTradeSettlementQueryReply
            split
            · exact .ok (vals _ _ rfl)
            · exact .nil
          · exact env _ rfl
        · exact .nil
        · exact .nil
      · exact .nil
    | timer | auth | internal | replay => exact .nil
  | replay =>
    cases inp with
    | replay ev =>
      simp only [decode, decodeReplayPayload]
      cases ev.payload with
      | none =>
        have one := evs ["replay", ev.sessionId.getD ev.label]
          [⟨"event", .string ev.label⟩] rfl (by simp)
        exact .ok (by simpa [source] using one)
      | some pld => exact .ok (vals _ pld rfl)
    | io | timer | auth | internal => exact .nil
  | query =>
    cases inp with
    | io ev =>
      simp only [decode]
      split
      · unfold decodeQueryIoPayload
        have reply := decodeQueryValue_all fun value => vals ["query"] value rfl
        split
        · unfold decodeQueryEnvelope
          split
          · split
            · exact .flatMap fun item _ => reply item
            · exact .error
          · exact .ok (reply _)
        · exact .nil
        · exact .nil
      · exact .nil
    | timer | auth | internal | replay => exact .nil
  | schema =>
    cases inp with
    | io ev =>
      simp only [decode]
      split
      · unfold decodeSchemaIoPayload
        split
        · exact env _ rfl
        · exact .nil
        · exact .nil
      · exact .nil
    | timer | auth | internal | replay => exact .nil

end Adapters

theorem ProtocolAdapter.decode_source (qs : QuoteItems) (adp : ProtocolAdapter)
    (inp : RuntimeInput) :
    Decoded.All (·.source = adp.source) (adp.decode qs inp) :=
  adp.decode_all inp (fun base item _ => decodeItem_source qs adp.source base item)
    (fun base value _ => decodeJsonValue_source value adp.source base) fun _ _ _ _ => rfl

/-! ## Shapes -/

/-- A mutation below `trade`. -/
structure TradeShaped (mutation : NormalizedMutation) : Prop where
  keyed : ∀ accountId orderId, mutation.object = some (.order accountId orderId) ↔
    mutation.path = ["trade", accountId, "orders", orderId]
  removes : ∀ field, preservesNullField mutation.object field = false
  scalar : ∀ field ∈ mutation.fields, field.value.isObject = false
  distinct : (mutation.fields.map (·.field)).Nodup

theorem tradeObjectKey_order {aid : String} {rest : List PathSegment}
    {acc : AccountId} {ord : OrderId} :
    tradeObjectKey aid rest = some (.order acc ord) ↔ aid = acc ∧ rest = ["orders", ord] := by
  unfold tradeObjectKey
  split <;> simp_all

/-- The fields of a node below `trade`, which has no row ids. -/
theorem nodeFields_trade (rest : List PathSegment) (pat : Fields) :
    nodeFields ("trade" :: rest) pat = sortFieldMutations (ownFields ("trade" :: rest) pat) := by
  have noRow : marketDataRowId ("trade" :: rest) = none := by
    unfold marketDataRowId
    split
    · rename_i same
      cases same
      rfl
    · rename_i same
      cases same
      rfl
    · rfl
  unfold nodeFields injectMarketDataRowId
  rw [noRow]
  split <;> rfl

theorem tradeShaped_node (rest : List PathSegment) {pat : Fields}
    (srt : OrdMap.Sorted pat) (src : MutationSource) :
    TradeShaped ⟨"trade" :: rest, inferObjectKeyFromSegments ("trade" :: rest),
      nodeFields ("trade" :: rest) pat, src⟩ := by
  have perm := sortFieldMutations_perm (ownFields ("trade" :: rest) pat)
  refine ⟨?_, ?_, ?_, ?_⟩
  · intro aid oid
    cases rest with
    | nil => simp [inferObjectKeyFromSegments]
    | cons acct rest => simp [inferObjectKeyFromSegments, tradeObjectKey_order]
  · intro fld
    cases rest with
    | nil => rfl
    | cons acct rest =>
      have alt := tradeObjectKey_ne_sessionReconnect acct rest
      simp [inferObjectKeyFromSegments, preservesNullField, alt]
  · intro fld mem
    rw [nodeFields_trade, perm.mem_iff] at mem
    obtain ⟨ent, own, rfl⟩ := mem_map.mp mem
    have raw := (mem_filter.mp own).2
    simp only [Bool.and_eq_true, Bool.not_eq_true'] at raw
    exact raw.1
  · dsimp only
    rw [nodeFields_trade, (perm.map _).nodup_iff]
    exact ownFields_names_nodup _ srt

/-- Scalars get a path of their own at the root of the tree and below an account. -/
theorem emitsScalarLeaf_iff {fld : String} :
    emitsScalarLeaf path fld = true ↔
      path = [] ∧ (fld = "ins_list" ∨ fld = "mdhis_more_data") ∨
        ∃ acc, path = ["trade", acc] ∧ fld = "trade_more_data" := by
  unfold emitsScalarLeaf
  split <;> simp_all

theorem tradeShaped_scalarLeaf {fld : String} (leaf : emitsScalarLeaf path fld = true)
    (scalar : value.isObject = false) (src : MutationSource) :
    TradeShaped (scalarLeaf src path fld value) := by
  have unkeyed : inferObjectKeyFromSegments path = none := by
    rcases emitsScalarLeaf_iff.mp leaf with ⟨rfl, -⟩ | ⟨acct, rfl, -⟩ <;> rfl
  refine ⟨?_, ?_, ?_, ?_⟩
  · intro aid oid
    simp only [scalarLeaf, unkeyed]
    rcases emitsScalarLeaf_iff.mp leaf with ⟨rfl, -⟩ | ⟨acct, rfl, rfl⟩ <;> simp
  · intro name
    simp [scalarLeaf, unkeyed, preservesNullField]
  · intro put mem
    rw [mem_singleton.mp mem]
    exact scalar
  · simp [scalarLeaf]

mutual

theorem flattenChildren_tradeShaped (src : MutationSource) (path : List PathSegment) :
    ∀ pat : List (String × Value), (∀ ent ∈ pat, ent.2.Wf) →
      ∀ mu ∈ flattenChildren src path pat,
        mu.path.head? = some "trade" → TradeShaped mu
  | [], _ => by
      intro mu mem
      rw [flattenChildren] at mem
      cases mem
  | (key, value) :: rest, wf => by
      intro mu mem
      rw [flattenChildren, mem_append] at mem
      rcases mem with here | later
      · exact flattenMember_tradeShaped src path key value (wf _ mem_cons_self)
          mu here
      · exact flattenChildren_tradeShaped src path rest
          (fun ent mem => wf ent (mem_cons_of_mem _ mem)) mu later

theorem flattenMember_tradeShaped (src : MutationSource) (path : List PathSegment)
    (key : String) : ∀ value : Value, value.Wf →
      ∀ mu ∈ flattenMember src path key value, mu.path.head? = some "trade" → TradeShaped mu
  | .object patch, wf => by
      intro mu mem lt
      obtain ⟨srt, vals⟩ := wf_object.mp wf
      rw [flattenMember, mem_append] at mem
      rcases mem with here | later
      · have shape := mem_flattenFields (by simp) here
        subst shape
        obtain ⟨rest, all⟩ := head?_eq_some_iff.mp lt
        dsimp only at all
        rw [all]
        exact tradeShaped_node rest srt src
      · exact flattenChildren_tradeShaped src (path ++ [key]) patch vals mu later lt
  | .null, _ | .bool _, _ | .number _, _ | .string _, _ | .array _, _ => by
      intro mu mem _
      unfold flattenMember at mem
      split at mem
      · rename_i leaf
        rw [mem_singleton.mp mem]
        exact tradeShaped_scalarLeaf leaf rfl src
      · cases mem

end

theorem tradeShaped_rootDelete (root : String) (src : MutationSource) :
    TradeShaped ⟨[root], none, [⟨"value", .null⟩], src⟩ :=
  ⟨by simp, fun _ => rfl, by simp [isObject], by simp⟩

theorem decodeJsonValue_tradeShaped (wf : value.Wf) (src : MutationSource) :
    ∀ mu ∈ decodeJsonValue value src [],
      mu.path.head? = some "trade" → TradeShaped mu := by
  intro mu mem lt
  cases value with
  | object pat =>
    rcases mem_append.mp mem with own | later
    · simp only [flattenFields, isEmpty_nil, Bool.not_true, Bool.false_and,
        Bool.false_eq_true, if_false, if_true, mem_map] at own
      obtain ⟨fld, -, rfl⟩ := own
      exact tradeShaped_rootDelete fld.field src
    · exact flattenChildren_tradeShaped src [] pat (wf_object.mp wf).2 mu later lt
  | null | bool | number | string | array => cases mem

variable (qs : QuoteItems)

theorem decodeItem_tradeReply (base : List PathSegment) (item : Value) :
    decodeItem qs .tradeReply base item = decodeJsonValue item .tradeReply base := by
  cases qs <;> rfl

theorem decodeTradeIoPayload_tradeShaped {ev : IoEvent} (wf : ev.payload.Wf) :
    Decoded.All (fun mu => mu.path.head? = some "trade" → TradeShaped mu)
      (decodeTradeIoPayload qs ev) := by
  unfold decodeTradeIoPayload
  split
  · rename_i value pld
    have document : value.Wf := by
      rw [pld] at wf
      exact wf
    split
    · unfold decodeTradeSettlementQueryReply
      split
      · refine .ok (decodeJsonValue_tradeShaped ?_ _)
        simp only [OrdMap.Sorted, Wf, WfFields, pairwise_singleton, pairwise_pair,
          and_true, true_and]
        decide
      · exact .nil
    · apply decodeJsonEnvelope_all
      · intro data hit item mem
        rw [decodeItem_tradeReply]
        apply decodeJsonValue_tradeShaped
        obtain ⟨array, got, its⟩ := Option.bind_eq_some_iff.mp hit
        cases value with
        | object flds =>
          cases array with
          | array elements =>
            cases its
            exact wf_array.mp (document.get? got) item mem
          | null | bool | number | string | object => cases its
        | null | bool | number | string | array => cases got
      · exact decodeJsonValue_tradeShaped document _
  · exact .nil
  · exact .nil

/-! ## What a call decodes -/

/-- What is known of every decoded mutation with a trade source: its shape below `trade`, and
that the trade domain took part. -/
def TradeDecoded (domains : List ProtocolDomain) (mutation : NormalizedMutation) : Prop :=
  mutation.source = .tradeReply →
    .trade ∈ domains ∧ (mutation.path.head? = some "trade" → TradeShaped mutation)

theorem ProtocolAdapter.decode_trade (adp : ProtocolAdapter) {inp : RuntimeInput} (wf : inp.Wf) :
    Decoded.All (TradeDecoded (inputDomains inp)) (adp.decode qs inp) := by
  have srcs := adp.decode_source qs inp
  intro mus dec mu mem src
  have mark : mu.source = adp.source := srcs mus dec mu mem
  rw [src] at mark
  have td : adp = .trade := by
    cases adp <;> first | rfl | cases mark
  subst td
  cases inp with
  | io ev =>
    simp only [decode] at dec
    split at dec
    · rename_i dom
      exact ⟨contains_iff_mem.mp dom, decodeTradeIoPayload_tradeShaped qs wf mus dec mu mem⟩
    · cases dec
      cases mem
  | timer | auth | internal | replay =>
    cases dec
    cases mem

theorem AdapterRegistry.decodeAll_trade {inp : RuntimeInput} (wf : inp.Wf)
    (adps : List ProtocolAdapter) :
    Decoded.All (TradeDecoded (inputDomains inp)) (decodeAll qs inp adps) := by
  induction adps with
  | nil => exact .nil
  | cons adp adps ih => exact .append (adp.decode_trade qs wf) ih

end Tqsdk
