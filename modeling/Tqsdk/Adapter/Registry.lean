import Tqsdk.Adapter.Common

/-!
# The protocol adapters and their registry

The six adapters of `register_default_adapters`, which inputs each of them accepts and how
it decodes them, and the two entry points of the registry.
-/

namespace Tqsdk

/-! ## Inputs -/

inductive InputPayload
  | json (value : Value)
  | text (text : String)
  | binary (bytes : List UInt8)
  deriving DecidableEq

structure IoEvent where
  route : String
  domains : List ProtocolDomain
  payload : InputPayload
  deriving DecidableEq

/-- `TimerEvent`, `AuthEvent` and `InternalEvent`. -/
structure NamedPayloadEvent where
  label : String
  payload : Option Value
  deriving DecidableEq

structure ReplayEvent where
  label : String
  sessionId : Option ReplaySessionId
  payload : Option Value
  deriving DecidableEq

inductive RuntimeInput
  | io (event : IoEvent)
  | timer (event : NamedPayloadEvent)
  | auth (event : NamedPayloadEvent)
  | replay (event : ReplayEvent)
  | internal (event : NamedPayloadEvent)
  deriving DecidableEq

/-! ## Which payloads an adapter looks for

A packet contains a payload when one of its items does, also through packets nested in its
`data`.  `dataMissing` is the answer for a packet without an array of items. -/

mutual

def valueContains (here : Value → Bool) (dataMissing : Bool) : Value → Bool
  | .object fields =>
    if DiffInboundAid.ofValue (.object fields) = .rtnData then
      dataContains here dataMissing fields
    else here (.object fields)
  | value => here value

/-- The `data` member of a packet. -/
def dataContains (here : Value → Bool) (dataMissing : Bool) : List (String × Value) → Bool
  | [] => dataMissing
  | (key, value) :: rest =>
    if key = "data" then itemsContain here dataMissing value
    else dataContains here dataMissing rest

def itemsContain (here : Value → Bool) (dataMissing : Bool) : Value → Bool
  | .array items => anyContains here dataMissing items
  | _ => dataMissing

def anyContains (here : Value → Bool) (dataMissing : Bool) : List Value → Bool
  | [] => false
  | item :: rest => valueContains here dataMissing item || anyContains here dataMissing rest

end

def marketRoots : List String :=
  ["ins_list", "mdhis_more_data", "quotes", "trading_status", "charts", "klines", "ticks"]

def valueContainsMarketPayload (value : Value) : Bool :=
  valueContains (fun value => marketRoots.any fun root => (value.get root).isSome) true value

mutual

/-- `value_contains_trade_payload` asks for a settlement reply at every level. -/
def valueContainsTradePayload : Value → Bool
  | .object fields =>
    if DiffInboundAid.ofValue (.object fields) = .qrySettlementInfo then true
    else if DiffInboundAid.ofValue (.object fields) = .rtnData then
      tradeDataContains fields
    else (OrdMap.get? "trade" fields).isSome
  | _ => false

def tradeDataContains : List (String × Value) → Bool
  | [] => true
  | (key, value) :: rest =>
    if key = "data" then tradeItemsContain value else tradeDataContains rest

def tradeItemsContain : Value → Bool
  | .array items => anyTradePayload items
  | _ => true

def anyTradePayload : List Value → Bool
  | [] => false
  | item :: rest => valueContainsTradePayload item || anyTradePayload rest

end

def valueContainsNotifyPayload (value : Value) : Bool :=
  valueContains (fun value => (value.get "notify").isSome) false value

mutual

/-- `value_contains_query_payload` looks for a query id or symbols before it looks at the
kind of packet. -/
def valueContainsQueryPayload : Value → Bool
  | .object fields =>
    if ((OrdMap.get? "query_id" fields).bind Value.asStr).isSome ||
        (OrdMap.get? "symbols" fields).isSome then true
    else if DiffInboundAid.ofValue (.object fields) = .rtnData then queryDataContains fields
    else false
  | _ => false

def queryDataContains : List (String × Value) → Bool
  | [] => true
  | (key, value) :: rest =>
    if key = "data" then queryItemsContain value else queryDataContains rest

def queryItemsContain : Value → Bool
  | .array items => anyQueryPayload items
  | _ => true

def anyQueryPayload : List Value → Bool
  | [] => false
  | item :: rest => valueContainsQueryPayload item || anyQueryPayload rest

end

/-- The JSON payload of an event satisfies `contains`; text and bytes never do. -/
def IoEvent.jsonContains (contains : Value → Bool) (event : IoEvent) : Bool :=
  match event.payload with
  | .json value => contains value
  | _ => false

def isMarketIoEvent : IoEvent → Bool := IoEvent.jsonContains valueContainsMarketPayload
def isTradeIoEvent : IoEvent → Bool := IoEvent.jsonContains valueContainsTradePayload
def isNotifyIoEvent : IoEvent → Bool := IoEvent.jsonContains valueContainsNotifyPayload
def isQueryIoEvent : IoEvent → Bool := IoEvent.jsonContains valueContainsQueryPayload

/-! ## Decoders of the adapters -/

abbrev Decoded := Except ContractError (List NormalizedMutation)

def decodeNamedPayload (base : List PathSegment) (event : NamedPayloadEvent)
    (source : MutationSource) : Decoded :=
  let path := base ++ [event.label]
  match event.payload with
  | some (.object map) => .ok (decodeJsonValue (.object map) source path)
  | some value => .ok [⟨path, none, [⟨"value", value⟩], source⟩]
  | none => .ok [⟨path.dropLast, none, [⟨"event", .string event.label⟩], source⟩]

def decodeReplayPayload (event : ReplayEvent) : Decoded :=
  let base := ["replay", event.sessionId.getD event.label]
  match event.payload with
  | some payload => .ok (decodeJsonValue payload .replayStep base)
  | none => .ok [⟨base, none, [⟨"event", .string event.label⟩], .replayStep⟩]

def decodeIoPayload (quotes : QuoteItems) (event : IoEvent) (source : MutationSource)
    (base : List PathSegment) : Decoded :=
  match event.payload with
  | .json value => decodeJsonEnvelope quotes value source base
  | .text _ | .binary _ => .ok []

def decodeIoPayloadOwned (event : IoEvent) (source : MutationSource)
    (base : List PathSegment) : Decoded :=
  match event.payload with
  | .json value => decodeJsonEnvelopeOwned value source base
  | .text _ | .binary _ => .ok []

def decodeSystemIoPayload (quotes : QuoteItems) (event : IoEvent) : Decoded :=
  decodeIoPayload quotes event .sessionControl ["system"]

def notifyMutations (value : Value) : List NormalizedMutation :=
  match value.get "notify" with
  | none => []
  | some notify => decodeJsonValue (.object [("notify", notify)]) .sessionControl ["system"]

def decodeNotifyEnvelope (value : Value) : Decoded :=
  if DiffInboundAid.ofValue value = .rtnData then
    match (value.get "data").bind Value.asArray with
    | some data => .ok (data.flatMap notifyMutations)
    | none => .ok []
  else .ok (notifyMutations value)

def decodeNotifyIoPayload (event : IoEvent) : Decoded :=
  match event.payload with
  | .json value => decodeNotifyEnvelope value
  | .text _ | .binary _ => .ok []

/-- The members of a query reply: its data, and its errors and extensions if there are. -/
def queryReplyFields (value : Value) : Fields :=
  let fields : Fields :=
    match value.get "data" with
    | some (.object map) => map.foldl (fun fields entry => OrdMap.insert entry.1 entry.2 fields) []
    | some other => OrdMap.insert "data" other []
    | none => []
  let fields :=
    match value.get "errors" with
    | some errors => OrdMap.insert "errors" errors fields
    | none => fields
  match value.get "extensions" with
  | some extensions => OrdMap.insert "extensions" extensions fields
  | none => fields

def decodeQueryValue (value : Value) : List NormalizedMutation :=
  match (value.get "query_id").bind Value.asStr with
  | some queryId =>
    decodeJsonValue (.object [(queryId, .object (queryReplyFields value))]) .queryResult
      ["query"]
  | none =>
    match value.get "symbols" with
    | some symbols => decodeJsonValue symbols .queryResult ["query"]
    | none => decodeJsonValue value .queryResult ["query"]

def decodeQueryEnvelope (value : Value) : Decoded :=
  if DiffInboundAid.ofValue value = .rtnData then
    match (value.get "data").bind Value.asArray with
    | some data => .ok (data.flatMap decodeQueryValue)
    | none => .error rtnDataError
  else .ok (decodeQueryValue value)

def decodeQueryIoPayload (event : IoEvent) : Decoded :=
  match event.payload with
  | .json value => decodeQueryEnvelope value
  | .text _ | .binary _ => .ok []

def decodeTradeSettlementQueryReply (value : Value) : Decoded :=
  match (value.get "user_name").bind Value.asStr, (value.get "trading_day").bind Value.asStr,
      (value.get "settlement_info").bind Value.asStr with
  | some userName, some tradingDay, some settlementInfo =>
    let content : Value :=
      .object [("content", .string settlementInfo), ("parsed", .bool false)]
    .ok (decodeJsonValue
      (.object [("trade", .object [(userName, .object [("his_settlements",
        .object [(tradingDay, content)])])])]) .tradeReply [])
  | _, _, _ => .ok []

def decodeTradeIoPayload (quotes : QuoteItems) (event : IoEvent) : Decoded :=
  match event.payload with
  | .json value =>
    if DiffInboundAid.ofValue value = .qrySettlementInfo then
      decodeTradeSettlementQueryReply value
    else decodeJsonEnvelope quotes value .tradeReply []
  | .text _ | .binary _ => .ok []

/-- The document a schema event carries: its data, or itself without the schema id. -/
def schemaPayload (value : Value) : Value :=
  match value.get "data" with
  | some data => data
  | none =>
    match (value.get "schema_id").bind Value.asStr, value with
    | some _, .object fields => .object (OrdMap.erase "schema_id" fields)
    | _, value => value

def decodeSchemaIoPayload (quotes : QuoteItems) (event : IoEvent) : Decoded :=
  match event.payload with
  | .json value =>
    let schemaId := ((value.get "schema_id").bind Value.asStr).getD event.route
    decodeJsonEnvelope quotes (schemaPayload value) .schemaBootstrap ["schema", schemaId]
  | .text _ | .binary _ => .ok []

/-! ## Adapters -/

inductive ProtocolAdapter
  | system | market | trade | replay | query | schema
  deriving DecidableEq

namespace ProtocolAdapter

def acceptsInput : ProtocolAdapter → RuntimeInput → Bool
  | .system, .auth _ | .system, .timer _ | .system, .internal _ => true
  | .system, .io event => event.domains.contains .system || isNotifyIoEvent event
  | .market, .io event => event.domains.contains .market && isMarketIoEvent event
  | .trade, .io event => event.domains.contains .trade && isTradeIoEvent event
  | .replay, .replay _ => true
  | .query, .io event => event.domains.contains .query && isQueryIoEvent event
  | .schema, .io event => event.domains.contains .schema
  | _, _ => false

def decode (quotes : QuoteItems) : ProtocolAdapter → RuntimeInput → Decoded
  | .system, .auth event => decodeNamedPayload ["system", "auth"] event .sessionControl
  | .system, .timer event => decodeNamedPayload ["system", "timers"] event .sessionControl
  | .system, .internal event => decodeNamedPayload ["system", "internal"] event .sessionControl
  | .system, .io event =>
    if event.domains.contains .system then decodeSystemIoPayload quotes event
    else if isNotifyIoEvent event then decodeNotifyIoPayload event
    else .ok []
  | .market, .io event =>
    if event.domains.contains .market then decodeIoPayload quotes event .marketDiff []
    else .ok []
  | .trade, .io event =>
    if event.domains.contains .trade then decodeTradeIoPayload quotes event else .ok []
  | .replay, .replay event => decodeReplayPayload event
  | .query, .io event =>
    if event.domains.contains .query then decodeQueryIoPayload event else .ok []
  | .schema, .io event =>
    if event.domains.contains .schema then decodeSchemaIoPayload quotes event else .ok []
  | _, _ => .ok []

/-- Only the market adapter has an owned decoder of its own. -/
def decodeOwned : ProtocolAdapter → RuntimeInput → Decoded
  | .market, .io event =>
    if event.domains.contains .market then decodeIoPayloadOwned event .marketDiff []
    else .ok []
  | adapter, input => adapter.decode .fastPath input

end ProtocolAdapter

/-! ## The registry -/

abbrev AdapterRegistry := List ProtocolAdapter

namespace AdapterRegistry

def defaultAdapters : AdapterRegistry := [.system, .market, .trade, .replay, .query, .schema]

/-- Decoding by every adapter in turn; the first error ends it. -/
def decodeAll (quotes : QuoteItems) (input : RuntimeInput) : List ProtocolAdapter → Decoded
  | [] => .ok []
  | adapter :: rest => do
      let decoded ← adapter.decode quotes input
      let later ← decodeAll quotes input rest
      return decoded ++ later

def decodeInput (quotes : QuoteItems) (adapters : AdapterRegistry) (input : RuntimeInput) :
    Decoded :=
  decodeAll quotes input (adapters.filter fun adapter => adapter.acceptsInput input)

def decodeInputOwned (adapters : AdapterRegistry) (input : RuntimeInput) : Decoded :=
  match adapters.filter fun adapter => adapter.acceptsInput input with
  | [] => .ok []
  | [adapter] => adapter.decodeOwned input
  | _ => decodeInput .fastPath adapters input

end AdapterRegistry

end Tqsdk
