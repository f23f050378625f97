import Tqsdk.State.Store

/-!
# Decoding inputs into mutations

`adapter/common.rs`.  A document is cut into mutations, one for the scalar members of every
object of it.  There are a borrowed and an owned decoder, each with a fast path for items
that only carry quotes.
-/

namespace Tqsdk

/-! ## Row ids and object keys -/

/-- The digits of a decimal number, at least one. -/
def parseDigits (digits : List Char) : Option Nat :=
  if digits.isEmpty || !digits.all Char.isDigit then none
  else some (digits.foldl (fun n c => 10 * n + (c.toNat - '0'.toNat)) 0)

/-- `str::parse::<i64>`: an optional sign, digits, and a value in range. -/
def parseI64 (text : String) : Option Int :=
  match text.toList with
  | '-' :: digits => (parseDigits digits).bind fun n => if n ≤ 2 ^ 63 then some (-n) else none
  | '+' :: digits => (parseDigits digits).bind fun n => if n < 2 ^ 63 then some n else none
  | digits => (parseDigits digits).bind fun n => if n < 2 ^ 63 then some n else none

def marketDataRowId : List PathSegment → Option Int
  | [root, _, _, branch, rowId] =>
    if root == "klines" && branch == "data" then parseI64 rowId else none
  | [root, _, branch, rowId] =>
    if root == "ticks" && branch == "data" then parseI64 rowId else none
  | _ => none

def klineKey (symbol duration barId : String) : Option ObjectKey := do
  let durationNs ← parseI64 duration
  let barId ← parseI64 barId
  return .kline ⟨symbol, [], durationNs, 0, none⟩ barId

def tickKey (symbol tickId : String) : Option ObjectKey := do
  let tickId ← parseI64 tickId
  return .tick symbol tickId

/-- The keys below `trade`. -/
def tradeObjectKey (accountId : String) : List PathSegment → Option ObjectKey
  | ["accounts", _] => some (.account accountId)
  | ["session"] => some (.tradeSession accountId)
  | ["risk_management_rule", exchangeId] => some (.riskManagementRule accountId exchangeId)
  | ["risk_management_data", symbol] => some (.riskManagementData accountId symbol)
  | ["positions", symbol] => some (.position accountId symbol)
  | ["pre_insert_orders", orderId] => some (.preInsertOrder accountId orderId)
  | ["orders", orderId] => some (.order accountId orderId)
  | ["trades", tradeId] => some (.trade accountId tradeId)
  | ["his_settlements", tradingDay] => some (.settlement accountId tradingDay)
  | _ => none

/-- The keys below `system`. -/
def systemObjectKey : List PathSegment → Option ObjectKey
  | ["notify", notificationId] => some (.notification notificationId)
  | ["auth", "context"] => some .sessionAuth
  | ["session", "lifecycle"] => some .sessionLifecycle
  | ["session", "topology"] => some .sessionTopology
  | ["session", "reconnect"] => some .sessionReconnect
  | _ => none

/-- `infer_object_key_from_segments`.  The arms of the source differ in the root they ask
for, so they are grouped by it. -/
def inferObjectKeyFromSegments : List PathSegment → Option ObjectKey
  | "quotes" :: rest =>
    match rest with
    | [symbol] => some (.quote symbol)
    | _ => none
  | "trading_status" :: rest =>
    match rest with
    | [symbol] => some (.tradingStatus symbol)
    | _ => none
  | "charts" :: rest =>
    match rest with
    | [chartId] => some (.chart chartId)
    | _ => none
  | "klines" :: rest =>
    match rest with
    | [symbol, duration, barId] => klineKey symbol duration barId
    | [symbol, duration, "data", barId] => klineKey symbol duration barId
    | _ => none
  | "ticks" :: rest =>
    match rest with
    | [symbol, tickId] => tickKey symbol tickId
    | [symbol, "data", tickId] => tickKey symbol tickId
    | _ => none
  | "trade" :: rest =>
    match rest with
    | accountId :: rest => tradeObjectKey accountId rest
    | [] => none
  | "query" :: rest =>
    match rest with
    | queryId :: _ => some (.queryResult queryId)
    | [] => none
  | "schema" :: rest =>
    match rest with
    | schemaId :: _ => some (.schemaNode schemaId)
    | [] => none
  | "replay" :: rest =>
    match rest with
    | sessionId :: _ => some (.replayCursor sessionId)
    | [] => none
  | "notify" :: rest =>
    match rest with
    | [notificationId] => some (.notification notificationId)
    | _ => none
  | "system" :: rest => systemObjectKey rest
  | _ => none

/-! ## Cutting an object into mutations -/

def emitsScalarLeaf (path : List PathSegment) (field : String) : Bool :=
  match path with
  | [] => field == "ins_list" || field == "mdhis_more_data"
  | [root, _] => root == "trade" && field == "trade_more_data"
  | _ => false

def emitsRootDelete (field : String) (value : Value) (source : MutationSource) : Bool :=
  value.isNull &&
    match source with
    | .marketDiff =>
      ["quotes", "trading_status", "charts", "klines", "ticks"].contains field
    | .tradeReply => field == "trade"
    | .queryResult => field == "query"
    | .schemaBootstrap => field == "schema"
    | .replayStep => field == "replay"
    | .sessionControl => field == "system" || field == "runtime"

def injectMarketDataRowId (path : List PathSegment) (fields : List FieldMutation) :
    List FieldMutation :=
  if fields.any (·.field == "id") then fields
  else
    match marketDataRowId path with
    | none => fields
    | some id => sortFieldMutations (fields ++ [⟨"id", .ofI64 id⟩])

/-- The mutations `flatten_object` emits for the object itself, from the members that are
its own fields. -/
def flattenFields (source : MutationSource) (path : List PathSegment) (isEmpty : Bool)
    (fields : List FieldMutation) : List NormalizedMutation :=
  let fields := injectMarketDataRowId path (sortFieldMutations fields)
  if !path.isEmpty && !fields.isEmpty then
    [⟨path, inferObjectKeyFromSegments path, fields, source⟩]
  else if !path.isEmpty && isEmpty then
    [⟨path, inferObjectKeyFromSegments path, [], source⟩]
  else if path.isEmpty then
    (fields.filter fun field => emitsRootDelete field.field field.value source).map
      fun field => ⟨[field.field], none, [⟨"value", .null⟩], source⟩
  else []

/-- The mutation of a scalar that gets a path of its own. -/
def scalarLeaf (source : MutationSource) (path : List PathSegment) (field : String)
    (value : Value) : NormalizedMutation :=
  ⟨path ++ [field], inferObjectKeyFromSegments path, [⟨"value", value⟩], source⟩

/-- The members of an object that are fields of it: no objects, no scalar leaves. -/
def ownFields (path : List PathSegment) (map : Fields) : List FieldMutation :=
  (map.filter fun entry => !entry.2.isObject && !emitsScalarLeaf path entry.1).map
    fun entry => ⟨entry.1, entry.2⟩

mutual

/-- The loop of `flatten_object` over the members of a map. -/
def flattenChildren (source : MutationSource) (path : List PathSegment) :
    List (String × Value) → List NormalizedMutation
  | [] => []
  | (field, value) :: rest =>
    flattenMember source path field value ++ flattenChildren source path rest

def flattenMember (source : MutationSource) (path : List PathSegment) (field : String) :
    Value → List NormalizedMutation
  | .object child =>
    flattenFields source (path ++ [field]) child.isEmpty (ownFields (path ++ [field]) child) ++
      flattenChildren source (path ++ [field]) child
  | value => if emitsScalarLeaf path field then [scalarLeaf source path field value] else []

end

def flattenObject (source : MutationSource) (path : List PathSegment) (map : Fields) :
    List NormalizedMutation :=
  flattenFields source path map.isEmpty (ownFields path map) ++ flattenChildren source path map

/-- The first loop of `flatten_object_owned`, which moves every member to its fields or to
its children. -/
def splitOwned (path : List PathSegment) : Fields → List FieldMutation × Fields
  | [] => ([], [])
  | (field, value) :: rest =>
    let (fields, children) := splitOwned path rest
    if value.isObject || emitsScalarLeaf path field then (fields, (field, value) :: children)
    else (⟨field, value⟩ :: fields, children)

mutual

/-- The second loop of `flatten_object_owned`.  It runs over the children that the first
one set aside, which are in map order: the members that were not set aside are skipped. -/
def flattenChildrenOwned (source : MutationSource) (path : List PathSegment) :
    List (String × Value) → List NormalizedMutation
  | [] => []
  | (field, value) :: rest =>
    (if value.isObject || emitsScalarLeaf path field then
      flattenChildOwned source path field value
    else []) ++ flattenChildrenOwned source path rest

def flattenChildOwned (source : MutationSource) (path : List PathSegment) (field : String) :
    Value → List NormalizedMutation
  | .object child =>
    flattenFields source (path ++ [field]) child.isEmpty
        (splitOwned (path ++ [field]) child).1 ++
      flattenChildrenOwned source (path ++ [field]) child
  | value => [scalarLeaf source path field value]

end

def flattenObjectOwned (source : MutationSource) (path : List PathSegment) (map : Fields) :
    List NormalizedMutation :=
  flattenFields source path map.isEmpty (splitOwned path map).1 ++
    flattenChildrenOwned source path map

def decodeJsonValue (value : Value) (source : MutationSource) (base : List PathSegment) :
    List NormalizedMutation :=
  match value with
  | .object map => flattenObject source base map
  | value => if base.isEmpty then [] else [⟨base, none, [⟨"value", value⟩], source⟩]

def decodeJsonValueOwned (value : Value) (source : MutationSource) (base : List PathSegment) :
    List NormalizedMutation :=
  match value with
  | .object map => flattenObjectOwned source base map
  | value => if base.isEmpty then [] else [⟨base, none, [⟨"value", value⟩], source⟩]

/-! ## The quote fast path -/

def marketQuoteRtnDataItemQuotes (value : Value) (source : MutationSource)
    (base : List PathSegment) : Option Fields :=
  if source != .marketDiff || !base.isEmpty then none
  else
    match value with
    | .object [("quotes", .object quotes)] => some quotes
    | _ => none

/-- Some quote is no object, or has a member that is one. -/
def leavesQuoteShape (quotes : Fields) : Bool :=
  quotes.any fun entry =>
    match entry.2 with
    | .object fields => fields.any fun field => field.2.isObject
    | _ => true

/-- One quote of the fast path; the shape was checked before. -/
def quoteMutation (entry : String × Value) : NormalizedMutation :=
  { path := ["quotes", entry.1]
    object := some (.quote entry.1)
    fields := sortFieldMutations (entry.2.entries.map fun field => ⟨field.1, field.2⟩)
    source := .marketDiff }

def decodeQuoteObjectFastPath (quotes : Fields) : Option (List NormalizedMutation) :=
  if leavesQuoteShape quotes then none else some (quotes.map quoteMutation)

def decodeMarketQuoteRtnDataItem (value : Value) (source : MutationSource)
    (base : List PathSegment) : Option (List NormalizedMutation) :=
  (marketQuoteRtnDataItemQuotes value source base).bind decodeQuoteObjectFastPath

/-- `decode_quote_object_fast_path_owned` behind its shape check; `none` gives the item
back. -/
def decodeMarketQuoteRtnDataItemOwned (value : Value) (source : MutationSource)
    (base : List PathSegment) : Option (List NormalizedMutation) :=
  match marketQuoteRtnDataItemQuotes value source base with
  | none => none
  | some quotes => if leavesQuoteShape quotes then none else some (quotes.map quoteMutation)

/-! ## Envelopes -/

inductive DiffInboundAid
  | rtnData | qrySettlementInfo | unknown
  deriving DecidableEq

def DiffInboundAid.ofValue (value : Value) : DiffInboundAid :=
  match (value.get "aid").bind Value.asStr with
  | some "rtn_data" => .rtnData
  | some "qry_settlement_info" => .qrySettlementInfo
  | _ => .unknown

/-- Whether the items of a packet may take the quote fast path.  The source decodes with
`fastPath`; `flattened` sends every item through `flatten_object`. -/
inductive QuoteItems
  | fastPath | flattened
  deriving DecidableEq

def rtnDataError : ContractError := .adapter "rtn_data.data must be an array"

def decodeItem (quotes : QuoteItems) (source : MutationSource) (base : List PathSegment)
    (item : Value) : List NormalizedMutation :=
  match quotes with
  | .fastPath =>
    (decodeMarketQuoteRtnDataItem item source base).getD (decodeJsonValue item source base)
  | .flattened => decodeJsonValue item source base

def decodeJsonEnvelope (quotes : QuoteItems) (value : Value) (source : MutationSource)
    (base : List PathSegment) : Except ContractError (List NormalizedMutation) :=
  if DiffInboundAid.ofValue value = .rtnData then
    match (value.get "data").bind Value.asArray with
    | some data => .ok (data.flatMap (decodeItem quotes source base))
    | none => .error rtnDataError
  else .ok (decodeJsonValue value source base)

def decodeItemOwned (source : MutationSource) (base : List PathSegment) (item : Value) :
    List NormalizedMutation :=
  match decodeMarketQuoteRtnDataItemOwned item source base with
  | some decoded => decoded
  | none => decodeJsonValueOwned item source base

def decodeJsonEnvelopeOwned (value : Value) (source : MutationSource)
    (base : List PathSegment) : Except ContractError (List NormalizedMutation) :=
  if DiffInboundAid.ofValue value = .rtnData then
    match value with
    | .object envelope =>
      match OrdMap.get? "data" envelope with
      | some (.array data) => .ok (data.flatMap (decodeItemOwned source base))
      | _ => .error rtnDataError
    | _ => .error rtnDataError
  else .ok (decodeJsonValueOwned value source base)

end Tqsdk
