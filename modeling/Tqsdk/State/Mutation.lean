import Mathlib.Data.List.Sort
import Tqsdk.Json

/-!
# Mutations of the state tree

The vocabulary shared by the protocol adapters, which cut an input into mutations, and by
the store, which applies them: `ids.rs`, `events.rs` and `state/path.rs`.
-/

namespace Tqsdk

abbrev Revision := Nat
abbrev CommandId := Nat
abbrev CursorId := Nat
abbrev AccountId := String
abbrev OrderId := String
abbrev TradeId := String
abbrev QueryId := String
abbrev SchemaId := String
abbrev ReplaySessionId := String
abbrev ChartId := String
abbrev NotificationId := String
abbrev Symbol := String
abbrev PathSegment := String

/-- A path of the state tree, from its root. -/
abbrev StatePath := List PathSegment

inductive ProtocolDomain
  | system | market | trade | replay | query | schema
  deriving DecidableEq

def ProtocolDomain.asStr : ProtocolDomain → String
  | .system => "system"
  | .market => "market"
  | .trade => "trade"
  | .replay => "replay"
  | .query => "query"
  | .schema => "schema"

structure SeriesKey where
  primary : Symbol
  secondary : List Symbol
  durationNs : Int
  viewWidth : Nat
  rightId : Option Int
  deriving DecidableEq

inductive ObjectKey
  | sessionAuth
  | sessionLifecycle
  | sessionTopology
  | sessionReconnect
  | quote (symbol : Symbol)
  | kline (series : SeriesKey) (barId : Int)
  | tick (symbol : Symbol) (tickId : Int)
  | tradingStatus (symbol : Symbol)
  | chart (chartId : ChartId)
  | command (commandId : CommandId)
  | account (accountId : AccountId)
  | tradeSession (accountId : AccountId)
  | riskManagementRule (accountId : AccountId) (exchangeId : String)
  | riskManagementData (accountId : AccountId) (symbol : Symbol)
  | position (accountId : AccountId) (symbol : Symbol)
  | preInsertOrder (accountId : AccountId) (orderId : OrderId)
  | order (accountId : AccountId) (orderId : OrderId)
  | trade (accountId : AccountId) (tradeId : TradeId)
  | settlement (accountId : AccountId) (tradingDay : String)
  | queryResult (queryId : QueryId)
  | schemaNode (schemaId : SchemaId)
  | replayCursor (sessionId : ReplaySessionId)
  | notification (notificationId : NotificationId)
  deriving DecidableEq

inductive MutationSource
  | marketDiff | tradeReply | queryResult | schemaBootstrap | replayStep | sessionControl
  deriving DecidableEq

/-- One field write; a `null` value asks for the field's removal. -/
structure FieldMutation where
  field : String
  value : Value
  deriving DecidableEq

/-- A write of several fields of the object at one path. -/
structure NormalizedMutation where
  path : StatePath
  object : Option ObjectKey
  fields : List FieldMutation
  source : MutationSource
  deriving DecidableEq

/-- The values a mutation carries are documents. -/
def NormalizedMutation.Wf (mutation : NormalizedMutation) : Prop :=
  ∀ field ∈ mutation.fields, field.value.Wf

/-- `fields.sort_by(|left, right| left.field.cmp(&right.field))`, a stable sort. -/
def sortFieldMutations (fields : List FieldMutation) : List FieldMutation :=
  fields.insertionSort fun left right => left.field ≤ right.field

/-! ## Which source may write which root -/

/-- `mutation_source_allows_root`. -/
def MutationSource.allowsRoot : MutationSource → String → Bool
  | .marketDiff, root =>
    ["ins_list", "mdhis_more_data", "symbols", "quotes", "trading_status", "charts",
      "klines", "ticks"].contains root
  | .tradeReply, root => root == "trade"
  | .queryResult, root => root == "query"
  | .schemaBootstrap, root => root == "schema"
  | .replayStep, root => root == "replay"
  | .sessionControl, root => root == "system" || root == "runtime"

/-- `mutation_source_label`. -/
def MutationSource.label : MutationSource → String
  | .marketDiff => "market"
  | .tradeReply => "trade"
  | .queryResult => "query"
  | .schemaBootstrap => "schema"
  | .replayStep => "replay"
  | .sessionControl => "session control"

/-- `ContractError`, with the texts its variants carry. -/
inductive ContractError
  | validation (message : String)
  | auth (message : String)
  | transport (message : String)
  | http (message : String)
  | httpStatus (status : Nat) (retryAfterSecs : Option Nat)
  | adapter (message : String)
  | unsupportedCommand (domain : String)
  | unsupportedInput (domain : String)
  deriving DecidableEq

/-- `validate_mutation_domains`: every mutation writes a root its source owns. -/
def validateMutationDomains : List NormalizedMutation → Except ContractError Unit
  | [] => .ok ()
  | mutation :: rest =>
    match mutation.path with
    | [] => .error (.validation
        (mutation.source.label ++ " mutation cannot write an empty state path"))
    | root :: _ =>
      if mutation.source.allowsRoot root then validateMutationDomains rest
      else .error (.validation
        (mutation.source.label ++ " mutation cannot write state root `" ++ root ++ "`"))

/-- What an accepted batch looks like: every path starts with a root of its source. -/
theorem validateMutationDomains_ok_iff {muts : List NormalizedMutation} :
    validateMutationDomains muts = .ok () ↔
      ∀ m ∈ muts, ∃ root rest, m.path = root :: rest ∧ m.source.allowsRoot root = true := by
  induction muts with
  | nil => simp [validateMutationDomains]
  | cons m muts ih =>
    rw [validateMutationDomains]
    cases path : m.path with
    | nil => simp [path]
    | cons root rest =>
      by_cases may : m.source.allowsRoot root = true
      · simp [may, ih, path]
      · simp [may, path]

end Tqsdk
