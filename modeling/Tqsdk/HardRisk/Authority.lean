import Tqsdk.Lib.Table
import Tqsdk.Runtime.OrderLifecycle

/-!
# The hard-risk authority

`tqsdk-hard-risk`: the durable admission of orders.  Every call of `HardRiskAuthority` opens one
immediate SQLite transaction, so a call is one step on the database here, whichever process
makes it.  A call that returns without a commit has changed nothing, also when it returns `Ok`.

The columns hold the parsed values of what the source stores as text.  The SHA-256 digest and
the debug rendering of a string are parameters, and the wall clock of a call is an input.
-/

namespace Tqsdk

/-! ## Scopes, keys and requests -/

structure HardRiskScope where
  namespace_ : String
  accountId : String
  tradingDay : String
  deriving DecidableEq

structure HardRiskPolicyScope where
  namespace_ : String
  accountId : String
  deriving DecidableEq

def HardRiskScope.policyScope (scope : HardRiskScope) : HardRiskPolicyScope :=
  ⟨scope.namespace_, scope.accountId⟩

structure HardRiskOrderKey where
  namespace_ : String
  accountId : String
  clientOrderId : String
  deriving DecidableEq

def HardRiskOrderKey.display (key : HardRiskOrderKey) : String :=
  "namespace=" ++ key.namespace_ ++ " account_id=" ++ key.accountId ++ " client_order_id=" ++
    key.clientOrderId

inductive HardRiskDirection
  | buy | sell
  deriving DecidableEq

def HardRiskDirection.asSql : HardRiskDirection → String
  | .buy => "Buy"
  | .sell => "Sell"

inductive HardRiskOffset
  | open_ | close | closeToday | closeYesterday
  deriving DecidableEq

namespace HardRiskOffset

def isOpen : HardRiskOffset → Bool
  | .open_ => true
  | _ => false

def asSql : HardRiskOffset → String
  | .open_ => "Open"
  | .close => "Close"
  | .closeToday => "CloseToday"
  | .closeYesterday => "CloseYesterday"

end HardRiskOffset

structure HardRiskOrderRequest where
  scope : HardRiskScope
  clientOrderId : String
  symbol : String
  direction : HardRiskDirection
  offset : HardRiskOffset
  volume : Int
  limitPriceBits : Option Nat
  deriving DecidableEq

def HardRiskOrderRequest.key (request : HardRiskOrderRequest) : HardRiskOrderKey :=
  ⟨request.scope.namespace_, request.scope.accountId, request.clientOrderId⟩

/-! ## Policies -/

inductive HardRiskReservationPolicy
  | countPreparedAttempt
  deriving DecidableEq

def HardRiskReservationPolicy.asSql : HardRiskReservationPolicy → String
  | .countPreparedAttempt => "CountPreparedAttempt"

structure HardRiskPolicy where
  policyId : String
  policyVersion : String
  maxOrderAttempts : Option Int
  maxOpenVolume : Option Int
  reservationPolicy : HardRiskReservationPolicy
  deriving DecidableEq

structure HardRiskPolicyRevision where
  policyId : String
  policyVersion : String
  policyFingerprint : String
  deriving DecidableEq

inductive HardRiskPolicyExpectation
  | absent
  | current (revision : HardRiskPolicyRevision)
  deriving DecidableEq

structure HardRiskPolicyRecord where
  scope : HardRiskPolicyScope
  policy : HardRiskPolicy
  revision : HardRiskPolicyRevision
  activatedAtMs : Int
  deriving DecidableEq

/-- The rule ids `order_attempt` and `open_volume`. -/
inductive HardRiskRule
  | orderAttempt | openVolume
  deriving DecidableEq

structure RuleReservation where
  ruleId : HardRiskRule
  amount : Int
  limit : Int
  deriving DecidableEq

def HardRiskPolicy.ruleRequests (policy : HardRiskPolicy) (request : HardRiskOrderRequest) :
    List RuleReservation :=
  (policy.maxOrderAttempts.map fun limit => (⟨.orderAttempt, 1, limit⟩ : RuleReservation)).toList ++
    if request.offset.isOpen then
      (policy.maxOpenVolume.map fun limit => (⟨.openVolume, request.volume, limit⟩ :
        RuleReservation)).toList
    else []

/-! ## Orders -/

structure HardRiskOrderIdentity where
  key : HardRiskOrderKey
  requestFingerprint : String
  deriving DecidableEq

inductive HardRiskTerminalState
  | filled | cancelled | rejected | failed
  deriving DecidableEq

def HardRiskTerminalState.asSql : HardRiskTerminalState → String
  | .filled => "Filled"
  | .cancelled => "Cancelled"
  | .rejected => "Rejected"
  | .failed => "Failed"

inductive HardRiskOrderState
  | prepared | submitting | submitted | indeterminate
  | terminal (state : HardRiskTerminalState)
  deriving DecidableEq

/-- The text of the `state` column and of the audit events. -/
def HardRiskOrderState.asSql : HardRiskOrderState → String
  | .prepared => "Prepared"
  | .submitting => "Submitting"
  | .submitted => "Submitted"
  | .indeterminate => "Indeterminate"
  | .terminal _ => "Terminal"

structure HardRiskRuntimeReceipt where
  clientOrderId : String
  runtimeRunId : String
  commandId : String
  deriving DecidableEq

structure HardRiskOrderRecord where
  request : HardRiskOrderRequest
  identity : HardRiskOrderIdentity
  policyId : String
  policyVersion : String
  policyFingerprint : String
  reservationPolicy : HardRiskReservationPolicy
  state : HardRiskOrderState
  leaseOwner : Option String
  leaseGeneration : Nat
  leaseExpiresAtMs : Option Int
  runtimeReceipt : Option HardRiskRuntimeReceipt
  terminalRevision : Option Nat
  indeterminateReason : Option String
  createdAtMs : Int
  updatedAtMs : Int
  deriving DecidableEq

def HardRiskOrderRecord.policyRevision (order : HardRiskOrderRecord) : HardRiskPolicyRevision :=
  ⟨order.policyId, order.policyVersion, order.policyFingerprint⟩

structure HardRiskSubmissionPermit where
  request : HardRiskOrderRequest
  identity : HardRiskOrderIdentity
  ownerId : String
  leaseGeneration : Nat
  deriving DecidableEq

structure HardRiskTerminalObservation where
  state : HardRiskTerminalState
  runtimeRevision : Option Nat
  deriving DecidableEq

structure HardRiskCompleteTradeSnapshot where
  scope : HardRiskScope
  runtimeRevision : Nat
  deriving DecidableEq

inductive HardRiskRecoveryReadiness
  | completeTradeSnapshot (snapshot : HardRiskCompleteTradeSnapshot)
  | incompleteTradeSnapshot (scope : HardRiskScope)
  deriving DecidableEq

/-! ## Errors and validation -/

inductive HardRiskError
  | invalidInput (field reason : String)
  | storage (operation reason : String)
  | invalidStoredData (reason : String)
  | identityConflict (key : HardRiskOrderKey)
  | policyNotConfigured (scope : HardRiskPolicyScope)
  | policyConflict (scope : HardRiskPolicyScope) (expected : HardRiskPolicyExpectation)
      (actual : Option HardRiskPolicyRevision)
  | unknownOrder (key : HardRiskOrderKey)
  | limitExceeded (ruleId : HardRiskRule) (used requested limit : Int)
  | leaseFenced (key : HardRiskOrderKey)
  | leaseExpired (key : HardRiskOrderKey)
  | receiptIdentityMismatch (key : HardRiskOrderKey) (receiptClientOrderId : String)
  | clockRegression (observedAtMs lastPersistedAtMs : Int)
  | recoveryScopeMismatch (key : HardRiskOrderKey) (recoveryScope : HardRiskScope)
  | stateConflict (key : HardRiskOrderKey) (expected : String) (actual : HardRiskOrderState)
  | incompleteTradeSnapshot
  deriving DecidableEq

/-- One field of a fingerprint: its bytes, an `i64` or a `u64`. -/
inductive HashField
  | text (value : String)
  | i64 (value : Int)
  | u64 (value : Nat)
  deriving DecidableEq

/-- What the authority uses of other libraries: the hexadecimal SHA-256 digest of the
length-prefixed fields, and Rust's debug rendering of a string. -/
structure HardRiskEnv where
  digest : List HashField → String
  debugString : String → String

def i64Max : Int := 2 ^ 63 - 1

/-- Why a text is refused. -/
def textDefect (value : String) : Option String :=
  if (OrderLifecycle.trim value.toList).isEmpty then some "must be non-empty"
  else if 4096 < value.utf8ByteSize then some "must not exceed 4096 bytes"
  else none

def validateText (field value : String) : Except HardRiskError Unit :=
  match textDefect value with
  | some reason => .error (.invalidInput field reason)
  | none => .ok ()

def HardRiskScope.validate (scope : HardRiskScope) : Except HardRiskError Unit := do
  validateText "namespace" scope.namespace_
  validateText "account_id" scope.accountId
  validateText "trading_day" scope.tradingDay

def HardRiskPolicyScope.validate (scope : HardRiskPolicyScope) : Except HardRiskError Unit := do
  validateText "namespace" scope.namespace_
  validateText "account_id" scope.accountId

def HardRiskOrderRequest.validate (request : HardRiskOrderRequest) :
    Except HardRiskError Unit := do
  request.scope.validate
  validateText "client_order_id" request.clientOrderId
  validateText "symbol" request.symbol
  if request.volume ≤ 0 then throw (.invalidInput "volume" "must be positive")

def HardRiskPolicy.validateLimit (field : String) (value : Option Int) :
    Except HardRiskError Unit :=
  if value.any (· ≤ 0) then .error (.invalidInput field "must be positive when configured")
  else .ok ()

def HardRiskPolicy.validate (policy : HardRiskPolicy) : Except HardRiskError Unit := do
  validateText "policy_id" policy.policyId
  validateText "policy_version" policy.policyVersion
  if policy.maxOrderAttempts = none ∧ policy.maxOpenVolume = none then
    throw (.invalidInput "policy" "must contain at least one hard limit")
  HardRiskPolicy.validateLimit "max_order_attempts" policy.maxOrderAttempts
  HardRiskPolicy.validateLimit "max_open_volume" policy.maxOpenVolume

/-- `HardRiskRuntimeReceipt::validate`: the first field that is refused, with the reason. -/
def HardRiskRuntimeReceipt.defect (receipt : HardRiskRuntimeReceipt) : Option (String × String) :=
  [("receipt_client_order_id", receipt.clientOrderId), ("runtime_run_id", receipt.runtimeRunId),
    ("command_id", receipt.commandId)].findSome? fun text =>
      (textDefect text.2).map (text.1, ·)

section Fingerprints

variable (env : HardRiskEnv)

def policyFingerprint (policy : HardRiskPolicy) : String :=
  let limit (name : String) : Option Int → List HashField
    | some value => [.text (name ++ ":some"), .i64 value]
    | none => [.text (name ++ ":none")]
  env.digest ([.text "tqsdk-hard-risk-policy-v1", .text policy.policyId,
    .text policy.policyVersion, .text policy.reservationPolicy.asSql] ++
    limit "max_order_attempts" policy.maxOrderAttempts ++
    limit "max_open_volume" policy.maxOpenVolume)

def HardRiskPolicy.revision (policy : HardRiskPolicy) : HardRiskPolicyRevision :=
  ⟨policy.policyId, policy.policyVersion, policyFingerprint env policy⟩

def requestFingerprint (request : HardRiskOrderRequest) (policy : HardRiskPolicy) : String :=
  let configured (name : String) (value : Option Int) : HashField :=
    .text (name ++ if value.isSome then ":some" else ":none")
  env.digest ([.text request.scope.namespace_, .text request.scope.accountId,
    .text request.scope.tradingDay, .text request.clientOrderId, .text request.symbol,
    .text request.direction.asSql, .text request.offset.asSql, .i64 request.volume,
    .text policy.policyId, .text policy.policyVersion, .text policy.reservationPolicy.asSql,
    .i64 (policy.maxOrderAttempts.getD 0), .i64 (policy.maxOpenVolume.getD 0),
    configured "max_order_attempts" policy.maxOrderAttempts,
    configured "max_open_volume" policy.maxOpenVolume] ++
    match request.limitPriceBits with
    | some bits => [.text "limit_price_bits:some", .u64 bits]
    | none => [.text "limit_price_bits:none"])

end Fingerprints

/-- Why a receipt is refused: a field of it is invalid, or it is for another client order. -/
inductive ReceiptRefusal
  | invalid (field reason : String)
  | mismatch (key : HardRiskOrderKey) (receiptClientOrderId : String)
  deriving DecidableEq

namespace ReceiptRefusal

def error : ReceiptRefusal → HardRiskError
  | .invalid field reason => .invalidInput field reason
  | .mismatch key receiptClientOrderId => .receiptIdentityMismatch key receiptClientOrderId

/-- The reason under which the order becomes indeterminate. -/
def reason (env : HardRiskEnv) : ReceiptRefusal → String
  | .invalid field reason =>
    "invalid local dispatch receipt: " ++ "invalid hard-risk " ++ field ++ ": " ++ reason
  | .mismatch key receiptClientOrderId =>
    "hard-risk receipt client id " ++ env.debugString receiptClientOrderId ++
      " does not match admitted order: " ++ key.display

end ReceiptRefusal

def HardRiskSubmissionPermit.refusal (permit : HardRiskSubmissionPermit)
    (receipt : HardRiskRuntimeReceipt) : Option ReceiptRefusal :=
  match receipt.defect with
  | some (field, reason) => some (.invalid field reason)
  | none =>
    if receipt.clientOrderId ≠ permit.request.clientOrderId then
      some (.mismatch permit.identity.key receipt.clientOrderId)
    else none

/-! ## The database -/

structure HardRiskPolicyRow where
  policyFingerprint : String
  policy : HardRiskPolicy
  createdAtMs : Int
  deriving DecidableEq

structure HardRiskActivePolicyRow where
  revision : HardRiskPolicyRevision
  activatedAtMs : Int
  deriving DecidableEq

structure HardRiskPolicyEvent where
  scope : HardRiskPolicyScope
  revision : HardRiskPolicyRevision
  eventKind : String
  occurredAtMs : Int
  deriving DecidableEq

structure HardRiskReservationRow where
  key : HardRiskOrderKey
  ruleId : HardRiskRule
  amount : Int
  createdAtMs : Int
  deriving DecidableEq

structure HardRiskUsageRow where
  used : Int
  updatedAtMs : Int
  deriving DecidableEq

structure HardRiskEventRow where
  key : HardRiskOrderKey
  requestFingerprint : String
  state : String
  eventKind : String
  detail : String
  occurredAtMs : Int
  deriving DecidableEq

structure HardRiskDatabase where
  maxObservedAtMs : Int
  /-- Keyed by scope, policy id and policy version. -/
  policies : List ((HardRiskPolicyScope × String × String) × HardRiskPolicyRow)
  activePolicies : List (HardRiskPolicyScope × HardRiskActivePolicyRow)
  policyEvents : List HardRiskPolicyEvent
  orders : List (HardRiskOrderKey × HardRiskOrderRecord)
  dailyUsage : List ((HardRiskScope × HardRiskRule) × HardRiskUsageRow)
  reservations : List HardRiskReservationRow
  events : List HardRiskEventRow

namespace HardRiskDatabase

/-- `create_schema_v1`. -/
def empty : HardRiskDatabase := ⟨0, [], [], [], [], [], [], []⟩

variable (db : HardRiskDatabase)

def readOrder (key : HardRiskOrderKey) : Option HardRiskOrderRecord :=
  Table.get? key db.orders

def readUsage (scope : HardRiskScope) (ruleId : HardRiskRule) : Int :=
  ((Table.get? (scope, ruleId) db.dailyUsage).map (·.used)).getD 0

def readPolicyVersion (scope : HardRiskPolicyScope) (revision : HardRiskPolicyRevision) :
    Option HardRiskPolicyRow :=
  (Table.get? (scope, revision.policyId, revision.policyVersion) db.policies).filter
    (·.policyFingerprint == revision.policyFingerprint)

/-- The join of the active policy with its version. -/
def readActivePolicy (scope : HardRiskPolicyScope) : Option HardRiskPolicyRecord :=
  match Table.get? scope db.activePolicies with
  | none => none
  | some active =>
    (db.readPolicyVersion scope active.revision).map fun row =>
      ⟨scope, row.policy, active.revision, active.activatedAtMs⟩

def advanceClock (now : Int) : Except HardRiskError HardRiskDatabase :=
  if now < db.maxObservedAtMs then .error (.clockRegression now db.maxObservedAtMs)
  else .ok { db with maxObservedAtMs := now }

def writeEvent (db : HardRiskDatabase) (key : HardRiskOrderKey)
    (requestFingerprint state kind detail : String) (now : Int) : HardRiskDatabase :=
  { db with events := db.events ++ [⟨key, requestFingerprint, state, kind, detail, now⟩] }

/-- `UPDATE hard_risk_orders SET … WHERE` the key and the condition. -/
def updateOrder (key : HardRiskOrderKey) (condition : HardRiskOrderRecord → Bool)
    (set : HardRiskOrderRecord → HardRiskOrderRecord) : HardRiskDatabase :=
  { db with
    orders := Table.modify key (fun order => if condition order then set order else order)
      db.orders }

def markIndeterminate (existing : HardRiskOrderRecord) (reason : String) (now : Int) :
    HardRiskDatabase :=
  (db.updateOrder existing.request.key (fun order => order.state == .submitting) fun order =>
      { order with
        state := .indeterminate
        indeterminateReason := some reason
        updatedAtMs := now }).writeEvent
    existing.request.key existing.identity.requestFingerprint "Indeterminate" "indeterminate"
    reason now

/-- The row of a key that was just written. -/
def readBack (key : HardRiskOrderKey) (reason : String) :
    Except HardRiskError HardRiskOrderRecord :=
  match db.readOrder key with
  | some record => .ok record
  | none => .error (.invalidStoredData reason)

/-- How the calls on an admitted order begin: the clock, the row and the identity. -/
def readAdmitted (now : Int) (identity : HardRiskOrderIdentity) :
    Except HardRiskError (HardRiskDatabase × HardRiskOrderRecord) := do
  let db ← db.advanceClock now
  match db.readOrder identity.key with
  | none => throw (.unknownOrder identity.key)
  | some existing =>
    if existing.identity ≠ identity then throw (.identityConflict existing.request.key)
    return (db, existing)

end HardRiskDatabase

/-! ## The calls -/

/-- `unix_epoch_millis`: the wall clock of the calling process, which may fail. -/
def unixEpochMillis : Except String Int → Except HardRiskError Int
  | .ok now => .ok now
  | .error reason => .error (.invalidInput "system clock" reason)

/-- What a call returns, with the database it leaves. -/
abbrev Committed (α : Type) := Except HardRiskError α × HardRiskDatabase

/-- A transaction that ends in an error before its commit is rolled back. -/
def transact {α : Type} (db : HardRiskDatabase) (body : Except HardRiskError (Committed α)) :
    Committed α :=
  match body with
  | .error error => (.error error, db)
  | .ok out => out

inductive HardRiskPrepareOutcome
  | prepared (record : HardRiskOrderRecord)
  | existing (record : HardRiskOrderRecord)
  deriving DecidableEq

inductive HardRiskSubmissionOutcome
  | granted (permit : HardRiskSubmissionPermit)
  | existing (record : HardRiskOrderRecord)
  deriving DecidableEq

namespace HardRiskAuthority

/-- The compare-and-set of `install_policy`. -/
def expectationMet : HardRiskPolicyExpectation → Option HardRiskPolicyRecord → Bool
  | .absent, none => true
  | .current expected, some current => current.revision == expected
  | _, _ => false

/-- The version row of a policy, found or inserted. -/
def insertPolicyVersion (db : HardRiskDatabase) (scope : HardRiskPolicyScope)
    (policy : HardRiskPolicy) (revision : HardRiskPolicyRevision)
    (expectation : HardRiskPolicyExpectation) (now : Int) :
    Except HardRiskError HardRiskDatabase :=
  let key := (scope, revision.policyId, revision.policyVersion)
  match db.readPolicyVersion scope revision with
  | some existing =>
    if existing.policy ≠ policy then
      .error (.policyConflict scope expectation (some revision))
    else .ok db
  | none =>
    match Table.get? key db.policies with
    | some _ => .error (.storage "insert immutable policy version"
        ("UNIQUE constraint failed: hard_risk_policies.namespace, " ++
          "hard_risk_policies.account_id, hard_risk_policies.policy_id, " ++
          "hard_risk_policies.policy_version"))
    | none => .ok { db with
        policies := Table.insert key ⟨revision.policyFingerprint, policy, now⟩ db.policies }

def activatePolicy (db : HardRiskDatabase) (scope : HardRiskPolicyScope)
    (revision : HardRiskPolicyRevision) (now : Int) : HardRiskDatabase :=
  { db with
    activePolicies :=
      Table.upsert scope ⟨revision, now⟩ (fun _ => ⟨revision, now⟩) db.activePolicies
    policyEvents := db.policyEvents ++ [⟨scope, revision, "activated", now⟩] }

def installPolicy (env : HardRiskEnv) (db : HardRiskDatabase) (clock : Except String Int)
    (scope : HardRiskPolicyScope) (policy : HardRiskPolicy)
    (expectation : HardRiskPolicyExpectation) : Committed HardRiskPolicyRecord :=
  transact db do
    scope.validate
    policy.validate
    let now ← unixEpochMillis clock
    let revision := policy.revision env
    let db ← db.advanceClock now
    let current := db.readActivePolicy scope
    if !expectationMet expectation current then
      throw (.policyConflict scope expectation (current.map (·.revision)))
    let db ← insertPolicyVersion db scope policy revision expectation now
    let db :=
      if current.map (·.revision) ≠ some revision then activatePolicy db scope revision now
      else db
    match db.readActivePolicy scope with
    | none => throw (.invalidStoredData "active policy disappeared before commit")
    | some record => return (.ok record, db)

/-- The loop of `prepare` over the limits. -/
def checkLimits (db : HardRiskDatabase) (scope : HardRiskScope) :
    List RuleReservation → Except HardRiskError Unit
  | [] => .ok ()
  | reservation :: rest =>
    let used := db.readUsage scope reservation.ruleId
    let projected := used + reservation.amount
    if i64Max < projected then .error (.invalidInput "risk usage" "integer overflow")
    else if reservation.limit < projected then
      .error (.limitExceeded reservation.ruleId used reservation.amount reservation.limit)
    else checkLimits db scope rest

/-- A turn of the loop of `prepare` that reserves usage. -/
def reserve (request : HardRiskOrderRequest) (now : Int) (db : HardRiskDatabase)
    (reservation : RuleReservation) : HardRiskDatabase :=
  { db with
    reservations :=
      db.reservations ++ [⟨request.key, reservation.ruleId, reservation.amount, now⟩]
    dailyUsage := Table.upsert (request.scope, reservation.ruleId) ⟨reservation.amount, now⟩
      (fun row => ⟨row.used + reservation.amount, now⟩) db.dailyUsage }

/-- The row that `prepare` inserts. -/
def preparedOrder (request : HardRiskOrderRequest) (fingerprint : String)
    (policy : HardRiskPolicyRecord) (now : Int) : HardRiskOrderRecord where
  request := request
  identity := ⟨request.key, fingerprint⟩
  policyId := policy.revision.policyId
  policyVersion := policy.revision.policyVersion
  policyFingerprint := policy.revision.policyFingerprint
  reservationPolicy := policy.policy.reservationPolicy
  state := .prepared
  leaseOwner := none
  leaseGeneration := 0
  leaseExpiresAtMs := none
  runtimeReceipt := none
  terminalRevision := none
  indeterminateReason := none
  createdAtMs := now
  updatedAtMs := now

/-- The writes of `prepare`. -/
def insertPrepared (db : HardRiskDatabase) (request : HardRiskOrderRequest) (fingerprint : String)
    (policy : HardRiskPolicyRecord) (now : Int) : HardRiskDatabase :=
  let db := { db with
    orders :=
      Table.insert request.key (preparedOrder request fingerprint policy now) db.orders }
  ((policy.policy.ruleRequests request).foldl (reserve request now) db).writeEvent request.key
    fingerprint "Prepared" "prepared" "durable admission and usage reservation committed" now

def prepare (env : HardRiskEnv) (db : HardRiskDatabase) (clock : Except String Int)
    (request : HardRiskOrderRequest) : Committed HardRiskPrepareOutcome :=
  transact db do
    request.validate
    let now ← unixEpochMillis clock
    match db.readOrder request.key with
    | some existing =>
      if existing.request ≠ request then throw (.identityConflict request.key)
      -- returned without a commit
      return (.ok (.existing existing), db)
    | none =>
      let db ← db.advanceClock now
      match db.readActivePolicy request.scope.policyScope with
      | none => throw (.policyNotConfigured request.scope.policyScope)
      | some policy =>
        checkLimits db request.scope (policy.policy.ruleRequests request)
        let db :=
          insertPrepared db request (requestFingerprint env request policy.policy) policy now
        let record ← db.readBack request.key "prepared order disappeared before commit"
        return (.ok (.prepared record), db)

/-- The end of the lease; the milliseconds of the configured duration may not fit. -/
def leaseExpiry (now submissionLease : Int) : Except HardRiskError Int :=
  if i64Max < submissionLease then
    .error (.invalidInput "duration" "milliseconds do not fit SQLite integer")
  else if i64Max < now + submissionLease then
    .error (.invalidInput "submission_lease" "expiry overflow")
  else .ok (now + submissionLease)

def leaseExpired (order : HardRiskOrderRecord) (now : Int) : Bool :=
  order.leaseExpiresAtMs.any (· ≤ now)

def beginSubmission (db : HardRiskDatabase) (clock : Except String Int) (submissionLease : Int)
    (identity : HardRiskOrderIdentity) (ownerId : String) : Committed HardRiskSubmissionOutcome :=
  transact db do
    validateText "owner_id" ownerId
    let now ← unixEpochMillis clock
    let expiry ← leaseExpiry now submissionLease
    let (db', existing) ← db.readAdmitted now identity
    match existing.state with
    | .prepared =>
      let db' := (db'.updateOrder identity.key (fun order => order.state == .prepared)
        fun order =>
          { order with
            state := .submitting
            leaseOwner := some ownerId
            leaseGeneration := order.leaseGeneration + 1
            leaseExpiresAtMs := some expiry
            updatedAtMs := now }).writeEvent identity.key identity.requestFingerprint
        "Submitting" "submission_lease_granted"
        "network send may begin outside SQLite transaction" now
      let record ← db'.readBack identity.key "submission lease row disappeared before commit"
      return (.ok (.granted ⟨record.request, record.identity, ownerId,
        record.leaseGeneration⟩), db')
    | .submitting =>
      if leaseExpired existing now then
        let db' := db'.markIndeterminate existing
          "submission lease expired before durable receipt" now
        let record ← db'.readBack identity.key
          "expired submission row disappeared before commit"
        return (.ok (.existing record), db')
      return (.ok (.existing existing), db)
    | _ => return (.ok (.existing existing), db)

def recordIndeterminate (db : HardRiskDatabase) (clock : Except String Int)
    (permit : HardRiskSubmissionPermit) (reason : String) : Committed HardRiskOrderRecord :=
  transact db do
    validateText "indeterminate_reason" reason
    let now ← unixEpochMillis clock
    let (db', existing) ← db.readAdmitted now permit.identity
    match existing.state with
    | .indeterminate => return (.ok existing, db)
    | .submitting =>
      if existing.leaseOwner ≠ some permit.ownerId ∨
          existing.leaseGeneration ≠ permit.leaseGeneration then
        throw (.leaseFenced existing.request.key)
      let db' := db'.markIndeterminate existing reason now
      let record ← db'.readBack permit.identity.key
        "indeterminate row disappeared before commit"
      return (.ok record, db')
    | state =>
      throw (.stateConflict existing.request.key "Submitting or Indeterminate" state)

/-- `record_submitted` for a receipt that is not refused. -/
def recordReceipt (db : HardRiskDatabase) (clock : Except String Int)
    (permit : HardRiskSubmissionPermit) (receipt : HardRiskRuntimeReceipt) :
    Committed HardRiskOrderRecord :=
  transact db do
    let now ← unixEpochMillis clock
    let (db', existing) ← db.readAdmitted now permit.identity
    match existing.state with
    | .submitted =>
      if existing.runtimeReceipt = some receipt then
        return (.ok existing, db)
      throw (.stateConflict existing.request.key "same durable submitted receipt"
        existing.state)
    | .submitting =>
      if existing.leaseOwner ≠ some permit.ownerId ∨
          existing.leaseGeneration ≠ permit.leaseGeneration then
        throw (.leaseFenced existing.request.key)
      if leaseExpired existing now then
        -- the expiry is committed, and the call still fails
        return (.error (.leaseExpired existing.request.key), db'.markIndeterminate existing
          "submission lease expired before durable receipt" now)
      if i64Max < permit.leaseGeneration then
        throw (.invalidInput "lease_generation" "does not fit SQLite integer")
      let db' := (db'.updateOrder permit.identity.key
        (fun order => order.state == .submitting && order.leaseOwner == some permit.ownerId &&
          order.leaseGeneration == permit.leaseGeneration)
        fun order =>
          { order with
            state := .submitted
            runtimeReceipt :=
              some ⟨order.request.clientOrderId, receipt.runtimeRunId, receipt.commandId⟩
            updatedAtMs := now }).writeEvent permit.identity.key
        permit.identity.requestFingerprint "Submitted" "submitted"
        "network dispatch receipt persisted" now
      let record ← db'.readBack permit.identity.key "submitted row disappeared before commit"
      return (.ok record, db')
    | state => throw (.stateConflict existing.request.key "Submitting" state)

/-- `record_submitted`: a refused receipt makes the order indeterminate first. -/
def recordSubmitted (env : HardRiskEnv) (db : HardRiskDatabase) (clock : Except String Int)
    (permit : HardRiskSubmissionPermit) (receipt : HardRiskRuntimeReceipt) :
    Committed HardRiskOrderRecord :=
  match permit.refusal receipt with
  | none => recordReceipt db clock permit receipt
  | some refusal =>
    match recordIndeterminate db clock permit (refusal.reason env) with
    | (.error error, db) => (.error error, db)
    | (.ok _, db) => (.error refusal.error, db)

/-- The unguarded update of a terminal observation, with its event. -/
def writeTerminal (db : HardRiskDatabase) (identity : HardRiskOrderIdentity)
    (state : HardRiskTerminalState) (revision : Option Nat) (now : Int) : HardRiskDatabase :=
  (db.updateOrder identity.key (fun _ => true) fun order =>
      { order with
        state := .terminal state
        terminalRevision := revision
        updatedAtMs := now }).writeEvent identity.key identity.requestFingerprint "Terminal"
    "terminal" state.asSql now

def observeTerminal (db : HardRiskDatabase) (clock : Except String Int)
    (identity : HardRiskOrderIdentity) (observation : HardRiskTerminalObservation) :
    Committed HardRiskOrderRecord :=
  transact db do
    let now ← unixEpochMillis clock
    if observation.runtimeRevision.any fun revision => i64Max < revision then
      throw (.invalidInput "runtime_revision" "does not fit SQLite integer")
    let (db', existing) ← db.readAdmitted now identity
    match existing.state with
    | .terminal current =>
      if current = observation.state ∧
          existing.terminalRevision = observation.runtimeRevision then
        return (.ok existing, db)
      throw (.stateConflict existing.request.key "same terminal observation" existing.state)
    | .submitted =>
      let db' := writeTerminal db' identity observation.state observation.runtimeRevision now
      let record ← db'.readBack identity.key "terminal row disappeared before commit"
      return (.ok record, db')
    | state => throw (.stateConflict existing.request.key
        "Submitted with durable local receipt" state)

def reconcileTerminal (db : HardRiskDatabase) (clock : Except String Int)
    (snapshot : HardRiskCompleteTradeSnapshot) (identity : HardRiskOrderIdentity)
    (observation : HardRiskTerminalObservation) : Committed HardRiskOrderRecord :=
  transact db do
    snapshot.scope.validate
    if observation.runtimeRevision.any (· ≠ snapshot.runtimeRevision) then
      throw (.invalidInput "runtime_revision"
        "terminal observation must match complete snapshot revision")
    let now ← unixEpochMillis clock
    if i64Max < snapshot.runtimeRevision then
      throw (.invalidInput "runtime_revision" "does not fit SQLite integer")
    let (db', existing) ← db.readAdmitted now identity
    if existing.request.scope ≠ snapshot.scope then
      throw (.recoveryScopeMismatch existing.request.key snapshot.scope)
    match existing.state with
    | .terminal current =>
      if current = observation.state ∧
          existing.terminalRevision = some snapshot.runtimeRevision then
        return (.ok existing, db)
      throw (.stateConflict existing.request.key "same reconciled terminal observation"
        existing.state)
    | .submitting | .indeterminate =>
      let db' := db'.writeEvent identity.key identity.requestFingerprint
        "ReconciledSubmission" "recovered_submission"
        ("complete trade snapshot revision=" ++ toString snapshot.runtimeRevision ++
          " reconciled ambiguous submission") now
      let db' :=
        writeTerminal db' identity observation.state (some snapshot.runtimeRevision) now
      let record ← db'.readBack identity.key
        "reconciled terminal row disappeared before commit"
      return (.ok record, db')
    | state => throw (.stateConflict existing.request.key "Submitting or Indeterminate" state)

/-- The rows that `recover_expired_submissions` selects. -/
def expiredSubmissions (db : HardRiskDatabase) (scope : HardRiskScope) (now : Int) :
    List HardRiskOrderKey :=
  (db.orders.filter fun entry =>
    entry.2.request.scope == scope && entry.2.state == .submitting &&
      leaseExpired entry.2 now).map Prod.fst

/-- The loop of `recover_expired_submissions`. -/
def recoverEach (detail : String) (now : Int) : HardRiskDatabase → List HardRiskOrderKey →
    Except HardRiskError (List HardRiskOrderRecord × HardRiskDatabase)
  | db, [] => .ok ([], db)
  | db, key :: rest => do
      let record ← db.readBack key "recovery candidate disappeared before transition"
      let db := db.markIndeterminate record detail now
      let updated ← db.readBack key "recovered submission disappeared before commit"
      let (recovered, db) ← recoverEach detail now db rest
      return (updated :: recovered, db)

def recoverExpiredSubmissions (db : HardRiskDatabase) (clock : Except String Int) :
    HardRiskRecoveryReadiness → Committed (List HardRiskOrderRecord)
  | .incompleteTradeSnapshot _ => (.error .incompleteTradeSnapshot, db)
  | .completeTradeSnapshot snapshot =>
    transact db do
      snapshot.scope.validate
      let now ← unixEpochMillis clock
      let db ← db.advanceClock now
      let detail := "submission lease expired during complete trade snapshot recovery " ++
        "revision=" ++ toString snapshot.runtimeRevision
      let (recovered, db) ←
        recoverEach detail now db (expiredSubmissions db snapshot.scope now)
      return (.ok recovered, db)

end HardRiskAuthority

end Tqsdk
