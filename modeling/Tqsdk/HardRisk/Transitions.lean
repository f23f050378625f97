import Mathlib
import Tqsdk.HardRisk.Authority

/-!
# What a call of the authority can do

For each call of the hard-risk authority, everything it can answer and everything it can have
done to the database then.  An order moves along `canMoveTo` only, and a call that fails has
been rolled back, apart from the two failures that commit: an expired lease and a refused
receipt.
-/

namespace Tqsdk

open List Option

namespace HardRiskOrderState

/-- The moves of an admitted order. -/
def canMoveTo : HardRiskOrderState → HardRiskOrderState → Bool
  | .prepared, .submitting => true
  | .submitting, .submitted | .submitting, .indeterminate | .submitting, .terminal _ => true
  | .submitted, .terminal _ | .indeterminate, .terminal _ => true
  | _, _ => false

end HardRiskOrderState

/-- The errors of a call that has been rolled back.  An expired lease and a refused receipt are
reported with errors of their own. -/
def HardRiskError.isPlain : HardRiskError → Bool
  | .leaseExpired _ | .receiptIdentityMismatch .. => false
  | .invalidInput field _ =>
    !(["receipt_client_order_id", "runtime_run_id", "command_id"].contains field)
  | _ => true

namespace HardRiskDatabase

def orderState (db : HardRiskDatabase) (key : HardRiskOrderKey) : Option HardRiskOrderState :=
  (db.readOrder key).map (·.state)

/-- Every order is stored under its own key, once. -/
structure Keyed (db : HardRiskDatabase) : Prop where
  distinct : (db.orders.map Prod.fst).Nodup
  own : ∀ entry ∈ db.orders, entry.2.request.key = entry.1 ∧ entry.2.identity.key = entry.1

theorem empty_keyed : empty.Keyed :=
  ⟨nodup_nil, fun _ mem => absurd mem not_mem_nil⟩

theorem Keyed.of_orders {db db' : HardRiskDatabase} (keyed : db.Keyed)
    (same : db'.orders = db.orders) : db'.Keyed :=
  ⟨same ▸ keyed.distinct, same ▸ keyed.own⟩

theorem Keyed.stored {db : HardRiskDatabase} (keyed : db.Keyed) {key : HardRiskOrderKey}
    {ord : HardRiskOrderRecord} (got : db.readOrder key = some ord) :
    ord.request.key = key ∧ ord.identity.key = key :=
  keyed.own _ (Table.mem_of_get? got)

/-- An order moves: its row changes, events are appended, and nothing else happens but the
clock. -/
structure Moved (db db' : HardRiskDatabase) (key : HardRiskOrderKey)
    (before after : HardRiskOrderRecord) : Prop where
  stored : db.readOrder key = some before
  moves : before.state.canMoveTo after.state = true
  orders : ∃ change, change before = after ∧
    (∀ order, (change order).request = order.request ∧
      (change order).identity = order.identity ∧
      (change order).policyRevision = order.policyRevision) ∧
    db'.orders = Table.modify key change db.orders
  events : ∃ added, db'.events = db.events ++ added ∧
    ∃ event ∈ added, event.key = key ∧ event.state = after.state.asSql
  usage : db'.dailyUsage = db.dailyUsage ∧ db'.reservations = db.reservations
  policies : db'.policies = db.policies ∧ db'.activePolicies = db.activePolicies ∧
    db'.policyEvents = db.policyEvents

section Moved

variable {db db' : HardRiskDatabase} {key : HardRiskOrderKey} {before after : HardRiskOrderRecord}
  (moved : db.Moved db' key before after)

include moved

theorem Moved.readOrder (alt : HardRiskOrderKey) :
    db'.readOrder alt = if alt = key then some after else db.readOrder alt := by
  obtain ⟨chg, same, -, ords⟩ := moved.orders
  rw [HardRiskDatabase.readOrder, ords, Table.get?_modify]
  by_cases here : alt = key
  · subst here
    have got : Table.get? alt db.orders = some before := moved.stored
    rw [if_pos rfl, if_pos rfl, got, map_some, same]
  · rw [if_neg here, if_neg here]
    rfl

theorem Moved.orderState (alt : HardRiskOrderKey) :
    db'.orderState alt = if alt = key then some after.state else db.orderState alt := by
  rw [HardRiskDatabase.orderState, moved.readOrder]
  split <;> rfl

theorem Moved.keyed (keyed : db.Keyed) : db'.Keyed := by
  obtain ⟨chg, -, kept, ords⟩ := moved.orders
  constructor
  · rw [ords, Table.keys_modify]
    exact keyed.distinct
  · rw [ords]
    intro ent mem
    obtain ⟨old, got, rfl⟩ := mem_map.mp mem
    have own := keyed.own old got
    split
    · dsimp only
      rw [(kept old.2).1, (kept old.2).2.1]
      exact own
    · exact own

end Moved

/-! ## What the writes do -/

theorem advanceClock_ok {db db' : HardRiskDatabase} {now : Int}
    (adv : db.advanceClock now = .ok db') : db' = { db with maxObservedAtMs := now } := by
  unfold advanceClock at adv
  split at adv
  · cases adv
  · exact (Except.ok.inj adv).symm

/-- The exact outcome of `mark_indeterminate_in_transaction` on a submission. -/
structure BecameIndeterminate (db db' : HardRiskDatabase) (key : HardRiskOrderKey)
    (before : HardRiskOrderRecord) (reason : String) (now : Int) : Prop where
  stored : db.readOrder key = some before
  submitting : before.state = .submitting
  after : db' =
    { db with
      maxObservedAtMs := now
      orders := Table.modify key
        (fun order =>
          if order.state == .submitting then
            { order with
              state := .indeterminate
              indeterminateReason := some reason
              updatedAtMs := now }
          else order) db.orders
      events := db.events ++ [⟨key, before.identity.requestFingerprint, "Indeterminate",
        "indeterminate", reason, now⟩] }

theorem BecameIndeterminate.moved {db db' : HardRiskDatabase} {key : HardRiskOrderKey}
    {before : HardRiskOrderRecord} {why : String} {now : Int}
    (became : db.BecameIndeterminate db' key before why now) :
    db.Moved db' key before
      { before with
        state := .indeterminate
        indeterminateReason := some why
        updatedAtMs := now } := by
  obtain ⟨got, subm, rfl⟩ := became
  refine ⟨got, ?_, ?_, ?_, ⟨rfl, rfl⟩, rfl, rfl, rfl⟩
  · rw [subm]
    rfl
  · refine ⟨fun ord => if ord.state == .submitting then
      { ord with
        state := .indeterminate
        indeterminateReason := some why
        updatedAtMs := now }
      else ord, ?_, ?_, rfl⟩
    · simp [subm]
    · intro ord
      dsimp only
      split <;> exact ⟨rfl, rfl, rfl⟩
  · exact ⟨_, rfl, _, mem_singleton_self _, rfl, rfl⟩

theorem markIndeterminate_became {db : HardRiskDatabase} (keyed : db.Keyed) {key : HardRiskOrderKey}
    {old : HardRiskOrderRecord} (got : db.readOrder key = some old) (subm : old.state = .submitting)
    (why : String) (now : Int) :
    db.BecameIndeterminate ({ db with maxObservedAtMs := now }.markIndeterminate old why
      now) key old why now := by
  refine ⟨got, subm, ?_⟩
  rw [markIndeterminate, (keyed.stored got).1]
  rfl

/-- Submissions become indeterminate one after another. -/
def Swept : HardRiskDatabase → HardRiskDatabase → Prop :=
  Relation.ReflTransGen fun db db' =>
    ∃ key before reason now, db.BecameIndeterminate db' key before reason now

/-- Only the clock and appended events tell the databases apart. -/
structure Logged (db db' : HardRiskDatabase) : Prop where
  orders : db'.orders = db.orders
  events : ∃ added, db'.events = db.events ++ added
  usage : db'.dailyUsage = db.dailyUsage ∧ db'.reservations = db.reservations
  policies : db'.policies = db.policies ∧ db'.activePolicies = db.activePolicies ∧
    db'.policyEvents = db.policyEvents

theorem logged_clock (db : HardRiskDatabase) (now : Int) :
    db.Logged { db with maxObservedAtMs := now } :=
  ⟨rfl, ⟨[], (append_nil _).symm⟩, ⟨rfl, rfl⟩, rfl, rfl, rfl⟩

theorem Logged.writeEvent {db db' : HardRiskDatabase} (logged : db.Logged db')
    (key : HardRiskOrderKey) (reqFp st kind det : String) (now : Int) :
    db.Logged (db'.writeEvent key reqFp st kind det now) := by
  obtain ⟨plus, evs⟩ := logged.events
  refine ⟨logged.orders, ⟨plus ++ [⟨key, reqFp, st, kind, det, now⟩], ?_⟩,
    logged.usage, logged.policies⟩
  rw [HardRiskDatabase.writeEvent, evs, append_assoc]

/-- A guarded update of an order whose guard holds, with an event that names the new state. -/
theorem Logged.updateOrder {db base : HardRiskDatabase} (logged : db.Logged base)
    {key : HardRiskOrderKey} {old : HardRiskOrderRecord} (got : db.readOrder key = some old)
    (cond : HardRiskOrderRecord → Bool) (hld : cond old = true)
    (set : HardRiskOrderRecord → HardRiskOrderRecord)
    (kept : ∀ ord, (set ord).request = ord.request ∧
      (set ord).identity = ord.identity ∧ (set ord).policyRevision = ord.policyRevision)
    (mvs : old.state.canMoveTo (set old).state = true) (reqFp kind det : String) (now : Int) :
    db.Moved ((base.updateOrder key cond set).writeEvent key reqFp
      (set old).state.asSql kind det now) key old (set old) := by
  refine ⟨got, mvs, ?_, ?_, logged.usage, logged.policies⟩
  · refine ⟨fun ord => if cond ord then set ord else ord, if_pos hld, ?_, ?_⟩
    · intro ord
      dsimp only
      split
      · exact kept ord
      · exact ⟨rfl, rfl, rfl⟩
    · rw [← logged.orders]
      rfl
  · obtain ⟨plus, evs⟩ := logged.events
    refine ⟨plus ++ [⟨key, reqFp, (set old).state.asSql, kind, det, now⟩],
      ?_, _, mem_append_right _ (mem_singleton_self _), rfl, rfl⟩
    rw [← append_assoc, ← evs]
    rfl

end HardRiskDatabase

/-! ## Rolled back calls -/

/-- Every error of the computation is plain. -/
def FailsPlainly {α : Type} (x : Except HardRiskError α) : Prop :=
  ∀ error, x = .error error → error.isPlain = true

theorem FailsPlainly.ok {α : Type} (val : α) : FailsPlainly (.ok val) := nofun

theorem FailsPlainly.error {α : Type} {error : HardRiskError} (raw : error.isPlain = true) :
    FailsPlainly (.error error : Except HardRiskError α) := by
  rintro _ ⟨⟩
  exact raw

theorem FailsPlainly.bind {α β : Type} {x : Except HardRiskError α} {f : α → Except HardRiskError β}
    (hd : FailsPlainly x) (next : ∀ val, FailsPlainly (f val)) : FailsPlainly (x >>= f) := by
  cases x with
  | error error => exact .error (hd error rfl)
  | ok val => exact next val

theorem validateText_plain {fld : String}
    (alt : (HardRiskError.invalidInput fld "").isPlain = true) (val : String) :
    FailsPlainly (validateText fld val) := by
  unfold validateText
  split
  · exact .error alt
  · exact .ok _

theorem HardRiskScope.validate_plain (sc : HardRiskScope) : FailsPlainly sc.validate :=
  (validateText_plain (by decide) _).bind fun _ =>
    (validateText_plain (by decide) _).bind fun _ => validateText_plain (by decide) _

theorem HardRiskPolicyScope.validate_plain (sc : HardRiskPolicyScope) : FailsPlainly sc.validate :=
  (validateText_plain (by decide) _).bind fun _ => validateText_plain (by decide) _

theorem HardRiskOrderRequest.validate_plain (req : HardRiskOrderRequest) :
    FailsPlainly req.validate := by
  refine (req.scope.validate_plain).bind fun _ =>
    (validateText_plain (by decide) _).bind fun _ =>
      (validateText_plain (by decide) _).bind fun _ => ?_
  split
  · exact .error (by decide)
  · exact .ok _

theorem HardRiskPolicy.validate_plain (pol : HardRiskPolicy) : FailsPlainly pol.validate := by
  have lim (field : String) (other : (HardRiskError.invalidInput field "").isPlain = true)
      (value : Option Int) : FailsPlainly (HardRiskPolicy.validateLimit field value) := by
    unfold HardRiskPolicy.validateLimit
    split
    · exact .error other
    · exact .ok _
  refine (validateText_plain (by decide) _).bind fun _ =>
    (validateText_plain (by decide) _).bind fun _ => ?_
  dsimp only
  split
  · exact .error (by decide)
  · exact (lim _ (by decide) _).bind fun _ => lim _ (by decide) _

theorem unixEpochMillis_plain (clock : Except String Int) :
    FailsPlainly (unixEpochMillis clock) := by
  cases clock with
  | ok now => exact .ok _
  | error why => exact .error (by simp [HardRiskError.isPlain])

theorem leaseExpiry_plain (now lease : Int) :
    FailsPlainly (HardRiskAuthority.leaseExpiry now lease) := by
  unfold HardRiskAuthority.leaseExpiry
  split
  · exact .error (by decide)
  · split
    · exact .error (by decide)
    · exact .ok _

namespace HardRiskDatabase

theorem advanceClock_plain (db : HardRiskDatabase) (now : Int) :
    FailsPlainly (db.advanceClock now) := by
  unfold advanceClock
  split
  · exact .error rfl
  · exact .ok _

theorem readAdmitted_plain (db : HardRiskDatabase) (now : Int)
    (idt : HardRiskOrderIdentity) : FailsPlainly (db.readAdmitted now idt) := by
  refine (db.advanceClock_plain now).bind fun _ => ?_
  split
  · exact .error rfl
  · split
    · exact .error rfl
    · exact .ok _

theorem readAdmitted_ok {db db' : HardRiskDatabase} {now : Int} {idt : HardRiskOrderIdentity}
    {old : HardRiskOrderRecord} (admd : db.readAdmitted now idt = .ok (db', old)) :
    db' = { db with maxObservedAtMs := now } ∧ db.readOrder idt.key = some old ∧
      old.identity = idt := by
  unfold readAdmitted at admd
  cases adv : db.advanceClock now with
  | error error =>
    rw [adv] at admd
    cases admd
  | ok next =>
    rw [adv] at admd
    have clock := advanceClock_ok adv
    subst clock
    have kept : HardRiskDatabase.readOrder { db with maxObservedAtMs := now } idt.key =
        db.readOrder idt.key := rfl
    dsimp only [bind, Except.bind] at admd
    rw [kept] at admd
    cases got : db.readOrder idt.key with
    | none =>
      rw [got] at admd
      cases admd
    | some hit =>
      rw [got] at admd
      dsimp only at admd
      split at admd
      · cases admd
      · rename_i same
        cases admd
        exact ⟨rfl, rfl, not_not.mp same⟩

theorem readBack_moved {db db' : HardRiskDatabase} {key : HardRiskOrderKey}
    {before after : HardRiskOrderRecord} (moved : db.Moved db' key before after)
    (why : String) : db'.readBack key why = .ok after := by
  rw [readBack, moved.readOrder, if_pos rfl]

end HardRiskDatabase

theorem transact_bind {α β : Type} (db : HardRiskDatabase) (x : Except HardRiskError β)
    (f : β → Except HardRiskError (Committed α)) :
    transact db (x >>= f) =
      match x with
      | .error error => (.error error, db)
      | .ok value => transact db (f value) := by
  cases x <;> rfl

/-- A property of the result of a transaction: it holds when the first part fails plainly, and
of what the rest makes of its value. -/
theorem transact_first {α β : Type} {db : HardRiskDatabase} {x : Except HardRiskError β}
    {f : β → Except HardRiskError (Committed α)} {Result : Committed α → Prop}
    (plainly : FailsPlainly x) (fail : ∀ error, error.isPlain = true → Result (.error error, db))
    (next : ∀ val, x = .ok val → Result (transact db (f val))) :
    Result (transact db (x >>= f)) := by
  rw [transact_bind]
  cases hit : x with
  | error error => exact fail error (plainly error hit)
  | ok val => exact next val hit

/-! ## What each call can do -/

namespace HardRiskAuthority

open HardRiskDatabase

/-- `begin_submission` grants a permit for a prepared order, which is submitting from then on. -/
inductive SubmissionResult (db : HardRiskDatabase) (key : HardRiskOrderKey) :
    Committed HardRiskSubmissionOutcome → Prop
  | failed (error : HardRiskError) (plain : error.isPlain = true) :
      SubmissionResult db key (.error error, db)
  | kept (record : HardRiskOrderRecord) : SubmissionResult db key (.ok (.existing record), db)
  | expired {db' : HardRiskDatabase} {before : HardRiskOrderRecord} {reason : String} {now : Int}
      (record : HardRiskOrderRecord) (became : db.BecameIndeterminate db' key before reason now) :
      SubmissionResult db key (.ok (.existing record), db')
  | granted {db' : HardRiskDatabase} {before after : HardRiskOrderRecord}
      (permit : HardRiskSubmissionPermit) (moved : db.Moved db' key before after)
      (prepared : before.state = .prepared) (same : permit.identity.key = key) :
      SubmissionResult db key (.ok (.granted permit), db')

/-- `record_indeterminate` succeeds on a submission and on an order that is already
indeterminate. -/
inductive IndeterminateResult (db : HardRiskDatabase) (key : HardRiskOrderKey) :
    Committed HardRiskOrderRecord → Prop
  | failed (error : HardRiskError) (plain : error.isPlain = true) :
      IndeterminateResult db key (.error error, db)
  | kept (record : HardRiskOrderRecord) (known : db.orderState key = some .indeterminate) :
      IndeterminateResult db key (.ok record, db)
  | became {db' : HardRiskDatabase} {before : HardRiskOrderRecord} {reason : String} {now : Int}
      (record : HardRiskOrderRecord) (became : db.BecameIndeterminate db' key before reason now) :
      IndeterminateResult db key (.ok record, db')

/-- `record_submitted` with a receipt that is not refused: the receipt is stored, or the lease
has expired and the call fails although it commits. -/
inductive ReceiptResult (db : HardRiskDatabase) (key : HardRiskOrderKey) :
    Committed HardRiskOrderRecord → Prop
  | failed (error : HardRiskError) (plain : error.isPlain = true) :
      ReceiptResult db key (.error error, db)
  | kept (record : HardRiskOrderRecord) : ReceiptResult db key (.ok record, db)
  | expired {db' : HardRiskDatabase} {before : HardRiskOrderRecord} {reason : String} {now : Int}
      (became : db.BecameIndeterminate db' key before reason now) :
      ReceiptResult db key (.error (.leaseExpired key), db')
  | submitted {db' : HardRiskDatabase} {before after : HardRiskOrderRecord}
      (record : HardRiskOrderRecord) (moved : db.Moved db' key before after) :
      ReceiptResult db key (.ok record, db')

/-- `observe_terminal` and `reconcile_terminal`. -/
inductive TerminalResult (db : HardRiskDatabase) (key : HardRiskOrderKey) :
    Committed HardRiskOrderRecord → Prop
  | failed (error : HardRiskError) (plain : error.isPlain = true) :
      TerminalResult db key (.error error, db)
  | kept (record : HardRiskOrderRecord) : TerminalResult db key (.ok record, db)
  | moved {db' : HardRiskDatabase} {before after : HardRiskOrderRecord}
      (record : HardRiskOrderRecord) (moved : db.Moved db' key before after) :
      TerminalResult db key (.ok record, db')

/-- `prepare` inserts an order under a free key, within the limits of the active policy. -/
inductive PrepareResult (db : HardRiskDatabase) (request : HardRiskOrderRequest) :
    Committed HardRiskPrepareOutcome → Prop
  | failed (error : HardRiskError) (plain : error.isPlain = true) :
      PrepareResult db request (.error error, db)
  | kept (record : HardRiskOrderRecord) : PrepareResult db request (.ok (.existing record), db)
  | prepared {policy : HardRiskPolicyRecord} (fingerprint : String) (now : Int)
      (positive : 0 < request.volume)
      (free : db.readOrder request.key = none)
      (active : db.readActivePolicy request.scope.policyScope = some policy)
      (within : checkLimits db request.scope (policy.policy.ruleRequests request) = .ok ()) :
      PrepareResult db request (.ok (.prepared (preparedOrder request fingerprint policy now)),
        insertPrepared { db with maxObservedAtMs := now } request fingerprint policy now)

/-- `install_policy` writes policies only, and keeps the versions there are. -/
inductive InstallResult (db : HardRiskDatabase) : Committed HardRiskPolicyRecord → Prop
  | failed (error : HardRiskError) (plain : error.isPlain = true) : InstallResult db (.error error, db)
  | installed {db' : HardRiskDatabase} (record : HardRiskPolicyRecord)
      (orders : db'.orders = db.orders) (events : db'.events = db.events)
      (usage : db'.dailyUsage = db.dailyUsage ∧ db'.reservations = db.reservations)
      (versions : ∀ scope revision row, db.readPolicyVersion scope revision = some row →
        db'.readPolicyVersion scope revision = some row) :
      InstallResult db (.ok record, db')

/-- `recover_expired_submissions` makes submissions indeterminate, one after another. -/
inductive RecoveryResult (db : HardRiskDatabase) : Committed (List HardRiskOrderRecord) → Prop
  | failed (error : HardRiskError) (plain : error.isPlain = true) :
      RecoveryResult db (.error error, db)
  | recovered {db' : HardRiskDatabase} (records : List HardRiskOrderRecord) (now : Int)
      (swept : Swept { db with maxObservedAtMs := now } db') :
      RecoveryResult db (.ok records, db')

section Calls

variable {db : HardRiskDatabase} (keyed : db.Keyed) (clock : Except String Int)

include keyed

theorem beginSubmission_result (lease : Int) (idt : HardRiskOrderIdentity) (ownerId : String) :
    SubmissionResult db idt.key
      (beginSubmission db clock lease idt ownerId) := by
  refine transact_first (validateText_plain (by decide) _) .failed fun _ _ => ?_
  refine transact_first (unixEpochMillis_plain _) .failed fun now _ => ?_
  refine transact_first (leaseExpiry_plain _ _) .failed fun expiry _ => ?_
  refine transact_first (readAdmitted_plain _ _ _) .failed ?_
  rintro ⟨db', old⟩ admd
  obtain ⟨rfl, got, same⟩ := readAdmitted_ok admd
  dsimp only
  cases st : old.state with
  | prepared =>
    have moved := (db.logged_clock now).updateOrder got (fun ord => ord.state == .prepared)
      (by simp [st])
      (fun ord =>
        { ord with
          state := .submitting
          leaseOwner := some ownerId
          leaseGeneration := ord.leaseGeneration + 1
          leaseExpiresAtMs := some expiry
          updatedAtMs := now })
      (fun _ => ⟨rfl, rfl, rfl⟩) (by rw [st]; rfl) idt.requestFingerprint
      "submission_lease_granted" "network send may begin outside SQLite transaction" now
    dsimp only [HardRiskOrderState.asSql] at moved ⊢
    rw [readBack_moved moved]
    exact .granted _ moved st (congrArg (·.key) same)
  | submitting =>
    dsimp only
    split
    · have became := markIndeterminate_became keyed got st
        "submission lease expired before durable receipt" now
      rw [readBack_moved became.moved]
      exact .expired _ became
    · exact .kept old
  | submitted => exact .kept old
  | indeterminate => exact .kept old
  | terminal _ => exact .kept old

theorem recordIndeterminate_result (pmt : HardRiskSubmissionPermit) (why : String) :
    IndeterminateResult db pmt.identity.key (recordIndeterminate db clock pmt why) := by
  refine transact_first (validateText_plain (by decide) _) .failed fun _ _ => ?_
  refine transact_first (unixEpochMillis_plain _) .failed fun now _ => ?_
  refine transact_first (readAdmitted_plain _ _ _) .failed ?_
  rintro ⟨db', old⟩ admd
  obtain ⟨rfl, got, same⟩ := readAdmitted_ok admd
  dsimp only
  cases st : old.state with
  | indeterminate =>
    refine .kept old ?_
    rw [orderState, got, map_some, st]
  | submitting =>
    dsimp only
    split
    · exact .failed _ rfl
    · have became := markIndeterminate_became keyed got st why now
      rw [readBack_moved became.moved]
      exact .became _ became
  | prepared => exact .failed _ rfl
  | submitted => exact .failed _ rfl
  | terminal _ => exact .failed _ rfl

theorem recordReceipt_result (pmt : HardRiskSubmissionPermit) (rcpt : HardRiskRuntimeReceipt) :
    ReceiptResult db pmt.identity.key (recordReceipt db clock pmt rcpt) := by
  refine transact_first (unixEpochMillis_plain _) .failed fun now _ => ?_
  refine transact_first (readAdmitted_plain _ _ _) .failed ?_
  rintro ⟨db', old⟩ admd
  obtain ⟨rfl, got, same⟩ := readAdmitted_ok admd
  dsimp only
  cases st : old.state with
  | submitted =>
    dsimp only
    split
    · exact .kept old
    · exact .failed _ rfl
  | submitting =>
    dsimp only
    split
    · exact .failed _ rfl
    · rename_i lease
      split
      · have became := markIndeterminate_became keyed got st
          "submission lease expired before durable receipt" now
        rw [(keyed.stored got).1]
        exact .expired became
      · split
        · exact .failed _ (by decide)
        · rw [not_or, not_not, not_not] at lease
          have moved := (db.logged_clock now).updateOrder got
            (fun ord => ord.state == .submitting &&
              ord.leaseOwner == some pmt.ownerId &&
              ord.leaseGeneration == pmt.leaseGeneration)
            (by simp [st, lease])
            (fun ord =>
              { ord with
                state := .submitted
                runtimeReceipt :=
                  some ⟨ord.request.clientOrderId, rcpt.runtimeRunId, rcpt.commandId⟩
                updatedAtMs := now })
            (fun _ => ⟨rfl, rfl, rfl⟩) (by rw [st]; rfl) pmt.identity.requestFingerprint
            "submitted" "network dispatch receipt persisted" now
          dsimp only [HardRiskOrderState.asSql] at moved ⊢
          rw [readBack_moved moved]
          exact .submitted _ moved
  | prepared => exact .failed _ rfl
  | indeterminate => exact .failed _ rfl
  | terminal _ => exact .failed _ rfl

omit keyed in
theorem writeTerminal_moved {base : HardRiskDatabase} (logged : db.Logged base)
    {idt : HardRiskOrderIdentity} {old : HardRiskOrderRecord}
    (got : db.readOrder idt.key = some old) (st : HardRiskTerminalState)
    (mvs : old.state.canMoveTo (.terminal st) = true) (rev : Option Nat) (now : Int) :
    db.Moved (writeTerminal base idt st rev now) idt.key old
      { old with
        state := .terminal st
        terminalRevision := rev
        updatedAtMs := now } :=
  logged.updateOrder got (fun _ => true) rfl
    (fun ord =>
      { ord with
        state := .terminal st
        terminalRevision := rev
        updatedAtMs := now })
    (fun _ => ⟨rfl, rfl, rfl⟩) mvs idt.requestFingerprint "terminal" st.asSql now

omit keyed in
theorem observeTerminal_result (idt : HardRiskOrderIdentity) (obs : HardRiskTerminalObservation) :
    TerminalResult db idt.key (observeTerminal db clock idt obs) := by
  refine transact_first (unixEpochMillis_plain _) .failed fun now _ => ?_
  dsimp only
  split
  · exact .failed _ (by decide)
  · refine transact_first (readAdmitted_plain _ _ _) .failed ?_
    rintro ⟨db', old⟩ admd
    obtain ⟨rfl, got, same⟩ := readAdmitted_ok admd
    dsimp only
    cases st : old.state with
    | terminal cur =>
      dsimp only
      split
      · exact .kept old
      · exact .failed _ rfl
    | submitted =>
      have moved := writeTerminal_moved (db.logged_clock now) got obs.state
        (by rw [st]; rfl) obs.runtimeRevision now
      dsimp only
      rw [readBack_moved moved]
      exact .moved _ moved
    | prepared => exact .failed _ rfl
    | submitting => exact .failed _ rfl
    | indeterminate => exact .failed _ rfl

omit keyed in
theorem reconcileTerminal_result (snap : HardRiskCompleteTradeSnapshot)
    (idt : HardRiskOrderIdentity) (obs : HardRiskTerminalObservation) :
    TerminalResult db idt.key
      (reconcileTerminal db clock snap idt obs) := by
  refine transact_first snap.scope.validate_plain .failed fun _ _ => ?_
  dsimp only
  split
  · exact .failed _ (by decide)
  refine transact_first (unixEpochMillis_plain _) .failed fun now _ => ?_
  split
  · exact .failed _ (by decide)
  refine transact_first (readAdmitted_plain _ _ _) .failed ?_
  rintro ⟨db', old⟩ admd
  obtain ⟨rfl, got, same⟩ := readAdmitted_ok admd
  dsimp only
  split
  · exact .failed _ rfl
  -- the reconciliation is audited first, in a state of its own
  have logged := (db.logged_clock now).writeEvent idt.key idt.requestFingerprint
    "ReconciledSubmission" "recovered_submission"
    ("complete trade snapshot revision=" ++ toString snap.runtimeRevision ++
      " reconciled ambiguous submission") now
  have put (moves : old.state.canMoveTo (.terminal obs.state) = true) :=
    writeTerminal_moved logged got obs.state moves (some snap.runtimeRevision) now
  cases st : old.state with
  | terminal cur =>
    dsimp only
    split
    · exact .kept old
    · exact .failed _ rfl
  | submitting =>
    have moved := put (by rw [st]; rfl)
    dsimp only
    rw [readBack_moved moved]
    exact .moved _ moved
  | indeterminate =>
    have moved := put (by rw [st]; rfl)
    dsimp only
    rw [readBack_moved moved]
    exact .moved _ moved
  | prepared => exact .failed _ rfl
  | submitted => exact .failed _ rfl

omit keyed in
theorem recoverEach_cons {det : String} {now : Int} {key : HardRiskOrderKey}
    {keys : List HardRiskOrderKey} {old upd : HardRiskOrderRecord}
    {recs : List HardRiskOrderRecord} {db' : HardRiskDatabase}
    (hd : db.readBack key "recovery candidate disappeared before transition" = .ok old)
    (back : (db.markIndeterminate old det now).readBack key
      "recovered submission disappeared before commit" = .ok upd)
    (rest : recoverEach det now (db.markIndeterminate old det now) keys = .ok (recs, db')) :
    recoverEach det now db (key :: keys) = .ok (upd :: recs, db') := by
  rw [recoverEach, hd]
  change (HardRiskDatabase.readBack _ key _ >>= _) = _
  rw [back]
  change (recoverEach det now _ keys >>= _) = _
  rw [rest]
  rfl

/-- The loop of the recovery, over distinct orders that are submitting. -/
theorem recoverEach_swept (det : String) {keys : List HardRiskOrderKey} (nd : keys.Nodup)
    (subm : ∀ key ∈ keys, db.orderState key = some .submitting) :
    ∃ recs db', recoverEach det db.maxObservedAtMs db keys = .ok (recs, db') ∧ Swept db db' := by
  induction keys generalizing db with
  | nil => exact ⟨[], db, rfl, .refl⟩
  | cons key keys ih =>
    obtain ⟨old, got, st⟩ := map_eq_some_iff.mp (subm key mem_cons_self)
    have now : db.BecameIndeterminate (db.markIndeterminate old det
        db.maxObservedAtMs) key old det db.maxObservedAtMs :=
      markIndeterminate_became keyed got st det db.maxObservedAtMs
    rw [nodup_cons] at nd
    -- the other candidates are still submitting
    have alts : ∀ alt ∈ keys, (db.markIndeterminate old det
        db.maxObservedAtMs).orderState alt = some .submitting := by
      intro alt mem
      have ne : alt ≠ key := fun same => nd.1 (same ▸ mem)
      rw [now.moved.orderState, if_neg ne]
      exact subm alt (mem_cons_of_mem _ mem)
    obtain ⟨recs, db', rest, swept⟩ := ih (now.moved.keyed keyed) nd.2 alts
    have hd : db.readBack key "recovery candidate disappeared before transition" =
        .ok old := by
      rw [HardRiskDatabase.readBack, got]
    have back := readBack_moved now.moved "recovered submission disappeared before commit"
    exact ⟨_, db', recoverEach_cons hd back rest, .head ⟨_, _, _, _, now⟩ swept⟩

theorem expiredSubmissions_submitting (sc : HardRiskScope) (now : Int) :
    (expiredSubmissions db sc now).Nodup ∧
      ∀ key ∈ expiredSubmissions db sc now, db.orderState key = some .submitting := by
  constructor
  · exact keyed.distinct.sublist (filter_sublist.map Prod.fst)
  · intro key mem
    obtain ⟨ent, cand, rfl⟩ := mem_map.mp mem
    obtain ⟨got, pick⟩ := mem_filter.mp cand
    simp only [Bool.and_eq_true, beq_iff_eq] at pick
    rw [orderState, HardRiskDatabase.readOrder, Table.get?_of_mem keyed.distinct got,
      map_some, pick.1.2]

theorem recoverExpiredSubmissions_result (readiness : HardRiskRecoveryReadiness) :
    RecoveryResult db (recoverExpiredSubmissions db clock readiness) := by
  cases readiness with
  | incompleteTradeSnapshot sc => exact .failed _ rfl
  | completeTradeSnapshot snap =>
    refine transact_first snap.scope.validate_plain .failed fun _ _ => ?_
    refine transact_first (unixEpochMillis_plain _) .failed fun now _ => ?_
    refine transact_first (advanceClock_plain _ _) .failed fun next adv => ?_
    obtain rfl := advanceClock_ok adv
    have keyed' : { db with maxObservedAtMs := now }.Keyed := keyed.of_orders rfl
    obtain ⟨nd, subm⟩ := expiredSubmissions_submitting keyed' snap.scope now
    obtain ⟨recs, db', recovered, swept⟩ := recoverEach_swept keyed'
      ("submission lease expired during complete trade snapshot recovery " ++
        "revision=" ++ toString snap.runtimeRevision) nd subm
    dsimp only at recovered ⊢
    rw [recovered]
    exact .recovered recs now swept

omit keyed in
theorem checkLimits_plain (sc : HardRiskScope) (rules : List RuleReservation) :
    FailsPlainly (checkLimits db sc rules) := by
  induction rules with
  | nil => exact .ok _
  | cons rule rules ih =>
    unfold checkLimits
    dsimp only
    split
    · exact .error (by decide)
    · split
      · exact .error rfl
      · exact ih

omit keyed in
theorem checkLimits_clock (now : Int) (sc : HardRiskScope) (rules : List RuleReservation) :
    checkLimits { db with maxObservedAtMs := now } sc rules = checkLimits db sc rules := by
  induction rules with
  | nil => rfl
  | cons rule rules ih =>
    rw [checkLimits, checkLimits, ih]
    rfl

omit keyed in
theorem foldl_reserve_frame (db : HardRiskDatabase) (req : HardRiskOrderRequest) (now : Int)
    (rules : List RuleReservation) :
    ∃ usage ress, rules.foldl (reserve req now) db =
      { db with dailyUsage := usage, reservations := ress } := by
  induction rules generalizing db with
  | nil => exact ⟨db.dailyUsage, db.reservations, rfl⟩
  | cons rule rules ih =>
    obtain ⟨usage, ress, after⟩ := ih (reserve req now db rule)
    exact ⟨usage, ress, after⟩

omit keyed in
theorem insertPrepared_frame (db : HardRiskDatabase) (req : HardRiskOrderRequest)
    (fp : String) (pol : HardRiskPolicyRecord) (now : Int) :
    (insertPrepared db req fp pol now).orders =
        Table.insert req.key (preparedOrder req fp pol now) db.orders ∧
      (insertPrepared db req fp pol now).events = db.events ++
        [⟨req.key, fp, "Prepared", "prepared",
          "durable admission and usage reservation committed", now⟩] := by
  unfold insertPrepared
  obtain ⟨usage, ress, after⟩ := foldl_reserve_frame { db with
    orders := Table.insert req.key (preparedOrder req fp pol now) db.orders }
    req now (pol.policy.ruleRequests req)
  dsimp only
  rw [after]
  exact ⟨rfl, rfl⟩

omit keyed in
theorem validate_positive {req : HardRiskOrderRequest} (fine : req.validate = .ok ()) :
    0 < req.volume := by
  by_contra nonpositive
  rw [HardRiskOrderRequest.validate, if_pos (Int.not_lt.mp nonpositive)] at fine
  cases h1 : req.scope.validate <;> rw [h1] at fine
  · cases fine
  cases h2 : validateText "client_order_id" req.clientOrderId <;> rw [h2] at fine
  · cases fine
  cases h3 : validateText "symbol" req.symbol <;> rw [h3] at fine <;> cases fine

omit keyed in
theorem prepare_result (env : HardRiskEnv) (req : HardRiskOrderRequest) :
    PrepareResult db req (prepare env db clock req) := by
  refine transact_first req.validate_plain .failed fun _ fine => ?_
  refine transact_first (unixEpochMillis_plain _) .failed fun now _ => ?_
  cases got : db.readOrder req.key with
  | some old =>
    dsimp only
    split
    · exact .failed _ rfl
    · exact .kept old
  | none =>
    refine transact_first (advanceClock_plain _ _) .failed fun next adv => ?_
    obtain rfl := advanceClock_ok adv
    have same : { db with maxObservedAtMs := now }.readActivePolicy req.scope.policyScope =
      db.readActivePolicy req.scope.policyScope := rfl
    cases act : db.readActivePolicy req.scope.policyScope with
    | none =>
      rw [same, act]
      exact .failed _ rfl
    | some pol =>
      rw [same, act]
      refine transact_first (checkLimits_plain _ _) .failed fun _ win => ?_
      have back : (insertPrepared { db with maxObservedAtMs := now } req
          (requestFingerprint env req pol.policy) pol now).readBack req.key
          "prepared order disappeared before commit" =
            .ok (preparedOrder req (requestFingerprint env req pol.policy) pol now) := by
        rw [HardRiskDatabase.readBack, HardRiskDatabase.readOrder, (insertPrepared_frame ..).1,
          Table.get?_insert, show Table.get? req.key db.orders = none from got,
          none_or, if_pos rfl]
      dsimp only
      rw [back]
      exact .prepared _ now (validate_positive fine) got act
        ((checkLimits_clock now req.scope _).symm.trans win)

omit keyed in
theorem insertPolicyVersion_ok {sc : HardRiskPolicyScope} {pol : HardRiskPolicy}
    {rev : HardRiskPolicyRevision} {expn : HardRiskPolicyExpectation} {now : Int}
    {db' : HardRiskDatabase} (ins : insertPolicyVersion db sc pol rev expn now = .ok db') :
    ∃ policies, db' = { db with policies := policies } ∧
      ∀ key row, Table.get? key db.policies = some row → Table.get? key policies = some row := by
  unfold insertPolicyVersion at ins
  dsimp only at ins
  split at ins
  · split at ins
    · cases ins
    · cases ins
      exact ⟨_, rfl, fun _ _ got => got⟩
  · split at ins
    · cases ins
    · cases ins
      refine ⟨_, rfl, fun key row got => ?_⟩
      rw [Table.get?_insert, got, some_or]

omit keyed in
theorem insertPolicyVersion_plain (sc : HardRiskPolicyScope) (pol : HardRiskPolicy)
    (rev : HardRiskPolicyRevision) (expn : HardRiskPolicyExpectation) (now : Int) :
    FailsPlainly (insertPolicyVersion db sc pol rev expn now) := by
  unfold insertPolicyVersion
  dsimp only
  split
  · split
    · exact .error rfl
    · exact .ok _
  · split
    · exact .error rfl
    · exact .ok _

omit keyed in
theorem installPolicy_result (env : HardRiskEnv) (scope : HardRiskPolicyScope)
    (pol : HardRiskPolicy) (expn : HardRiskPolicyExpectation) :
    InstallResult db (installPolicy env db clock scope pol expn) := by
  refine transact_first scope.validate_plain .failed fun _ _ => ?_
  refine transact_first pol.validate_plain .failed fun _ _ => ?_
  refine transact_first (unixEpochMillis_plain _) .failed fun now _ => ?_
  refine transact_first (advanceClock_plain _ _) .failed fun next adv => ?_
  obtain rfl := advanceClock_ok adv
  dsimp only
  split
  · exact .failed _ rfl
  refine transact_first (insertPolicyVersion_plain _ _ _ _ _) .failed fun next ins => ?_
  obtain ⟨policies, rfl, kept⟩ := insertPolicyVersion_ok ins
  split
  · exact .failed _ rfl
  · refine .installed _ ?_ ?_ ⟨?_, ?_⟩ ?_
    · split <;> rfl
    · split <;> rfl
    · split <;> rfl
    · split <;> rfl
    · intro scope' rev row got
      obtain ⟨hit, same⟩ := filter_eq_some_iff.mp got
      have still : (Table.get? (scope', rev.policyId, rev.policyVersion) policies).filter
          (·.policyFingerprint == rev.policyFingerprint) = some row :=
        filter_eq_some_iff.mpr ⟨kept _ _ hit, same⟩
      split <;> exact still

end Calls

end HardRiskAuthority

end Tqsdk
