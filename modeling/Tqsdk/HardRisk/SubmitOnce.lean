import Tqsdk.HardRisk.Transitions

/-!
# Every order is sent at most once

The calls of any number of processes on one database, one transaction after another.  Over
every such run at most one submission permit is granted for an order, the state of an order
only moves forward, every move is audited, and a call that fails has changed nothing, unless it
has made an order indeterminate.
-/

namespace Tqsdk

open List Option

/-! ## Runs -/

inductive HardRiskCall
  | installPolicy (scope : HardRiskPolicyScope) (policy : HardRiskPolicy)
      (expectation : HardRiskPolicyExpectation)
  | prepare (request : HardRiskOrderRequest)
  | beginSubmission (submissionLease : Int) (identity : HardRiskOrderIdentity) (ownerId : String)
  | recordSubmitted (permit : HardRiskSubmissionPermit) (receipt : HardRiskRuntimeReceipt)
  | recordIndeterminate (permit : HardRiskSubmissionPermit) (reason : String)
  | observeTerminal (identity : HardRiskOrderIdentity)
      (observation : HardRiskTerminalObservation)
  | reconcileTerminal (snapshot : HardRiskCompleteTradeSnapshot)
      (identity : HardRiskOrderIdentity) (observation : HardRiskTerminalObservation)
  | recoverExpiredSubmissions (readiness : HardRiskRecoveryReadiness)

inductive HardRiskAnswer
  | policy (record : HardRiskPolicyRecord)
  | prepare (outcome : HardRiskPrepareOutcome)
  | submission (outcome : HardRiskSubmissionOutcome)
  | order (record : HardRiskOrderRecord)
  | recovered (records : List HardRiskOrderRecord)

/-- A call by some process: the wall clock it reads, and whether SQLite fails it. -/
structure HardRiskInvocation where
  call : HardRiskCall
  clock : Except String Int
  storageFailure : Option (String × String)

def Committed.answer {α : Type} (wrap : α → HardRiskAnswer) (out : Committed α) :
    Committed HardRiskAnswer :=
  (out.1.map wrap, out.2)

namespace HardRiskAuthority

def answer (env : HardRiskEnv) (db : HardRiskDatabase) (clock : Except String Int) :
    HardRiskCall → Committed HardRiskAnswer
  | .installPolicy scope policy expectation =>
    (installPolicy env db clock scope policy expectation).answer .policy
  | .prepare request => (prepare env db clock request).answer .prepare
  | .beginSubmission submissionLease identity ownerId =>
    (beginSubmission db clock submissionLease identity ownerId).answer .submission
  | .recordSubmitted permit receipt =>
    (recordSubmitted env db clock permit receipt).answer .order
  | .recordIndeterminate permit reason =>
    (recordIndeterminate db clock permit reason).answer .order
  | .observeTerminal identity observation =>
    (observeTerminal db clock identity observation).answer .order
  | .reconcileTerminal snapshot identity observation =>
    (reconcileTerminal db clock snapshot identity observation).answer .order
  | .recoverExpiredSubmissions readiness =>
    (recoverExpiredSubmissions db clock readiness).answer .recovered

/-- One call, as one transaction.  A transaction that SQLite fails is rolled back. -/
def perform (env : HardRiskEnv) (db : HardRiskDatabase) (invocation : HardRiskInvocation) :
    Committed HardRiskAnswer :=
  match invocation.storageFailure with
  | some (operation, reason) => (.error (.storage operation reason), db)
  | none => answer env db invocation.clock invocation.call

/-- The answers of a run from the new database, in order, and the database it leaves. -/
def run (env : HardRiskEnv) (invocations : List HardRiskInvocation) :
    List (Except HardRiskError HardRiskAnswer) × HardRiskDatabase :=
  invocations.foldl
    (fun run invocation =>
      let out := perform env run.2 invocation
      (run.1 ++ [out.1], out.2))
    ([], .empty)

theorem run_concat (env : HardRiskEnv) (invs : List HardRiskInvocation)
    (next : HardRiskInvocation) :
    run env (invs ++ [next]) =
      ((run env invs).1 ++ [(perform env (run env invs).2 next).1],
        (perform env (run env invs).2 next).2) := by
  rw [run, foldl_append]
  rfl

end HardRiskAuthority

/-- The order whose permit an answer grants. -/
def grantedKey : Except HardRiskError HardRiskAnswer → Option HardRiskOrderKey
  | .ok (.submission (.granted permit)) => some permit.identity.key
  | _ => none

/-! ## The orders move forward -/

namespace HardRiskOrderState

/-- An order is admitted as prepared and moves from there. -/
def canFollow : Option HardRiskOrderState → HardRiskOrderState → Bool
  | none, .prepared => true
  | none, _ => false
  | some before, after => before.canMoveTo after

end HardRiskOrderState

namespace HardRiskDatabase

/-- Every order has kept its state or has moved on, and of a move there is an event among the
added ones that names the new state. -/
def Advanced (db db' : HardRiskDatabase) : Prop :=
  ∃ added, db'.events = db.events ++ added ∧
    ∀ key, db'.orderState key = db.orderState key ∨
      ∃ state, db'.orderState key = some state ∧
        HardRiskOrderState.canFollow (db.orderState key) state = true ∧
        ∃ event ∈ added, event.key = key ∧ event.state = state.asSql

theorem Advanced.of_same {db db' : HardRiskDatabase} (ords : db'.orders = db.orders)
    (evs : db'.events = db.events) : db.Advanced db' := by
  refine ⟨[], by rw [evs, append_nil], fun key => .inl ?_⟩
  rw [orderState, orderState, readOrder, readOrder, ords]

variable {key : HardRiskOrderKey}

section

variable {db db' : HardRiskDatabase}

theorem Moved.advanced {pre post : HardRiskOrderRecord} (move : db.Moved db' key pre post) :
    db.Advanced db' := by
  obtain ⟨plus, evs, nm⟩ := move.events
  refine ⟨plus, evs, fun alt => ?_⟩
  rw [move.orderState]
  by_cases here : alt = key
  · subst here
    refine .inr ⟨post.state, if_pos rfl, ?_, nm⟩
    rw [HardRiskDatabase.orderState, move.stored]
    exact move.moves
  · exact .inl (if_neg here)

theorem readOrder_insert {row : HardRiskOrderRecord} (free : db.readOrder key = none)
    (ords : db'.orders = Table.insert key row db.orders) (alt : HardRiskOrderKey) :
    db'.readOrder alt = if alt = key then some row else db.readOrder alt := by
  rw [readOrder, ords, Table.get?_insert]
  by_cases here : alt = key
  · subst here
    rw [show Table.get? alt db.orders = none from free, none_or, if_pos rfl, if_pos rfl]
  · rw [if_neg (Ne.symm here), if_neg here, or_none]
    rfl

theorem Keyed.insert (keyed : db.Keyed) {row : HardRiskOrderRecord} (free : db.readOrder key = none)
    (ords : db'.orders = Table.insert key row db.orders) (req : row.request.key = key)
    (idt : row.identity.key = key) : db'.Keyed := by
  constructor
  · rw [ords, Table.insert, map_append, map_singleton, ← concat_eq_append]
    exact keyed.distinct.concat (Table.get?_eq_none_iff.mp free)
  · rw [ords, Table.insert]
    intro ent mem
    rcases mem_append.mp mem with old | new
    · exact keyed.own ent old
    · obtain rfl := mem_singleton.mp new
      exact ⟨req, idt⟩

/-- A sweep adds an event for every submission that it makes indeterminate. -/
theorem Swept.states (swept : Swept db db') :
    ∃ plus, db'.events = db.events ++ plus ∧
      ∀ key, db'.orderState key = db.orderState key ∨
        db.orderState key = some .submitting ∧ db'.orderState key = some .indeterminate ∧
          ∃ ev ∈ plus, ev.key = key ∧ ev.state = HardRiskOrderState.indeterminate.asSql := by
  induction swept with
  | refl => exact ⟨[], (append_nil _).symm, fun _ => .inl rfl⟩
  | tail _ last ih =>
    obtain ⟨prior, events, states⟩ := ih
    obtain ⟨key, pre, why, now, became⟩ := last
    obtain ⟨plus, events', nm⟩ := became.moved.events
    refine ⟨prior ++ plus, by rw [events', events, append_assoc], fun alt => ?_⟩
    rw [became.moved.orderState]
    by_cases here : alt = key
    · subst here
      -- it was submitting before the sweep, or it would not have become so
      rcases states alt with same | ⟨-, already, -⟩
      · refine .inr ⟨?_, if_pos rfl, ?_⟩
        · rw [← same, orderState, became.stored, map_some, became.submitting]
        · obtain ⟨ev, mem, own, st⟩ := nm
          exact ⟨ev, mem_append_right _ mem, own, st⟩
      · rw [orderState, became.stored, map_some, became.submitting] at already
        cases already
    · rw [if_neg here]
      rcases states alt with same | ⟨subm, indeterminate, ev, mem, nm⟩
      · exact .inl same
      · exact .inr ⟨subm, indeterminate, ev, mem_append_left _ mem, nm⟩

theorem Swept.advanced (swept : Swept db db') : db.Advanced db' := by
  obtain ⟨plus, evs, states⟩ := swept.states
  refine ⟨plus, evs, fun key => (states key).imp_right ?_⟩
  rintro ⟨subm, indeterminate, nm⟩
  refine ⟨_, indeterminate, ?_, nm⟩
  rw [subm]
  rfl

theorem Swept.keyed (swept : Swept db db') (keyed : db.Keyed) :
    db'.Keyed := by
  induction swept with
  | refl => exact keyed
  | tail _ last ih =>
    obtain ⟨key, pre, why, now, became⟩ := last
    exact became.moved.keyed ih

end

/-- An order of which no permit has been granted. -/
def Unsent (db : HardRiskDatabase) (key : HardRiskOrderKey) : Prop :=
  db.orderState key = none ∨ db.orderState key = some .prepared

theorem Advanced.unsent {db db' : HardRiskDatabase} (adv : db.Advanced db')
    (unsent : db'.Unsent key) : db.Unsent key := by
  obtain ⟨plus, -, states⟩ := adv
  rcases states key with same | ⟨st, post, next, -⟩
  · rw [Unsent, same] at unsent
    exact unsent
  · rw [Unsent, post] at unsent
    rcases unsent with gone | prepared
    · cases gone
    · obtain rfl := some.inj prepared
      cases pre : db.orderState key with
      | none => exact .inl pre
      | some old =>
        rw [pre] at next
        cases old <;> cases next

end HardRiskDatabase

/-! ## What any call does -/

/-- The permit is the lease under which the order is being submitted. -/
structure HardRiskSubmissionPermit.Holds (permit : HardRiskSubmissionPermit)
    (existing : HardRiskOrderRecord) : Prop where
  identity : existing.identity = permit.identity
  submitting : existing.state = .submitting
  owner : existing.leaseOwner = some permit.ownerId
  generation : existing.leaseGeneration = permit.leaseGeneration

namespace HardRiskAuthority

open HardRiskDatabase

/-- How a call can fail.  It has been rolled back, unless it has found the lease expired or has
refused the receipt: then the order has become indeterminate, and nothing else has happened.
A receipt that is refused once more finds the order indeterminate already. -/
inductive Failure (db : HardRiskDatabase) :
    HardRiskCall → HardRiskError → HardRiskDatabase → Prop
  | rolledBack {call : HardRiskCall} {error : HardRiskError} (plain : error.isPlain = true) :
      Failure db call error db
  | leaseExpired {permit : HardRiskSubmissionPermit} {receipt : HardRiskRuntimeReceipt}
      {db' : HardRiskDatabase} {before : HardRiskOrderRecord} {reason : String} {now : Int}
      (fits : permit.refusal receipt = none)
      (became : db.BecameIndeterminate db' permit.identity.key before reason now) :
      Failure db (.recordSubmitted permit receipt) (.leaseExpired permit.identity.key) db'
  | receiptRefused {permit : HardRiskSubmissionPermit} {receipt : HardRiskRuntimeReceipt}
      {refusal : ReceiptRefusal} {db' : HardRiskDatabase} {before : HardRiskOrderRecord}
      {reason : String} {now : Int} (refused : permit.refusal receipt = some refusal)
      (became : db.BecameIndeterminate db' permit.identity.key before reason now) :
      Failure db (.recordSubmitted permit receipt) refusal.error db'
  | refusedAgain {permit : HardRiskSubmissionPermit} {receipt : HardRiskRuntimeReceipt}
      {refusal : ReceiptRefusal} (refused : permit.refusal receipt = some refusal)
      (known : db.orderState permit.identity.key = some .indeterminate) :
      Failure db (.recordSubmitted permit receipt) refusal.error db

structure Performed (db : HardRiskDatabase) (call : HardRiskCall)
    (out : Committed HardRiskAnswer) : Prop where
  keyed : out.2.Keyed
  advanced : db.Advanced out.2
  failure : ∀ error, out.1 = .error error → Failure db call error out.2
  granted : ∀ key, grantedKey out.1 = some key → db.orderState key = some .prepared ∧
    out.2.orderState key = some .submitting

section Performed

variable {db db' : HardRiskDatabase} {call : HardRiskCall}

theorem Performed.rolledBack (keyed : db.Keyed) {error : HardRiskError}
    (raw : error.isPlain = true) : Performed db call (.error error, db) where
  keyed := keyed
  advanced := .of_same rfl rfl
  failure := by
    rintro _ ⟨⟩
    exact .rolledBack raw
  granted := nofun

theorem Performed.failed (keyed : db'.Keyed) (adv : db.Advanced db') {error : HardRiskError}
    (failure : Failure db call error db') : Performed db call (.error error, db') where
  keyed := keyed
  advanced := adv
  failure := by
    rintro _ ⟨⟩
    exact failure
  granted := nofun

variable {answer : HardRiskAnswer}

theorem Performed.answered (keyed : db'.Keyed) (adv : db.Advanced db')
    (alt : grantedKey (.ok answer) = none) :
    Performed db call (.ok answer, db') where
  keyed := keyed
  advanced := adv
  failure := nofun
  granted := by
    intro key granted
    rw [alt] at granted
    cases granted

theorem Performed.kept (keyed : db.Keyed) (alt : grantedKey (.ok answer) = none) :
    Performed db call (.ok answer, db) :=
  .answered keyed (.of_same rfl rfl) alt

theorem Performed.moved {key : HardRiskOrderKey} {pre post : HardRiskOrderRecord}
    (keyed : db.Keyed) (move : db.Moved db' key pre post)
    (alt : grantedKey (.ok answer) = none) : Performed db call (.ok answer, db') :=
  .answered (move.keyed keyed) move.advanced alt

end Performed

section Calls

variable {db : HardRiskDatabase} (keyed : db.Keyed) (env : HardRiskEnv)
  (clock : Except String Int)

include keyed

variable {key : HardRiskOrderKey} {existing : HardRiskOrderRecord}

section

variable {call : HardRiskCall}

theorem SubmissionResult.performed {out : Committed HardRiskSubmissionOutcome}
    (res : SubmissionResult db key out) :
    Performed db call (out.answer .submission) := by
  cases res with
  | failed err raw => exact .rolledBack keyed raw
  | kept rcd => exact .kept keyed rfl
  | expired rcd now => exact .moved keyed now.moved rfl
  | @granted db' pre post pmt move prep same =>
    refine ⟨move.keyed keyed, move.advanced, nofun, fun alt granted => ?_⟩
    obtain rfl : key = alt := same.symm.trans (some.inj granted)
    have subm : post.state = .submitting := by
      have mvs := move.moves
      rw [prep] at mvs
      cases st : post.state <;> rw [st] at mvs <;> first | rfl | cases mvs
    constructor
    · rw [orderState, move.stored, map_some, prep]
    · exact (move.orderState key).trans (by rw [if_pos rfl, subm])

theorem PrepareResult.performed {req : HardRiskOrderRequest}
    {out : Committed HardRiskPrepareOutcome} (res : PrepareResult db req out) :
    Performed db call (out.answer .prepare) := by
  cases res with
  | failed err raw => exact .rolledBack keyed raw
  | kept rcd => exact .kept keyed rfl
  | @prepared pol fp now pos free act win =>
    obtain ⟨ords, evs⟩ := insertPrepared_frame { db with maxObservedAtMs := now } req fp pol now
    have adv : db.Advanced (insertPrepared { db with maxObservedAtMs := now } req fp
        pol now) := by
      refine ⟨_, evs, fun key => ?_⟩
      rw [orderState, readOrder_insert free ords]
      by_cases here : key = req.key
      · subst here
        refine .inr ⟨.prepared, ?_, ?_, _, mem_singleton_self _, rfl, rfl⟩
        · rw [if_pos rfl]
          rfl
        · rw [orderState, free]
          rfl
      · rw [if_neg here]
        exact .inl rfl
    exact .answered (keyed.insert free ords rfl rfl) adv rfl

theorem InstallResult.performed {out : Committed HardRiskPolicyRecord}
    (res : InstallResult db out) : Performed db call (out.answer .policy) := by
  cases res with
  | failed err raw => exact .rolledBack keyed raw
  | installed rcd ords evs usage versions =>
    exact .answered (keyed.of_orders ords) (.of_same ords evs) rfl

theorem IndeterminateResult.performed {out : Committed HardRiskOrderRecord}
    (res : IndeterminateResult db key out) :
    Performed db call (out.answer .order) := by
  cases res with
  | failed err raw => exact .rolledBack keyed raw
  | kept rcd seen => exact .kept keyed rfl
  | became rcd became => exact .moved keyed became.moved rfl

theorem TerminalResult.performed {out : Committed HardRiskOrderRecord}
    (res : TerminalResult db key out) :
    Performed db call (out.answer .order) := by
  cases res with
  | failed err raw => exact .rolledBack keyed raw
  | kept rcd => exact .kept keyed rfl
  | moved rcd moved => exact .moved keyed moved rfl

theorem RecoveryResult.performed {out : Committed (List HardRiskOrderRecord)}
    (res : RecoveryResult db out) :
    Performed db call (out.answer .recovered) := by
  cases res with
  | failed err raw => exact .rolledBack keyed raw
  | recovered recs now swept =>
    have adv : db.Advanced _ := swept.advanced
    exact .answered (swept.keyed (keyed.of_orders rfl)) adv rfl

end

theorem recordSubmitted_performed (pmt : HardRiskSubmissionPermit) (rcpt : HardRiskRuntimeReceipt) :
    Performed db (.recordSubmitted pmt rcpt)
      ((recordSubmitted env db clock pmt rcpt).answer .order) := by
  unfold recordSubmitted
  cases no : pmt.refusal rcpt with
  | none =>
    have res := recordReceipt_result keyed clock pmt rcpt
    dsimp only
    generalize recordReceipt db clock pmt rcpt = out at res ⊢
    cases res with
    | failed err raw => exact .rolledBack keyed raw
    | kept rcd => exact .kept keyed rfl
    | expired became =>
      exact .failed (became.moved.keyed keyed) became.moved.advanced (.leaseExpired no became)
    | submitted rcd move => exact .moved keyed move rfl
  | some ref =>
    have res := recordIndeterminate_result keyed clock pmt (ref.reason env)
    dsimp only
    generalize recordIndeterminate db clock pmt (ref.reason env) = out at res ⊢
    cases res with
    | failed err raw => exact .rolledBack keyed raw
    | kept rcd seen => exact .failed keyed (.of_same rfl rfl) (.refusedAgain no seen)
    | became rcd became =>
      exact .failed (became.moved.keyed keyed) became.moved.advanced (.receiptRefused no became)

theorem perform_performed (invoc : HardRiskInvocation) :
    Performed db invoc.call (perform env db invoc) := by
  unfold perform
  split
  · exact .rolledBack keyed rfl
  · cases invoc.call with
    | installPolicy sc pol expn => exact (installPolicy_result _ env sc pol expn).performed keyed
    | prepare req => exact (prepare_result _ env req).performed keyed
    | beginSubmission lease idt ownerId =>
      exact (beginSubmission_result keyed _ lease idt ownerId).performed keyed
    | recordSubmitted pmt rcpt => exact recordSubmitted_performed keyed env _ pmt rcpt
    | recordIndeterminate pmt why =>
      exact (recordIndeterminate_result keyed _ pmt why).performed keyed
    | observeTerminal idt obs => exact (observeTerminal_result _ idt obs).performed keyed
    | reconcileTerminal snap idt obs =>
      exact (reconcileTerminal_result _ snap idt obs).performed keyed
    | recoverExpiredSubmissions readiness =>
      exact (recoverExpiredSubmissions_result keyed _ readiness).performed keyed

omit keyed in
theorem readAdmitted_of_stored {now : Int} {idt : HardRiskOrderIdentity}
    (adv : db.maxObservedAtMs ≤ now) (got : db.readOrder idt.key = some existing)
    (same : existing.identity = idt) :
    db.readAdmitted now idt = .ok ({ db with maxObservedAtMs := now }, existing) := by
  have clock : db.advanceClock now = .ok { db with maxObservedAtMs := now } :=
    if_neg (Int.not_lt.mpr adv)
  have row : { db with maxObservedAtMs := now }.readOrder idt.key = some existing := got
  unfold readAdmitted
  rw [clock]
  dsimp only [bind, Except.bind]
  rw [row]
  dsimp only
  rw [if_neg (not_not.mpr same)]
  rfl

theorem recordIndeterminate_held {pmt : HardRiskSubmissionPermit} {why : String}
    (fits : textDefect why = none) {now : Int} (adv : db.maxObservedAtMs ≤ now)
    (got : db.readOrder pmt.identity.key = some existing) (hld : pmt.Holds existing) :
    ∃ rec, recordIndeterminate db (.ok now) pmt why =
      (.ok rec, { db with maxObservedAtMs := now }.markIndeterminate existing why now) := by
  have fine : validateText "indeterminate_reason" why = .ok () := by rw [validateText, fits]
  have lease : ¬(existing.leaseOwner ≠ some pmt.ownerId ∨
      existing.leaseGeneration ≠ pmt.leaseGeneration) := by
    rw [not_or, not_not, not_not]
    exact ⟨hld.owner, hld.generation⟩
  have became := markIndeterminate_became keyed got hld.submitting why now
  unfold recordIndeterminate
  rw [transact_bind, fine]
  dsimp only
  rw [transact_bind, unixEpochMillis]
  dsimp only
  rw [transact_bind, readAdmitted_of_stored adv got hld.identity]
  dsimp only
  rw [hld.submitting]
  dsimp only
  rw [if_neg lease, readBack_moved became.moved]
  exact ⟨_, rfl⟩

/-- A refused receipt of the process that holds the lease is recorded, with its own reason. -/
theorem recordSubmitted_refused {pmt : HardRiskSubmissionPermit} {rcpt : HardRiskRuntimeReceipt}
    {ref : ReceiptRefusal} (deny : pmt.refusal rcpt = some ref)
    (fits : textDefect (ref.reason env) = none) {now : Int} (adv : db.maxObservedAtMs ≤ now)
    (got : db.readOrder pmt.identity.key = some existing) (hld : pmt.Holds existing) :
    (recordSubmitted env db (.ok now) pmt rcpt).1 = .error ref.error ∧
      db.BecameIndeterminate (recordSubmitted env db (.ok now) pmt rcpt).2
        pmt.identity.key existing (ref.reason env) now := by
  obtain ⟨rcd, note⟩ := recordIndeterminate_held keyed fits adv got hld
  rw [recordSubmitted, deny]
  dsimp only
  rw [note]
  exact ⟨rfl, markIndeterminate_became keyed got hld.submitting _ now⟩

end Calls

/-! ## Every run -/

/-- What holds after every run. -/
structure SendsOnce (answers : List (Except HardRiskError HardRiskAnswer))
    (db : HardRiskDatabase) : Prop where
  keyed : db.Keyed
  once : (answers.filterMap grantedKey).Nodup
  sent : ∀ key ∈ answers.filterMap grantedKey, ¬db.Unsent key

theorem SendsOnce.step {db db' : HardRiskDatabase} {call : HardRiskCall}
    {ans : List (Except HardRiskError HardRiskAnswer)}
    {answer : Except HardRiskError HardRiskAnswer} (pre : SendsOnce ans db)
    (performed : Performed db call (answer, db')) : SendsOnce (ans ++ [answer]) db' := by
  have kept : ∀ key ∈ ans.filterMap grantedKey, ¬db'.Unsent key :=
    fun key mem unsent => pre.sent key mem (performed.advanced.unsent unsent)
  cases granted : grantedKey answer with
  | none =>
    have same : (ans ++ [answer]).filterMap grantedKey = ans.filterMap grantedKey := by
      simp [granted]
    exact ⟨performed.keyed, same ▸ pre.once, same ▸ kept⟩
  | some key =>
    have plus : (ans ++ [answer]).filterMap grantedKey =
        ans.filterMap grantedKey ++ [key] := by
      simp [granted]
    obtain ⟨prepared, subm⟩ := performed.granted key granted
    have fresh : key ∉ ans.filterMap grantedKey := fun mem => pre.sent key mem (.inr prepared)
    refine ⟨performed.keyed, ?_, ?_⟩
    · rw [plus, ← concat_eq_append]
      exact pre.once.concat fresh
    · rw [plus]
      intro alt mem unsent
      rcases mem_append.mp mem with old | new
      · exact kept alt old unsent
      · obtain rfl := mem_singleton.mp new
        rw [Unsent, subm] at unsent
        rcases unsent with gone | prepared <;> contradiction

theorem run_sendsOnce (env : HardRiskEnv) (invs : List HardRiskInvocation) :
    SendsOnce (run env invs).1 (run env invs).2 := by
  induction invs using List.reverseRecOn with
  | nil => exact ⟨empty_keyed, nodup_nil, fun _ mem => absurd mem not_mem_nil⟩
  | append_singleton invs next ih =>
    rw [run_concat]
    exact ih.step (perform_performed ih.keyed env next)

/-- The calls of any processes in any order, with any clocks.  In every run at most one permit
is granted for each order.  At the next call an order keeps its state or moves on, with an
event that names the new state; a call that fails has changed nothing, or has made its own
order indeterminate; and a receipt that is refused while its process holds the lease is
recorded so. -/
theorem run_sends_once (env : HardRiskEnv) (invocations : List HardRiskInvocation)
    (next : HardRiskInvocation) :
    ((run env (invocations ++ [next])).1.filterMap grantedKey).Nodup ∧
      (run env invocations).2.Advanced (perform env (run env invocations).2 next).2 ∧
      (∀ error, (perform env (run env invocations).2 next).1 = .error error →
        Failure (run env invocations).2 next.call error
          (perform env (run env invocations).2 next).2) ∧
      ∀ permit receipt refusal existing now,
        next = ⟨.recordSubmitted permit receipt, .ok now, none⟩ →
        permit.refusal receipt = some refusal →
        textDefect (refusal.reason env) = none →
        (run env invocations).2.maxObservedAtMs ≤ now →
        (run env invocations).2.readOrder permit.identity.key = some existing →
        permit.Holds existing →
        (perform env (run env invocations).2 next).1 = .error refusal.error ∧
          (run env invocations).2.BecameIndeterminate
            (perform env (run env invocations).2 next).2 permit.identity.key existing
            (refusal.reason env) now := by
  have pre := run_sendsOnce env invocations
  have performed := perform_performed pre.keyed env next
  refine ⟨(run_sendsOnce env _).once, performed.advanced, performed.failure, ?_⟩
  rintro permit receipt refusal existing now rfl no fits adv got hld
  obtain ⟨answer, became⟩ :=
    recordSubmitted_refused pre.keyed env no fits adv got hld
  refine ⟨?_, became⟩
  change Except.map _ (recordSubmitted env _ _ permit receipt).1 = _
  rw [answer]
  rfl

/-! A receipt for another order, from a process whose clock is behind: the call fails on the
clock, and the order is still being submitted. -/

/-- The digests of the policies and requests below. -/
def sampleEnv : HardRiskEnv where
  digest fields :=
    if fields.contains (.text "c1") then
      "a56863782b7f9ab55866c1826803c819fc54c8ca4087d3de8cfc948e6af3c699"
    else if fields.contains (.text "c2") then
      "3957987a36bd82e5aee8fcc47409c60153e9033e0c9dcbae458a2e1a945c4678"
    else if fields.contains (.text "v2") then
      "bea53d350a31be242ab21b8fbafb1c21435c1367cb2a351134fca093121d9843"
    else "74f1c5980390acb9741802147da48c8202c9736778faaf43ae0bb8c1a051f9c1"
  debugString text := "\"" ++ text ++ "\""

def volumePolicy : HardRiskPolicy := ⟨"limits", "v1", none, some 10, .countPreparedAttempt⟩

def sampleRequest (clientOrderId : String) : HardRiskOrderRequest :=
  ⟨⟨"live", "acc", "20260908"⟩, clientOrderId, "SHFE.cu2612", .buy, .open_, 2, none⟩

def sampleKey : HardRiskOrderKey := ⟨"live", "acc", "c1"⟩

def samplePermit : HardRiskSubmissionPermit :=
  ⟨sampleRequest "c1",
    ⟨sampleKey, "a56863782b7f9ab55866c1826803c819fc54c8ca4087d3de8cfc948e6af3c699"⟩, "p1", 1⟩

def submittingRun : List HardRiskInvocation :=
  [⟨.installPolicy ⟨"live", "acc"⟩ volumePolicy .absent, .ok 1, none⟩,
    ⟨.prepare (sampleRequest "c1"), .ok 2, none⟩,
    ⟨.beginSubmission 30000 samplePermit.identity "p1", .ok 3, none⟩]

theorem refusedReceipt_uncommitted :
    samplePermit.refusal ⟨"c2", "run", "1"⟩ = some (.mismatch sampleKey "c2") ∧
      ((run sampleEnv submittingRun).1.filterMap grantedKey = [sampleKey] ∧
        (run sampleEnv submittingRun).2.orderState sampleKey = some .submitting) ∧
      (recordSubmitted sampleEnv (run sampleEnv submittingRun).2 (.ok 2) samplePermit
          ⟨"c2", "run", "1"⟩).1 = .error (.clockRegression 2 3) ∧
      (recordSubmitted sampleEnv (run sampleEnv submittingRun).2 (.ok 2) samplePermit
          ⟨"c2", "run", "1"⟩).2.orderState sampleKey = some .submitting := by
  decide +kernel

end HardRiskAuthority

end Tqsdk
