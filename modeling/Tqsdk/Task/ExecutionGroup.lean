import Tqsdk.Lib.Result
import Tqsdk.Task.TargetPos
import Tqsdk.Runtime.CommandLedger
import Tqsdk.Runtime.OrderWrites
import Mathlib.Logic.Relation

/-!
# Execution groups

`execution_group.rs` and `order_projection.rs`: a group of orders that belong together. The
state of a leg is projected from its order or, while there is none, from the status of the
command that sent it; the outcome of the group is read off the reports of its legs.

A leg is settled once its order is filled, cancelled, rejected or failed, or its command was
refused without an order. `is_pending_state` does not count a live order with a partial fill
as pending, so a group whose last open legs are all partially filled is reported as finished.
The outcome is final in every run that stays out of these states and in which a refused leg
stays refused.
-/

namespace Tqsdk

open List

/-! ## Order tickets -/

/-- The fields of `tqsdk_core::Order` that a group reads. -/
structure LegOrder where
  volumeOrigin : Int
  volumeLeft : Int
  lifecycle : OrderLifecycle
  deriving DecidableEq

/-- `StateReadView` with its revision: what `trade_state().order` and `decode_path` of a command
return. -/
structure GroupView where
  revision : Nat
  order : AccountId → OrderId → Except ContractError (Option LegOrder)
  command : CommandId → Except ContractError (Option Value)

inductive OrderTicketState
  | unknown (commandId : Option CommandId)
  | commandPending (commandId : CommandId) (status : CommandStatus)
  | live (commandId : Option CommandId) (order : LegOrder)
  | filled (commandId : Option CommandId) (order : LegOrder)
  | cancelled (commandId : Option CommandId) (order : Option LegOrder)
  | rejected (commandId : Option CommandId) (order : Option LegOrder)
  | failed (commandId : Option CommandId) (order : Option LegOrder)
  deriving DecidableEq

structure OrderVolumeProgress where
  filledVolume : Int
  volumeLeft : Int
  deriving DecidableEq

def orderVolumeProgress (order : LegOrder) : OrderVolumeProgress :=
  ⟨max (order.volumeOrigin - order.volumeLeft) 0, order.volumeLeft⟩

def fallbackVolumeProgress (requestedVolume : Int) : OrderVolumeProgress :=
  ⟨0, requestedVolume⟩

def coreError {α : Type} : Except ContractError α → Except TaskError α
  | .ok value => .ok value
  | .error error => .error (.core error)

def commandStatusFromView (view : GroupView) :
    Option CommandId → Except TaskError (Option CommandStatus)
  | none => .ok none
  | some commandId => do
      match ← coreError (view.command commandId) with
      | none => .ok none
      | some command =>
        match (OrdMap.get? "status" command.entries).bind Value.asStr with
        | none => .ok none
        | some status =>
          match CommandStatus.fromStr status with
          | some status => .ok (some status)
          | none => .error (.invalidState "unknown command status")

def ticketStateFromOrder (commandId : Option CommandId) (order : LegOrder) : OrderTicketState :=
  match order.lifecycle with
  | .filled => .filled commandId order
  | .cancelled => .cancelled commandId (some order)
  | .rejected => .rejected commandId (some order)
  | .failed => .failed commandId (some order)
  | .unknown | .submitting | .sent | .accepted | .partiallyFilled | .cancelling =>
    .live commandId order

def ticketStateFromCommand : Option CommandId → Option CommandStatus → OrderTicketState
  | some commandId, some .rejected => .rejected (some commandId) none
  | some commandId, some .cancelled => .cancelled (some commandId) none
  | some commandId, some .failed => .failed (some commandId) none
  | some commandId, some .completed => .unknown (some commandId)
  | some commandId, some status => .commandPending commandId status
  | none, some _ => .unknown none
  | commandId, none => .unknown commandId

/-- The last `match` of `ticket_state_from_view`. -/
def ticketState (commandId : Option CommandId) (order : Option LegOrder)
    (status : Option CommandStatus) : OrderTicketState :=
  match order with
  | some order => ticketStateFromOrder commandId order
  | none => ticketStateFromCommand commandId status

/-! ## Legs and their reports -/

structure TaskOrderIntent where
  accountId : AccountId
  symbol : String
  direction : TradeDirection
  offset : Option TradeOffset
  volume : Int
  deriving DecidableEq

/-- `ExecutionLegTicket` with the order reference and the command of its `OrderTicket`. -/
structure ExecutionLegTicket where
  clientOrderId : String
  intent : TaskOrderIntent
  ticketAccountId : AccountId
  ticketOrderId : OrderId
  ticketCommandId : Option CommandId
  deriving DecidableEq

inductive ExecutionLegState
  | unknown | commandPending | live | filled
  | partiallyFilled (filledVolume volumeLeft : Int)
  | cancelled | rejected | failed
  deriving DecidableEq

structure ExecutionLegReport where
  clientOrderId : String
  accountId : AccountId
  symbol : String
  direction : TradeDirection
  offset : Option TradeOffset
  requestedVolume : Int
  filledVolume : Int
  volumeLeft : Int
  state : ExecutionLegState
  deriving DecidableEq

def liveLegState (order : LegOrder) : ExecutionLegState × Int × Int :=
  let progress := orderVolumeProgress order
  if 0 < progress.filledVolume then
    (.partiallyFilled progress.filledVolume progress.volumeLeft, progress.filledVolume,
      progress.volumeLeft)
  else (.live, 0, progress.volumeLeft)

def terminalOptionalOrderState (order : Option LegOrder) (fallback : ExecutionLegState)
    (requestedVolume : Int) : ExecutionLegState × Int × Int :=
  match order with
  | none =>
    let progress := fallbackVolumeProgress requestedVolume
    (fallback, progress.filledVolume, progress.volumeLeft)
  | some order =>
    let progress := orderVolumeProgress order
    let state :=
      match order.lifecycle, decide (0 < progress.filledVolume),
        decide (progress.volumeLeft = 0) with
      | .filled, _, _ => ExecutionLegState.filled
      | _, true, false => .partiallyFilled progress.filledVolume progress.volumeLeft
      | _, _, _ => fallback
    (state, progress.filledVolume, progress.volumeLeft)

/-- The `match` of `leg_report_from_view`. -/
def legProgress (volume : Int) : OrderTicketState → ExecutionLegState × Int × Int
  | .unknown _ => (.unknown, 0, volume)
  | .commandPending _ _ => (.commandPending, 0, volume)
  | .live _ order => liveLegState order
  | .filled _ order =>
    (.filled, max (order.volumeOrigin - order.volumeLeft) 0, order.volumeLeft)
  | .cancelled _ order => terminalOptionalOrderState order .cancelled volume
  | .rejected _ order => terminalOptionalOrderState order .rejected volume
  | .failed _ order => terminalOptionalOrderState order .failed volume

namespace ExecutionLegTicket

/-- The reads of `ticket_state_from_view`: the order first, then the status of the command. -/
def sees (view : GroupView) (leg : ExecutionLegTicket) :
    Except TaskError (Option LegOrder × Option CommandStatus) := do
  let order ← coreError (view.order leg.ticketAccountId leg.ticketOrderId)
  let status ← commandStatusFromView view leg.ticketCommandId
  return (order, status)

def report (leg : ExecutionLegTicket) (order : Option LegOrder) (status : Option CommandStatus) :
    ExecutionLegReport :=
  let (state, filledVolume, volumeLeft) :=
    legProgress leg.intent.volume (ticketState leg.ticketCommandId order status)
  { clientOrderId := leg.clientOrderId
    accountId := leg.intent.accountId
    symbol := leg.intent.symbol
    direction := leg.intent.direction
    offset := leg.intent.offset
    requestedVolume := leg.intent.volume
    filledVolume := filledVolume
    volumeLeft := volumeLeft
    state := state }

/-- `leg_report_from_view`. -/
def reportFromView (view : GroupView) (leg : ExecutionLegTicket) :
    Except TaskError ExecutionLegReport := do
  let (order, status) ← leg.sees view
  return leg.report order status

end ExecutionLegTicket

/-! ## The outcome of a group -/

structure ExecutionExposure where
  filledSymbols : List String
  unfilledSymbols : List String
  deriving DecidableEq

inductive ExecutionGroupOutcome
  | allFilled (legs : List ExecutionLegReport)
  | cancelled (legs : List ExecutionLegReport)
  | rejected (legs : List ExecutionLegReport)
  | failed (legs : List ExecutionLegReport)
  | needsHedge (exposure : ExecutionExposure) (legs : List ExecutionLegReport)
  deriving DecidableEq

inductive ExecutionGroupStatus
  | pending (legs : List ExecutionLegReport)
  | finished (outcome : ExecutionGroupOutcome)
  deriving DecidableEq

def isPendingState (leg : ExecutionLegReport) : Bool :=
  match leg.state with
  | .unknown | .commandPending | .live => true
  | _ => false

def hasOpenExposure (legs : List ExecutionLegReport) : Bool :=
  let hasFilled := legs.any fun leg => decide (0 < leg.filledVolume)
  let hasUnfilled := legs.any fun leg =>
    decide (0 < leg.volumeLeft) && !([.rejected, .failed, .cancelled].contains leg.state)
  hasFilled && hasUnfilled

def exposureFromReports (legs : List ExecutionLegReport) : ExecutionExposure where
  filledSymbols := (legs.filter fun leg => decide (0 < leg.filledVolume)).map (·.symbol)
  unfilledSymbols :=
    (legs.filter fun leg => decide (leg.filledVolume < leg.requestedVolume)).map (·.symbol)

def outcomeFromReports (legs : List ExecutionLegReport) : Option ExecutionGroupOutcome :=
  if legs.any isPendingState then none
  else if legs.all (·.state == .filled) then some (.allFilled legs)
  else if legs.any (fun leg => decide (0 < leg.filledVolume)) then
    some (.needsHedge (exposureFromReports legs) legs)
  else if legs.any (·.state == .failed) then some (.failed legs)
  else if legs.any (·.state == .rejected) then some (.rejected legs)
  else if legs.any (·.state == .cancelled) then some (.cancelled legs)
  else none

structure ExecutionGroupTicket where
  groupId : String
  accountId : AccountId
  maxUnhedged : Option Nat
  legs : List ExecutionLegTicket

structure ExecutionGroupReport where
  revision : Nat
  groupId : String
  accountId : AccountId
  status : ExecutionGroupStatus
  deriving DecidableEq

namespace ExecutionGroupTicket

def legReports (group : ExecutionGroupTicket) (view : GroupView) :
    Except TaskError (List ExecutionLegReport) :=
  group.legs.mapM (·.reportFromView view)

def status (group : ExecutionGroupTicket) (view : GroupView) :
    Except TaskError ExecutionGroupStatus := do
  let legs ← group.legReports view
  return match outcomeFromReports legs with
    | some outcome => .finished outcome
    | none => .pending legs

def report (group : ExecutionGroupTicket) (view : GroupView) :
    Except TaskError ExecutionGroupReport := do
  let legs ← group.legReports view
  let status : ExecutionGroupStatus := match outcomeFromReports legs with
    | some outcome => .finished outcome
    | none => .pending legs
  return ⟨view.revision, group.groupId, group.accountId, status⟩

def outcome (group : ExecutionGroupTicket) (view : GroupView) :
    Except TaskError (Option ExecutionGroupOutcome) := do
  return outcomeFromReports (← group.legReports view)

/-! ## Waiting for the outcome -/

end ExecutionGroupTicket

/-- What the environment answers in one turn of the loop of `wait_finished`: the view that is
read first, the two readings of the clock, what `wait_update` returns and the clock after it,
the clock after a sleep and the view that is read last. -/
structure WaitTurn where
  view : GroupView
  started : Nat
  now : Nat
  updated : Except TaskError Bool
  after : Nat
  slept : Nat
  last : GroupView

/-- A turn goes round the loop with a value of `exposure_started_at`, or returns; with the
result stand the clock and the view it was taken from. -/
inductive WaitStep
  | waiting (exposureStartedAt : Option Nat)
  | returned (result : Except TaskError ExecutionGroupOutcome) (clock : Nat) (view : GroupView)

namespace ExecutionGroupTicket

/-- The end of a turn. `sleep_until` returns no earlier than its deadline. -/
def awaitUpdate (group : ExecutionGroupTicket) (waitDeadline : Nat)
    (exposureStartedAt : Option Nat) (turn : WaitTurn) : WaitStep :=
  match turn.updated with
  | .error error => .returned (.error error) turn.after turn.view
  | .ok true => .waiting exposureStartedAt
  | .ok false =>
    let clock := if turn.after < waitDeadline then max waitDeadline turn.slept else turn.after
    match group.legReports turn.last with
    | .error error => .returned (.error error) clock turn.last
    | .ok legs => .returned (.ok (.needsHedge (exposureFromReports legs) legs)) clock turn.last

def waitTurn (group : ExecutionGroupTicket) (deadline : Nat) (exposureStartedAt : Option Nat)
    (turn : WaitTurn) : WaitStep :=
  match group.legReports turn.view with
  | .error error => .returned (.error error) turn.started turn.view
  | .ok legs =>
    match outcomeFromReports legs with
    | some outcome => .returned (.ok outcome) turn.started turn.view
    | none =>
      match group.maxUnhedged.filter fun _ => hasOpenExposure legs with
      | some maxUnhedged =>
        let startedAt := exposureStartedAt.getD turn.started
        let exposureDeadline := startedAt + maxUnhedged
        if exposureDeadline ≤ turn.now then
          .returned (.ok (.needsHedge (exposureFromReports legs) legs)) turn.now turn.view
        else group.awaitUpdate (min deadline exposureDeadline) (some startedAt) turn
      | none => group.awaitUpdate deadline none turn

/-- `wait_finished` over the turns the environment has answered so far. -/
def waitFinished (group : ExecutionGroupTicket) (deadline : Nat) :
    Option Nat → List WaitTurn → WaitStep
  | exposureStartedAt, [] => .waiting exposureStartedAt
  | exposureStartedAt, turn :: rest =>
    match group.waitTurn deadline exposureStartedAt turn with
    | .waiting startedAt => group.waitFinished deadline startedAt rest
    | step => step

end ExecutionGroupTicket

/-! ## Settled legs -/

/-- How far a leg has come: settled, live with a part of it filled, or with nothing done yet. -/
inductive LegStage
  | settled | filling | waiting
  deriving DecidableEq

def legStage : Option LegOrder → Option CommandStatus → LegStage
  | some order, _ =>
    if order.lifecycle.isTerminal then .settled
    else if order.volumeLeft < order.volumeOrigin then .filling
    else .waiting
  | none, some .rejected | none, some .cancelled | none, some .failed => .settled
  | none, _ => .waiting

variable {status : Option CommandStatus}

/-- `is_pending_state` misses the legs that are still filling. -/
theorem ExecutionLegTicket.isPendingState_report (leg : ExecutionLegTicket)
    {order : Option LegOrder} (cmd : leg.ticketCommandId = none → status = none) :
    isPendingState (leg.report order status) = decide (legStage order status = .waiting) := by
  cases order with
  | none =>
    cases cid : leg.ticketCommandId with
    | none =>
      rw [cmd cid]
      simp [report, ticketState, ticketStateFromCommand, cid, legProgress, isPendingState, legStage]
    | some id =>
      cases status with
      | none =>
        simp [report, ticketState, ticketStateFromCommand, cid, legProgress,
          isPendingState, legStage]
      | some status =>
        cases status <;>
          simp [report, ticketState, ticketStateFromCommand, cid, legProgress,
            terminalOptionalOrderState, isPendingState, legStage]
  | some order =>
    obtain ⟨origin, left, life⟩ := order
    cases life <;>
      simp only [report, ticketState, ticketStateFromOrder, legProgress, liveLegState,
        terminalOptionalOrderState, orderVolumeProgress, legStage, isPendingState,
        OrderLifecycle.isTerminal] <;>
      split_ifs <;> grind

namespace ExecutionLegTicket

variable {leg : ExecutionLegTicket} {view : GroupView} {order : Option LegOrder}
  {status : Option CommandStatus}

theorem sees_eq_ok :
    leg.sees view = .ok (order, status) ↔
      coreError (view.order leg.ticketAccountId leg.ticketOrderId) = .ok order ∧
        commandStatusFromView view leg.ticketCommandId = .ok status := by
  unfold sees
  rw [Result.bind_eq_ok]
  constructor
  · rintro ⟨order', read, rest⟩
    obtain ⟨status', readStatus, same⟩ := Result.bind_eq_ok.mp rest
    obtain ⟨rfl, rfl⟩ := Prod.mk.inj (Except.ok.inj same)
    exact ⟨read, readStatus⟩
  · rintro ⟨read, readStatus⟩
    exact ⟨order, read, Result.bind_eq_ok.mpr ⟨status, readStatus, rfl⟩⟩

theorem reportFromView_of_sees (sight : leg.sees view = .ok (order, status)) :
    leg.reportFromView view = .ok (leg.report order status) := by
  unfold reportFromView
  rw [sight]
  rfl

theorem status_none_of_sees (sight : leg.sees view = .ok (order, status))
    (noCommand : leg.ticketCommandId = none) :
    status = none := by
  have read := (sees_eq_ok.mp sight).2
  rw [noCommand] at read
  exact (Except.ok.inj read).symm

/-- The stage of a leg in a view that can be read. -/
def InStage (leg : ExecutionLegTicket) (view : GroupView) (stage : LegStage) : Prop :=
  ∃ order status, leg.sees view = .ok (order, status) ∧ legStage order status = stage

end ExecutionLegTicket

/-! ## Updates that follow the lifecycle -/

/-- An order stays, moves on in its lifecycle and only ever trades; once it is over nothing of
it changes. -/
def OrderFollows : Option LegOrder → Option LegOrder → Prop
  | none, _ => True
  | some _, none => False
  | some order, some order' =>
    order.lifecycle.canTransitionTo order'.lifecycle = true ∧
      order'.volumeOrigin = order.volumeOrigin ∧ order'.volumeLeft ≤ order.volumeLeft ∧
      (order.lifecycle.isTerminal = true → order'.volumeLeft = order.volumeLeft)

/-- A command moves on in its statuses; a final one may be evicted from the state tree. -/
def CommandFollows : Option CommandStatus → Option CommandStatus → Prop
  | none, _ => True
  | some status, none => status.isTerminal = true
  | some status, some status' => status = status' ∨ status.canMoveTo status' = true

theorem OrderFollows.eq_of_terminal {order : LegOrder} {order' : Option LegOrder}
    (fol : OrderFollows (some order) order') (terminal : order.lifecycle.isTerminal = true) :
    order' = some order := by
  cases order' with
  | none => exact fol.elim
  | some order' =>
    obtain ⟨mvs, origin, -, left⟩ := fol
    obtain ⟨volumeOrigin, volumeLeft, lifecycle⟩ := order
    obtain ⟨volumeOrigin', volumeLeft', lifecycle'⟩ := order'
    obtain rfl := OrderLifecycle.canTransitionTo_terminal terminal mvs
    obtain rfl : volumeOrigin' = volumeOrigin := origin
    obtain rfl : volumeLeft' = volumeLeft := left terminal
    rfl

theorem CommandFollows.eq_of_terminal {status : CommandStatus}
    {status' : Option CommandStatus} (fol : CommandFollows (some status) status')
    (terminal : status.isTerminal = true) (kept : status' ≠ none) : status' = some status := by
  cases status' with
  | none => exact absurd rfl kept
  | some status' =>
    rcases fol with rfl | moves
    · rfl
    · rw [CommandStatus.canMoveTo_terminal terminal moves]

/-- A leg without an order is settled because of the final status of its command. -/
theorem legStage_none_settled (done : legStage none status = .settled) :
    ∃ fin, status = some fin ∧ fin.isTerminal = true := by
  cases status with
  | none => cases done
  | some status =>
    refine ⟨status, rfl, ?_⟩
    cases status <;> revert done <;> decide

theorem legStage_some_settled {order : LegOrder} {status : Option CommandStatus}
    (done : legStage (some order) status = .settled) : order.lifecycle.isTerminal = true := by
  simp only [legStage] at done
  split_ifs at done with term
  exact term

namespace ExecutionLegTicket

/-- One update of the state as a leg sees it. -/
def Follows (leg : ExecutionLegTicket) (view view' : GroupView) : Prop :=
  ∃ order status order' status', leg.sees view = .ok (order, status) ∧
    leg.sees view' = .ok (order', status') ∧ OrderFollows order order' ∧
    CommandFollows status status'

/-- A leg whose command was refused gets no order after all, and the state tree still holds the
command. -/
def StaysRefused (leg : ExecutionLegTicket) (view view' : GroupView) : Prop :=
  ∀ status order' status', leg.sees view = .ok (none, status) →
    legStage none status = .settled → leg.sees view' = .ok (order', status') →
    order' = none ∧ status' ≠ none

theorem report_of_settled {leg : ExecutionLegTicket} {view view' : GroupView}
    (fol : leg.Follows view view') (deny : leg.StaysRefused view view')
    (done : leg.InStage view .settled) :
    leg.reportFromView view' = leg.reportFromView view ∧ leg.InStage view' .settled := by
  obtain ⟨order, status, order', status', sight, sight', orderFollows, commandFollows⟩ := fol
  obtain ⟨_, _, sightOver, stage⟩ := done
  rw [sight] at sightOver
  obtain ⟨rfl, rfl⟩ := Prod.mk.inj (Except.ok.inj sightOver)
  cases order with
  | none =>
    obtain ⟨rfl, kept⟩ := deny status order' status' sight stage sight'
    obtain ⟨fin, rfl, term⟩ := legStage_none_settled stage
    obtain rfl := commandFollows.eq_of_terminal term kept
    exact ⟨(reportFromView_of_sees sight').trans (reportFromView_of_sees sight).symm,
      _, _, sight', stage⟩
  | some order =>
    have term := legStage_some_settled stage
    obtain rfl := orderFollows.eq_of_terminal term
    refine ⟨(reportFromView_of_sees sight').trans (reportFromView_of_sees sight).symm,
      _, _, sight', ?_⟩
    simp [legStage, term]

end ExecutionLegTicket

/-! ## Outcomes are final -/

theorem not_pending_of_outcomeFromReports {legs : List ExecutionLegReport}
    {outcome : ExecutionGroupOutcome} (hit : outcomeFromReports legs = some outcome)
    {leg : ExecutionLegReport} (mem : leg ∈ legs) : isPendingState leg = false := by
  unfold outcomeFromReports at hit
  split at hit
  · cases hit
  · rename_i done
    have done : legs.any isPendingState = false := by simpa using done
    exact any_eq_false.mp done leg mem |> Bool.eq_false_of_not_eq_true

namespace ExecutionGroupTicket

/-- Every leg is filled, cancelled, rejected or failed. -/
def AllOver (group : ExecutionGroupTicket) (view : GroupView) : Prop :=
  ∀ leg ∈ group.legs, leg.InStage view .settled

/-- The group is not left with legs that are filling and no leg that waits. -/
def NotOnlyFilling (group : ExecutionGroupTicket) (view : GroupView) : Prop :=
  (∃ leg ∈ group.legs, leg.InStage view .filling) → ∃ leg ∈ group.legs, leg.InStage view .waiting

variable {group : ExecutionGroupTicket} {view view' : GroupView} {turn : WaitTurn}
  {outcome : ExecutionGroupOutcome} {turns : List WaitTurn} {startedAt startedAt' : Option Nat}
  {legs : List ExecutionLegReport} {deadline : Nat}

theorem status_eq_finished :
    group.status view = .ok (.finished outcome) ↔
      ∃ legs, group.legReports view = .ok legs ∧ outcomeFromReports legs = some outcome := by
  unfold status
  rw [Result.bind_eq_ok]
  constructor
  · rintro ⟨legs, read, same⟩
    refine ⟨legs, read, ?_⟩
    have same := Except.ok.inj same
    split at same
    · rename_i hit
      obtain rfl := ExecutionGroupStatus.finished.inj same
      exact hit
    · cases same
  · rintro ⟨legs, read, hit⟩
    exact ⟨legs, read, by rw [hit]; rfl⟩

theorem not_waiting_of_finished (read : group.legReports view = .ok legs)
    (hit : outcomeFromReports legs = some outcome) {leg : ExecutionLegTicket}
    (mem : leg ∈ group.legs) :
    leg.InStage view .settled ∨ leg.InStage view .filling := by
  obtain ⟨rep, repd, legReport⟩ := Result.mem_of_mapM read mem
  have settled := not_pending_of_outcomeFromReports hit repd
  unfold ExecutionLegTicket.reportFromView at legReport
  obtain ⟨⟨order, status⟩, sight, same⟩ := Result.bind_eq_ok.mp legReport
  obtain rfl := Except.ok.inj same
  rw [leg.isPendingState_report (ExecutionLegTicket.status_none_of_sees sight)] at settled
  cases stage : legStage order status with
  | settled => exact .inl ⟨order, status, sight, stage⟩
  | filling => exact .inr ⟨order, status, sight, stage⟩
  | waiting => simp [stage] at settled

theorem inStage_unique {leg : ExecutionLegTicket} {stage stage' : LegStage}
    (left : leg.InStage view stage) (right : leg.InStage view stage') : stage = stage' := by
  obtain ⟨order, status, sight, rfl⟩ := left
  obtain ⟨order', status', sight', rfl⟩ := right
  rw [sight] at sight'
  obtain ⟨rfl, rfl⟩ := Prod.mk.inj (Except.ok.inj sight')
  rfl

/-- A group reports an outcome too early exactly in the states that are left with filling legs
only. -/
theorem allOver_iff_of_finished (read : group.legReports view = .ok legs)
    (hit : outcomeFromReports legs = some outcome) :
    group.AllOver view ↔ group.NotOnlyFilling view := by
  constructor
  · rintro done ⟨leg, mem, filling⟩
    cases inStage_unique (done leg mem) filling
  · intro notOnly leg mem
    rcases not_waiting_of_finished read hit mem with done | filling
    · exact done
    · obtain ⟨alt, altM, waiting⟩ := notOnly ⟨leg, mem, filling⟩
      rcases not_waiting_of_finished read hit altM with done | filling
      · cases inStage_unique done waiting
      · cases inStage_unique filling waiting

/-- One update of the state that follows the lifecycle of every leg, keeps refused legs refused
and does not leave the group with filling legs only. -/
structure SafeStep (group : ExecutionGroupTicket) (view view' : GroupView) : Prop where
  follows : ∀ leg ∈ group.legs, leg.Follows view view'
  refused : ∀ leg ∈ group.legs, leg.StaysRefused view view'
  notOnlyFilling : group.NotOnlyFilling view'

theorem legReports_step (step : group.SafeStep view view') (done : group.AllOver view) :
    group.legReports view' = group.legReports view ∧ group.AllOver view' := by
  constructor
  · refine Result.mapM_congr fun leg mem => ?_
    exact (ExecutionLegTicket.report_of_settled (step.follows leg mem)
      (step.refused leg mem) (done leg mem)).1
  · intro leg mem
    exact (ExecutionLegTicket.report_of_settled (step.follows leg mem)
      (step.refused leg mem) (done leg mem)).2

theorem legReports_run (run : Relation.ReflTransGen group.SafeStep view view')
    (done : group.AllOver view) :
    group.legReports view' = group.legReports view ∧ group.AllOver view' := by
  induction run with
  | refl => exact ⟨rfl, done⟩
  | tail _ step ih =>
    obtain ⟨same, done⟩ := legReports_step step ih.2
    exact ⟨same.trans ih.1, done⟩

/-! ## Waiting ends in time -/

/-- The turns of `wait_finished` end with a stretch that starts at a clock reading and in which
every view shows an open exposure. -/
def ExposedSince (group : ExecutionGroupTicket) (turns : List WaitTurn) (since : Nat) : Prop :=
  ∃ before first after, turns = before ++ first :: after ∧ first.started = since ∧
    ∀ turn ∈ first :: after, ∃ legs, group.legReports turn.view = .ok legs ∧
      hasOpenExposure legs = true

theorem ExposedSince.snoc {since : Nat} (exposed : group.ExposedSince turns since)
    (read : group.legReports turn.view = .ok legs) (exposure : hasOpenExposure legs = true) :
    group.ExposedSince (turns ++ [turn]) since := by
  obtain ⟨pre, hd, post, rfl, began, all⟩ := exposed
  refine ⟨pre, hd, post ++ [turn], by simp, began, ?_⟩
  intro alt mem
  rw [← cons_append, mem_append, mem_singleton] at mem
  rcases mem with mem | rfl
  · exact all alt mem
  · exact ⟨legs, read, exposure⟩

/-- `get_or_insert_with` goes on with the current stretch or begins a new one. -/
theorem exposedSince_getD
    (exposed : ∀ since, startedAt = some since → group.ExposedSince turns since)
    (read : group.legReports turn.view = .ok legs) (exposure : hasOpenExposure legs = true) :
    group.ExposedSince (turns ++ [turn]) (startedAt.getD turn.started) := by
  cases startedAt with
  | some since => exact (exposed since rfl).snoc read exposure
  | none =>
    refine ⟨turns, turn, [], rfl, rfl, ?_⟩
    intro alt mem
    obtain rfl := mem_singleton.mp mem
    exact ⟨legs, read, exposure⟩

theorem waitTurn_cases (group : ExecutionGroupTicket) (deadline : Nat) (startedAt : Option Nat)
    (turn : WaitTurn) :
    (∃ error clock view, group.waitTurn deadline startedAt turn =
        .returned (.error error) clock view) ∨
    (∃ legs outcome, group.legReports turn.view = .ok legs ∧
        outcomeFromReports legs = some outcome ∧
        group.waitTurn deadline startedAt turn = .returned (.ok outcome) turn.started turn.view) ∨
    (∃ legs wnd, group.legReports turn.view = .ok legs ∧ group.maxUnhedged = some wnd ∧
        hasOpenExposure legs = true ∧ startedAt.getD turn.started + wnd ≤ turn.now ∧
        group.waitTurn deadline startedAt turn =
          .returned (.ok (.needsHedge (exposureFromReports legs) legs)) turn.now turn.view) ∨
    (∃ legs wnd, group.legReports turn.view = .ok legs ∧ group.maxUnhedged = some wnd ∧
        hasOpenExposure legs = true ∧
        group.waitTurn deadline startedAt turn =
          group.awaitUpdate (min deadline (startedAt.getD turn.started + wnd))
            (some (startedAt.getD turn.started)) turn) ∨
    group.waitTurn deadline startedAt turn = group.awaitUpdate deadline none turn := by
  unfold waitTurn
  cases read : group.legReports turn.view with
  | error error => exact .inl ⟨error, _, _, rfl⟩
  | ok legs =>
    refine .inr ?_
    dsimp only
    cases hit : outcomeFromReports legs with
    | some outcome => exact .inl ⟨legs, outcome, rfl, hit, rfl⟩
    | none =>
      refine .inr ?_
      dsimp only
      cases filtered : group.maxUnhedged.filter fun _ => hasOpenExposure legs with
      | none => exact .inr (.inr rfl)
      | some wnd =>
        obtain ⟨unhedged, exposure⟩ := Option.filter_eq_some_iff.mp filtered
        dsimp only
        split
        · rename_i late
          exact .inl ⟨legs, wnd, rfl, unhedged, exposure, late, rfl⟩
        · exact .inr (.inl ⟨legs, wnd, rfl, unhedged, exposure, rfl⟩)

/-- A wait that ends without an update has lasted until its deadline. -/
theorem awaitUpdate_returned {group : ExecutionGroupTicket} {waitDeadline clock : Nat}
    {startedAt : Option Nat} {turn : WaitTurn} {outcome : ExecutionGroupOutcome} {view : GroupView}
    (ret : group.awaitUpdate waitDeadline startedAt turn = .returned (.ok outcome) clock view)
    : waitDeadline ≤ clock := by
  unfold awaitUpdate at ret
  cases upd : turn.updated with
  | error error => simp [upd] at ret
  | ok flag =>
    cases flag with
    | true => simp [upd] at ret
    | false =>
      rw [upd] at ret
      dsimp only at ret
      cases read : group.legReports turn.last with
      | error error => simp [read] at ret
      | ok legs =>
        rw [read] at ret
        obtain ⟨-, same, -⟩ := WaitStep.returned.inj ret
        rw [← same]
        split <;> omega

theorem awaitUpdate_waiting {waitDeadline : Nat}
    (waits : group.awaitUpdate waitDeadline startedAt turn = .waiting startedAt') :
    startedAt' = startedAt := by
  unfold awaitUpdate at waits
  split at waits
  · cases waits
  · exact (WaitStep.waiting.inj waits).symm
  · dsimp only at waits
    split at waits <;> cases waits

/-- The stored start of the exposure is the first turn of the current stretch. -/
theorem exposedSince_waitTurn
    (exposed : ∀ since, startedAt = some since → group.ExposedSince turns since)
    (waits : group.waitTurn deadline startedAt turn = .waiting startedAt') :
    ∀ since, startedAt' = some since → group.ExposedSince (turns ++ [turn]) since := by
  intro since isStarted
  rcases group.waitTurn_cases deadline startedAt turn with
    ⟨_, _, _, returned⟩ | ⟨_, _, _, _, returned⟩ | ⟨_, _, _, _, _, _, returned⟩ |
    ⟨legs, window, read, -, exposure, awaits⟩ | awaits
  · rw [returned] at waits; cases waits
  · rw [returned] at waits; cases waits
  · rw [returned] at waits; cases waits
  · rw [awaits] at waits
    have same := (awaitUpdate_waiting waits).symm.trans isStarted
    obtain rfl := Option.some.inj same
    exact exposedSince_getD exposed read exposure
  · rw [awaits] at waits
    have same := (awaitUpdate_waiting waits).symm.trans isStarted
    cases same

theorem exposedSince_waitFinished {pre : List WaitTurn}
    (exposed : ∀ since, startedAt = some since → group.ExposedSince pre since)
    (waits : group.waitFinished deadline startedAt turns = .waiting startedAt') :
    ∀ since, startedAt' = some since → group.ExposedSince (pre ++ turns) since := by
  induction turns generalizing startedAt pre with
  | nil =>
    obtain rfl := WaitStep.waiting.inj waits
    simpa using exposed
  | cons turn turns ih =>
    unfold waitFinished at waits
    cases step : group.waitTurn deadline startedAt turn with
    | returned res clock view => rw [step] at waits; cases waits
    | waiting next =>
      rw [step] at waits
      have := ih (exposedSince_waitTurn exposed step) waits
      rwa [append_assoc, singleton_append] at this

/-- A call of `wait_finished` returns an outcome in the turn after the turns it has waited for,
at a reading of the clock and from a view. -/
def WaitReturns (group : ExecutionGroupTicket) (deadline : Nat) (turns : List WaitTurn)
    (turn : WaitTurn) (outcome : ExecutionGroupOutcome) (clock : Nat) (view : GroupView) : Prop :=
  ∃ startedAt, group.waitFinished deadline none turns = .waiting startedAt ∧
    group.waitTurn deadline startedAt turn = .returned (.ok outcome) clock view

/-- The caller's deadline has passed, or the exposure has been open for the unhedged window. -/
def WaitElapsed (group : ExecutionGroupTicket) (deadline : Nat) (turns : List WaitTurn)
    (clock : Nat) : Prop :=
  deadline ≤ clock ∨ ∃ window since, group.maxUnhedged = some window ∧
    group.ExposedSince turns since ∧ since + window ≤ clock

theorem allOver_or_waitElapsed {clock : Nat} (notOnly : group.NotOnlyFilling turn.view)
    (returns : group.WaitReturns deadline turns turn outcome clock view) :
    group.AllOver view ∨ group.WaitElapsed deadline (turns ++ [turn]) clock := by
  obtain ⟨startedAt, waits, ret⟩ := returns
  have exposed : ∀ since, startedAt = some since → group.ExposedSince ([] ++ turns) since :=
    exposedSince_waitFinished (fun _ unstarted => by cases unstarted) waits
  rcases group.waitTurn_cases deadline startedAt turn with
    ⟨_, _, _, step⟩ | ⟨legs, _, read, found, step⟩ |
    ⟨legs, window, read, unhedged, exposure, late, step⟩ |
    ⟨legs, window, read, unhedged, exposure, step⟩ | step
  · rw [step] at ret
    have := (WaitStep.returned.inj ret).1
    cases this
  · rw [step] at ret
    obtain ⟨-, -, rfl⟩ := WaitStep.returned.inj ret
    exact .inl ((allOver_iff_of_finished read found).mpr notOnly)
  · rw [step] at ret
    obtain ⟨-, rfl, -⟩ := WaitStep.returned.inj ret
    exact .inr (.inr ⟨window, _, unhedged, exposedSince_getD exposed read exposure, late⟩)
  · rw [step] at ret
    have past := awaitUpdate_returned ret
    rcases Nat.le_total deadline (startedAt.getD turn.started + window) with first | first
    · exact .inr (.inl (by omega))
    · have open_ := exposedSince_getD exposed read exposure
      exact .inr (.inr ⟨window, _, unhedged, open_, by omega⟩)
  · rw [step] at ret
    exact .inr (.inl (awaitUpdate_returned ret))

theorem notOnlyFilling_run (notOnly : group.NotOnlyFilling view)
    (run : Relation.ReflTransGen group.SafeStep view view') : group.NotOnlyFilling view' := by
  cases run with
  | refl => exact notOnly
  | tail _ step => exact step.notOnlyFilling

/-- Along every run of updates that follow the lifecycle, keep refused legs refused and never
leave the group with filling legs only: a group that is reported as finished has no leg that can
still trade and is reported with the same outcome from then on, and `wait_finished` gives up on
a group with an open leg only after the deadline or the unhedged window. -/
theorem outcomes_final {group : ExecutionGroupTicket} {view view' : GroupView}
    (notOnly : group.NotOnlyFilling view)
    (run : Relation.ReflTransGen group.SafeStep view view') :
    (∀ outcome, group.status view = .ok (.finished outcome) →
      group.AllOver view ∧ group.status view' = .ok (.finished outcome) ∧
        group.outcome view' = .ok (some outcome) ∧
        group.report view' =
          .ok ⟨view'.revision, group.groupId, group.accountId, .finished outcome⟩) ∧
    (∀ deadline turns turn outcome clock last, turn.view = view' →
      group.WaitReturns deadline turns turn outcome clock last →
      group.AllOver last ∨ group.WaitElapsed deadline (turns ++ [turn]) clock) := by
  constructor
  · intro outcome finished
    obtain ⟨legs, read, hit⟩ := status_eq_finished.mp finished
    have done := (allOver_iff_of_finished read hit).mpr notOnly
    have read' := (legReports_run run done).1.trans read
    refine ⟨done, status_eq_finished.mpr ⟨legs, read', hit⟩, ?_, ?_⟩
    · simp only [ExecutionGroupTicket.outcome, read', bind, Except.bind, pure, Except.pure, hit]
    · simp only [report, read', bind, Except.bind, pure, Except.pure, hit]
  · rintro deadline turns turn outcome clock last rfl returns
    exact allOver_or_waitElapsed (notOnlyFilling_run notOnly run) returns

end ExecutionGroupTicket

/-! ## A spread of two legs -/

def spreadLeg (index : Nat) (symbol : String) (volume : Int) : ExecutionLegTicket where
  clientOrderId := "spread:leg:" ++ toString index
  intent := ⟨"sim", symbol, .buy, some .open_, volume⟩
  ticketAccountId := "sim"
  ticketOrderId := "spread:leg:" ++ toString index
  ticketCommandId := some index

def spread : ExecutionGroupTicket where
  groupId := "spread"
  accountId := "sim"
  maxUnhedged := some 30
  legs := [spreadLeg 0 "SHFE.au2602" 1, spreadLeg 1 "SHFE.ag2602" 15]

/-- The first leg is filled; of the other fifteen lots `left` are open. -/
def spreadView (revision : Nat) (left : Int) (lifecycle : OrderLifecycle) : GroupView where
  revision := revision
  order := fun _ orderId =>
    .ok (if orderId = "spread:leg:0" then some ⟨1, 0, .filled⟩
      else some ⟨15, left, lifecycle⟩)
  command := fun _ => .ok none

theorem spread_sees (rev : Nat) (left : Int) (life : OrderLifecycle) :
    (spreadLeg 0 "SHFE.au2602" 1).sees (spreadView rev left life) =
        .ok (some ⟨1, 0, .filled⟩, none) ∧
      (spreadLeg 1 "SHFE.ag2602" 15).sees (spreadView rev left life) =
        .ok (some ⟨15, left, life⟩, none) :=
  ⟨rfl, rfl⟩

def spreadTurn : WaitTurn where
  view := spreadView 1 10 .partiallyFilled
  started := 0
  now := 0
  updated := .ok true
  after := 0
  slept := 0
  last := spreadView 1 10 .partiallyFilled

/-- Ten of the fifteen lots of the second leg are still open, and the group is reported as
finished at once; then the order trades on and the outcome becomes another one. -/
theorem outcome_changes_after_finished :
    ¬ spread.AllOver (spreadView 1 10 .partiallyFilled) ∧
      (∀ leg ∈ spread.legs,
        leg.Follows (spreadView 1 10 .partiallyFilled) (spreadView 2 0 .filled)) ∧
      (∃ exposure legs, spread.status (spreadView 1 10 .partiallyFilled) =
        .ok (.finished (.needsHedge exposure legs)) ∧ legs.map (·.filledVolume) = [1, 5]) ∧
      (∃ legs, spread.status (spreadView 2 0 .filled) = .ok (.finished (.allFilled legs)) ∧
        legs.map (·.filledVolume) = [1, 15]) ∧
      (∃ exposure legs, spread.WaitReturns 100 [] spreadTurn (.needsHedge exposure legs) 0
        (spreadView 1 10 .partiallyFilled)) ∧
      ¬ spread.WaitElapsed 100 ([] ++ [spreadTurn]) 0 := by
  refine ⟨?_, ?_, ⟨_, _, rfl, by decide⟩, ⟨_, rfl, by decide⟩, ⟨_, _, none, rfl, rfl⟩, ?_⟩
  · intro done
    obtain ⟨order, status, sight, stage⟩ := done (spreadLeg 1 "SHFE.ag2602" 15)
      (mem_cons_of_mem _ mem_cons_self)
    rw [(spread_sees 1 10 .partiallyFilled).2] at sight
    obtain ⟨rfl, rfl⟩ := Prod.mk.inj (Except.ok.inj sight)
    exact absurd stage (by decide)
  · intro leg member
    rcases mem_cons.mp member with rfl | member
    · exact ⟨_, _, _, _, (spread_sees 1 10 .partiallyFilled).1, (spread_sees 2 0 .filled).1,
        ⟨rfl, rfl, by decide, fun _ => rfl⟩, trivial⟩
    · obtain rfl := mem_singleton.mp member
      exact ⟨_, _, _, _, (spread_sees 1 10 .partiallyFilled).2, (spread_sees 2 0 .filled).2,
        ⟨rfl, rfl, by decide, nofun⟩, trivial⟩
  · rintro (late | ⟨wnd, since, unhedged, -, late⟩)
    · omega
    · obtain rfl : 30 = wnd := Option.some.inj unhedged
      omega

/-- The second leg is cancelled after five lots, and the state goes on without it. -/
theorem ExecutionGroupTicket.outcomes_final_cancelledSpread :
    spread.NotOnlyFilling (spreadView 1 10 .cancelled) ∧
      (∃ exposure legs,
        spread.status (spreadView 1 10 .cancelled) =
          .ok (.finished (.needsHedge exposure legs)) ∧
        spread.status (spreadView 2 10 .cancelled) =
          .ok (.finished (.needsHedge exposure legs))) ∧
      spread.AllOver (spreadView 1 10 .cancelled) := by
  have done : ∀ rev, ∀ leg ∈ spread.legs,
      leg.InStage (spreadView rev 10 .cancelled) .settled := by
    intro rev leg member
    rcases mem_cons.mp member with rfl | member
    · exact ⟨_, _, (spread_sees rev 10 .cancelled).1, rfl⟩
    · obtain rfl := mem_singleton.mp member
      exact ⟨_, _, (spread_sees rev 10 .cancelled).2, rfl⟩
  have notOnly : ∀ rev, spread.NotOnlyFilling (spreadView rev 10 .cancelled) := by
    rintro rev ⟨leg, member, fill⟩
    cases inStage_unique (done rev leg member) fill
  have step : spread.SafeStep (spreadView 1 10 .cancelled) (spreadView 2 10 .cancelled) := by
    refine ⟨?_, ?_, notOnly 2⟩
    · intro leg member
      rcases mem_cons.mp member with rfl | member
      · exact ⟨_, _, _, _, (spread_sees 1 10 .cancelled).1, (spread_sees 2 10 .cancelled).1,
          ⟨rfl, rfl, by decide, fun _ => rfl⟩, trivial⟩
      · obtain rfl := mem_singleton.mp member
        exact ⟨_, _, _, _, (spread_sees 1 10 .cancelled).2, (spread_sees 2 10 .cancelled).2,
          ⟨rfl, rfl, by decide, fun _ => rfl⟩, trivial⟩
    · intro leg member status order' status' sight
      rcases mem_cons.mp member with rfl | member
      · rw [(spread_sees 1 10 .cancelled).1] at sight
        cases Except.ok.inj sight
      · obtain rfl := mem_singleton.mp member
        rw [(spread_sees 1 10 .cancelled).2] at sight
        cases Except.ok.inj sight
  have fin := (outcomes_final (notOnly 1) (.single step)).1 _ rfl
  exact ⟨notOnly 1, ⟨_, _, rfl, fin.2.1⟩, fin.1⟩

end Tqsdk
