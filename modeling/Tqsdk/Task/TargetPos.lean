import Tqsdk.Task.Planner

/-!
# Target position tasks

`target_pos.rs` and `target_pos/machine.rs`: a task that submits and cancels orders, one
`wait_update` at a time, until the net position of its contract is the target.

A call of `process_wait_update` is one step.  It reads what the runtime shows of the account and
sends commands through the `TqApi`, each of which may fail; `ApiReplies` says which.  The
execution report is written and never read by the task, and is left out.
-/

namespace Tqsdk

inductive TaskError
  | core (error : ContractError)
  | wait (message : String)
  | invalidState (message : String)
  deriving DecidableEq

/-- `TargetPosTaskInner` with its `TargetPosTaskState`.  `quoteSubscribed` says that the state
holds a quote handle, and `reached` is the value of the watch channel `reached_tx`. -/
structure TargetPosTask where
  targetVolume : Option Int := none
  appliedTargetVolume : Option Int := none
  lastError : Option TaskError := none
  submittedNetPosition : Option Int := none
  quoteSubscribed : Bool := false
  trackedOrders : List String := []
  cancelRequestedOrderIds : List String := []
  nextRequestSeq : Nat := 0
  submittedRequestSeq : Nat := 0
  awaitingProgress : Bool := false
  reached : Nat := 0
  cancelRequested : Bool := false
  finished : Bool := false
  deriving DecidableEq

/-- What the runtime shows of the account: its orders by id, and the position and the quote of
the contract. -/
structure AccountView where
  orders : String → Option Order
  position : Option Position
  quote : Option Quote

/-- The error that a command of the `TqApi` returns, if any. -/
structure ApiReplies where
  quote : Option TaskError
  cancelOrder : String → Option TaskError
  insertOrder : String → Option TaskError

/-- The task, the counter of the `TqApi` for order ids, and the orders it has sent. -/
structure TaskDesk where
  task : TargetPosTask
  nextOrderSeq : Nat
  sent : String → Option DesiredOrder

/-- `format!("wait-order-{order_seq}")`. -/
def waitOrderId (orderSeq : Nat) : String :=
  "wait-order-" ++ toString orderSeq

inductive LiveOrderHandling
  | noLiveOrders
  | blocked
  | submitMissing (missing : DesiredBatch)
  deriving DecidableEq

def orderIsTerminal (order : Order) : Bool :=
  order.lifecycle.isTerminal

namespace TargetPosTask

/-! ## Requests -/

variable (task : TargetPosTask)

def setTargetVolume (volume : Int) : Except TaskError TargetPosTask :=
  if task.finished then .error (.invalidState "target position task already finished")
  else if task.cancelRequested then
    .error (.invalidState "target position task cancellation already requested")
  else if task.targetVolume = some volume then .ok task
  else .ok
    { task with
      targetVolume := some volume
      lastError := none
      submittedNetPosition := none
      awaitingProgress := false
      nextRequestSeq := task.nextRequestSeq + 1 }

/-- The effect of `cancel`. -/
def cancel : TargetPosTask :=
  if task.finished then task else { task with cancelRequested := true }

def finish : TargetPosTask :=
  { task with finished := true }

def finishWithError (error : TaskError) : TargetPosTask :=
  finish { task with lastError := some error }

/-! ## The tracked orders -/

def pruneTerminalOrders (view : AccountView) : TargetPosTask :=
  let finishedOrders := task.trackedOrders.filterMap fun orderId =>
    (view.orders orderId).filter orderIsTerminal
  if finishedOrders.isEmpty then
    if task.trackedOrders.isEmpty then { task with awaitingProgress := false } else task
  else
    let finishedOrderIds := finishedOrders.map Order.orderId
    let trackedOrders := task.trackedOrders.filter fun orderId =>
      !finishedOrderIds.contains orderId
    { task with
      trackedOrders := trackedOrders
      cancelRequestedOrderIds := task.cancelRequestedOrderIds.filter fun orderId =>
        !finishedOrderIds.contains orderId
      awaitingProgress := if trackedOrders.isEmpty then false else task.awaitingProgress }

/-- `has_live_orders` prunes the tracked orders and answers whether any is left. -/
def hasLiveOrders (view : AccountView) : TargetPosTask × Bool :=
  let task := task.pruneTerminalOrders view
  (task, !task.trackedOrders.isEmpty)

def liveOrders (view : AccountView) : TargetPosTask × List Order :=
  let task := task.pruneTerminalOrders view
  (task, (task.trackedOrders.filterMap view.orders).filter fun order => !orderIsTerminal order)

def unmaterializedOrderIds (view : AccountView) : TargetPosTask × List String :=
  let task := task.pruneTerminalOrders view
  (task, task.trackedOrders.filter fun orderId => (view.orders orderId).isNone)

def awaitingSameSubmission (currentNetPosition : Int) : Bool :=
  task.awaitingProgress && task.submittedNetPosition == some currentNetPosition

/-! ## Cancelling -/

/-- The loop of `cancel_pending_orders_filtered` over the tracked orders that remain. -/
def cancelOrders (replies : ApiReplies) :
    List String → TargetPosTask → TargetPosTask × Except TaskError Unit
  | [], task => (task, .ok ())
  | orderId :: orderIds, task =>
    if task.cancelRequestedOrderIds.contains orderId then cancelOrders replies orderIds task
    else
      match replies.cancelOrder orderId with
      | some error => (task, .error error)
      | none =>
        cancelOrders replies orderIds
          { task with cancelRequestedOrderIds := task.cancelRequestedOrderIds ++ [orderId] }

def cancelPendingOrdersFiltered (view : AccountView) (replies : ApiReplies)
    (orderIds : Option (List String)) : TargetPosTask × Except TaskError Unit :=
  let task := task.pruneTerminalOrders view
  let chosen := task.trackedOrders.filter fun orderId =>
    match orderIds with
    | none => true
    | some orderIds => orderIds.contains orderId
  cancelOrders replies chosen task

def cancelPendingOrders (view : AccountView) (replies : ApiReplies) :
    TargetPosTask × Except TaskError Unit :=
  task.cancelPendingOrdersFiltered view replies none

def cancelPendingOrdersById (view : AccountView) (replies : ApiReplies) (orderIds : List String) :
    TargetPosTask × Except TaskError Unit :=
  task.cancelPendingOrdersFiltered view replies (some orderIds)

/-! ## Handling the live orders -/

/-- The cancellations are sent, and the step ends here. -/
def blockedAfter :
    TargetPosTask × Except TaskError Unit → TargetPosTask × Except TaskError LiveOrderHandling
  | (task, .ok ()) => (task, .ok .blocked)
  | (task, .error error) => (task, .error error)

def handleLiveOrders (view : AccountView) (replies : ApiReplies)
    (currentNetPosition targetVolume : Int) (desiredBatch : Option DesiredBatch) :
    TargetPosTask × Except TaskError LiveOrderHandling :=
  let (task, anyLive) := task.hasLiveOrders view
  if !anyLive then (task, .ok .noLiveOrders)
  else if currentNetPosition = targetVolume then
    blockedAfter (task.cancelPendingOrders view replies)
  else
    let (task, unmaterialized) := task.unmaterializedOrderIds view
    if !unmaterialized.isEmpty then
      if task.awaitingSameSubmission currentNetPosition then (task, .ok .blocked)
      else blockedAfter (task.cancelPendingOrdersById view replies unmaterialized)
    else
      let (task, liveOrders) := task.liveOrders view
      if liveOrders.isEmpty then (task, .ok .noLiveOrders)
      else
        match desiredBatch with
        | none => (task, .ok .blocked)
        | some desiredBatch =>
          let reconciliation := reconcileLiveOrders liveOrders desiredBatch
          if !reconciliation.staleOrderIds.isEmpty then
            blockedAfter
              (task.cancelPendingOrdersById view replies reconciliation.staleOrderIds)
          else if reconciliation.missingBatch.isEmpty then (task, .ok .blocked)
          else (task, .ok (.submitMissing reconciliation.missingBatch))

/-! ## Planning -/

def ensureQuoteSubscription (replies : ApiReplies) : Except TaskError TargetPosTask :=
  if task.quoteSubscribed then .ok task
  else
    match replies.quote with
    | some error => .error error
    | none => .ok { task with quoteSubscribed := true }

def currentPosition (view : AccountView) : Position :=
  view.position.getD {}

/-- The plan of `desired_batch_for_current_state`, once the quote is subscribed. -/
def plan (symbol : String) (config : TargetPosConfig) (view : AccountView)
    (targetVolume : Int) : Option DesiredBatch :=
  view.quote.bind fun quote =>
    desiredBatchForTarget symbol config targetVolume (currentPosition view) quote

def markReached (currentSeq : Nat) (targetVolume : Int) : TargetPosTask :=
  { task with
    appliedTargetVolume := some targetVolume
    awaitingProgress := false
    reached := currentSeq }

/-- `process_cancel_requested`: the task, and whether the step goes on. -/
def processCancelRequested (view : AccountView) (replies : ApiReplies) :
    TargetPosTask × Except TaskError Bool :=
  if !task.cancelRequested then (task, .ok true)
  else
    match task.cancelPendingOrders view replies with
    | (task, .error error) => (task, .error error)
    | (task, .ok ()) =>
      let (task, anyLive) := task.hasLiveOrders view
      if anyLive then (task, .ok false) else (task.finish, .ok false)

end TargetPosTask

/-! ## Submitting -/

namespace TaskDesk

/-- The loop of `submit_desired_batch`. -/
def insertDesiredOrders (replies : ApiReplies) :
    List DesiredOrder → Bool → TaskDesk → TaskDesk × Except TaskError Unit
  | [], _, desk => (desk, .ok ())
  | desired :: orders, insertedAny, desk =>
    let orderId := waitOrderId desk.nextOrderSeq
    let desk := { desk with nextOrderSeq := desk.nextOrderSeq + 1 }
    match replies.insertOrder orderId with
    | none =>
      insertDesiredOrders replies orders true
        { desk with
          sent := Function.update desk.sent orderId (some desired)
          task := { desk.task with trackedOrders := desk.task.trackedOrders ++ [orderId] } }
    | some error =>
      if insertedAny then
        ({ desk with
            task := { desk.task with lastError := some error, cancelRequested := true } },
          .ok ())
      else (desk, .error error)

def submitDesiredBatch (desk : TaskDesk) (replies : ApiReplies) (currentSeq : Nat)
    (currentNetPosition : Int) (desiredBatch : DesiredBatch) :
    TaskDesk × Except TaskError Unit :=
  if desiredBatch.isEmpty then (desk, .ok ())
  else
    insertDesiredOrders replies desiredBatch false
      { desk with
        task :=
          { desk.task with
            submittedRequestSeq := currentSeq
            awaitingProgress := true
            submittedNetPosition := some currentNetPosition } }

end TaskDesk

/-! ## One update -/

/-- What an update did with the plan: nothing, `mark_reached`, or `submit_desired_batch`. -/
inductive TaskAction
  | idle
  | reached (requestSeq : Nat) (targetVolume : Int)
  | submitted (targetVolume : Int) (batch : DesiredBatch)
  deriving DecidableEq

namespace TaskDesk

/-- The end of `process_wait_update`: the plan is acted on. -/
def actOnPlan (desk : TaskDesk) (replies : ApiReplies) (currentSeq : Nat)
    (currentNetPosition targetVolume : Int) (desiredBatch : Option DesiredBatch) :
    TaskDesk × TaskAction :=
  if desk.task.awaitingProgress && decide (desk.task.submittedRequestSeq ≥ currentSeq) &&
      desk.task.submittedNetPosition == some currentNetPosition then (desk, .idle)
  else if currentNetPosition = targetVolume then
    ({ desk with task := desk.task.markReached currentSeq targetVolume },
      .reached currentSeq targetVolume)
  else
    match desiredBatch with
    | none => (desk, .idle)
    | some batch =>
      match desk.submitDesiredBatch replies currentSeq currentNetPosition batch with
      | (desk, .ok ()) => (desk, .submitted targetVolume batch)
      | (desk, .error error) =>
        ({ desk with task := desk.task.finishWithError error }, .submitted targetVolume batch)

/-- The middle of `process_wait_update`: the live orders are compared with the plan. -/
def pursueTarget (symbol : String) (config : TargetPosConfig) (desk : TaskDesk)
    (view : AccountView) (replies : ApiReplies) (currentSeq : Nat) (targetVolume : Int) :
    TaskDesk × TaskAction :=
  match desk.task.ensureQuoteSubscription replies with
  | .error error => ({ desk with task := desk.task.finishWithError error }, .idle)
  | .ok task =>
    let currentNetPosition := (TargetPosTask.currentPosition view).netPosition
    let desiredBatch := TargetPosTask.plan symbol config view targetVolume
    match task.handleLiveOrders view replies currentNetPosition targetVolume desiredBatch with
    | (task, .error error) => ({ desk with task := task.finishWithError error }, .idle)
    | (task, .ok .blocked) => ({ desk with task := task }, .idle)
    | (task, .ok .noLiveOrders) =>
      actOnPlan { desk with task := task } replies currentSeq currentNetPosition targetVolume
        desiredBatch
    | (task, .ok (.submitMissing missing)) =>
      actOnPlan { desk with task := task } replies currentSeq currentNetPosition targetVolume
        (some missing)

def processWaitUpdate (symbol : String) (config : TargetPosConfig) (desk : TaskDesk)
    (view : AccountView) (replies : ApiReplies) : TaskDesk × TaskAction :=
  match desk.task.processCancelRequested view replies with
  | (task, .error error) => ({ desk with task := task.finishWithError error }, .idle)
  | (task, .ok false) => ({ desk with task := task }, .idle)
  | (task, .ok true) =>
    let desk := { desk with task := task }
    let currentSeq := task.nextRequestSeq
    if currentSeq = 0 ∨ task.reached ≥ currentSeq then (desk, .idle)
    else
      match task.targetVolume with
      | none => (desk, .idle)
      | some targetVolume =>
        pursueTarget symbol config desk view replies currentSeq targetVolume

end TaskDesk

end Tqsdk
