import Tqsdk.Lib.Numbered
import Tqsdk.Task.TargetPos

/-!
# A target position task does not over-submit

The task between its requests, its updates and the exchange, which shows the orders it was sent,
fills them and ends them.  Whatever the order of these steps, a submission leaves the task with
orders for at most the change it still has to make, all in its direction.
-/

namespace Tqsdk

open List Option

/-! ## What an update leaves of the task -/

/-- The request of a task is kept, and no order is tracked that was not. -/
structure TargetPosTask.Kept (task task' : TargetPosTask) : Prop where
  targetVolume : task'.targetVolume = task.targetVolume
  nextRequestSeq : task'.nextRequestSeq = task.nextRequestSeq
  tracked : task'.trackedOrders ⊆ task.trackedOrders

theorem TargetPosTask.Kept.refl (task : TargetPosTask) : task.Kept task :=
  ⟨rfl, rfl, List.Subset.refl _⟩

theorem TargetPosTask.Kept.trans {hd snd third : TargetPosTask}
    (pre : hd.Kept snd) (post : snd.Kept third) : hd.Kept third :=
  ⟨post.targetVolume.trans pre.targetVolume,
    post.nextRequestSeq.trans pre.nextRequestSeq,
    fun _ mem => pre.tracked (post.tracked mem)⟩

/-- The order is not known to have ended. -/
def AccountView.isOpen (view : AccountView) (orderId : String) : Bool :=
  match view.orders orderId with
  | some order => !orderIsTerminal order
  | none => true

/-- The runtime shows every order under its own id. -/
def AccountView.Keyed (view : AccountView) : Prop :=
  ∀ orderId order, view.orders orderId = some order → order.orderId = orderId

namespace TargetPosTask

variable (task : TargetPosTask) (view : AccountView) (replies : ApiReplies)

theorem pruneTerminalOrders_kept : task.Kept (task.pruneTerminalOrders view) := by
  unfold pruneTerminalOrders
  dsimp only
  split
  · split
    · exact ⟨rfl, rfl, List.Subset.refl _⟩
    · exact Kept.refl task
  · exact ⟨rfl, rfl, fun _ mem => mem_of_mem_filter mem⟩

/-- Pruning keeps exactly the tracked orders that have not ended. -/
theorem pruneTerminalOrders_tracked {view : AccountView} (key : view.Keyed) :
    (task.pruneTerminalOrders view).trackedOrders = task.trackedOrders.filter view.isOpen := by
  have fin : ∀ oid ∈ task.trackedOrders,
      (((task.trackedOrders.filterMap fun oid =>
        (view.orders oid).filter orderIsTerminal).map Order.orderId).contains oid) =
        !view.isOpen oid := by
    intro oid mem
    rw [Bool.eq_iff_iff, contains_iff_mem]
    unfold AccountView.isOpen
    constructor
    · intro done
      obtain ⟨ord, orderMember, rfl⟩ := mem_map.mp done
      obtain ⟨alt, -, hit⟩ := mem_filterMap.mp orderMember
      obtain ⟨shown, term⟩ := filter_eq_some_iff.mp hit
      rw [key alt ord shown, shown]
      simp [term]
    · intro shut
      cases shown : view.orders oid with
      | none => simp [shown] at shut
      | some ord =>
        refine mem_map.mpr ⟨ord, mem_filterMap.mpr ⟨oid, mem, ?_⟩, key oid ord shown⟩
        rw [shown] at shut ⊢
        exact filter_eq_some_iff.mpr ⟨rfl, by simpa using shut⟩
  unfold pruneTerminalOrders
  dsimp only
  split
  · rename_i none_
    have all : task.trackedOrders.filter view.isOpen = task.trackedOrders := by
      refine filter_eq_self.mpr fun oid mem => ?_
      have notEnded := fin oid mem
      rw [isEmpty_iff.mp none_] at notEnded
      simpa using notEnded
    split <;> exact all.symm
  · refine filter_congr fun oid mem => ?_
    rw [fin oid mem, Bool.not_not]

theorem cancelOrders_kept (oids : List String) :
    task.Kept (cancelOrders replies oids task).1 ∧
      (cancelOrders replies oids task).1.trackedOrders = task.trackedOrders := by
  induction oids generalizing task with
  | nil => exact ⟨Kept.refl task, rfl⟩
  | cons oid oids ih =>
    unfold cancelOrders
    split
    · exact ih task
    · split
      · exact ⟨Kept.refl task, rfl⟩
      · obtain ⟨kept, trk⟩ := ih
          { task with cancelRequestedOrderIds := task.cancelRequestedOrderIds ++ [oid] }
        exact ⟨⟨kept.targetVolume, kept.nextRequestSeq, kept.tracked⟩, trk⟩

theorem cancelPendingOrdersFiltered_kept (oids : Option (List String)) :
    task.Kept (task.cancelPendingOrdersFiltered view replies oids).1 := by
  unfold cancelPendingOrdersFiltered
  exact (task.pruneTerminalOrders_kept view).trans (cancelOrders_kept _ replies _).1

theorem blockedAfter_kept {res : TargetPosTask × Except TaskError Unit}
    (kept : task.Kept res.1) : task.Kept (blockedAfter res).1 := by
  rcases res with ⟨post, err | ⟨⟩⟩
  · exact kept
  · exact kept

theorem handleLiveOrders_kept (net targetVolume : Int) (desiredBatch : Option DesiredBatch) :
    task.Kept
      (task.handleLiveOrders view replies net targetVolume desiredBatch).1 := by
  have once := task.pruneTerminalOrders_kept view
  have twice := once.trans (pruneTerminalOrders_kept _ view)
  have thrice := twice.trans (pruneTerminalOrders_kept _ view)
  unfold handleLiveOrders hasLiveOrders unmaterializedOrderIds liveOrders cancelPendingOrders
    cancelPendingOrdersById
  dsimp only
  split
  · exact once
  split
  · exact once.trans (blockedAfter_kept _ (cancelPendingOrdersFiltered_kept _ view replies none))
  split
  · split
    · exact twice
    · exact twice.trans (blockedAfter_kept _ (cancelPendingOrdersFiltered_kept _ view replies _))
  split
  · exact thrice
  split
  · exact thrice
  split
  · exact thrice.trans (blockedAfter_kept _ (cancelPendingOrdersFiltered_kept _ view replies _))
  split
  · exact thrice
  · exact thrice

theorem processCancelRequested_kept :
    task.Kept (task.processCancelRequested view replies).1 := by
  have cancelled := task.cancelPendingOrdersFiltered_kept view replies none
  unfold processCancelRequested cancelPendingOrders
  split
  · exact Kept.refl task
  · rcases res : task.cancelPendingOrdersFiltered view replies none with ⟨post, err | ⟨⟩⟩
    · rw [res] at cancelled
      exact cancelled
    · rw [res] at cancelled
      have pruned := cancelled.trans (post.pruneTerminalOrders_kept view)
      unfold hasLiveOrders
      dsimp only
      split
      · exact pruned
      · exact ⟨pruned.targetVolume, pruned.nextRequestSeq, pruned.tracked⟩

/-! ## What the live orders allow -/

theorem isOpen_filter_filter (oids : List String) :
    (oids.filter view.isOpen).filter view.isOpen = oids.filter view.isOpen := by
  simp [List.filter_filter]

theorem liveOrders_filter {view : AccountView} {oids : List String}
    (live : ∀ oid ∈ oids, view.isOpen oid = true) :
    ((oids.filterMap view.orders).filter fun ord => !orderIsTerminal ord) =
      oids.filterMap view.orders := by
  refine filter_eq_self.mpr fun ord mem => ?_
  obtain ⟨oid, orderMember, shown⟩ := mem_filterMap.mp mem
  have open_ := live oid orderMember
  unfold AccountView.isOpen at open_
  rw [shown] at open_
  exact open_

/-- What holds of the open tracked orders when an update may act on its plan. -/
inductive Handled (view : AccountView) (orderIds : List String) (currentNetPosition : Int)
    (targetVolume : Int) (desiredBatch : Option DesiredBatch) : LiveOrderHandling → Prop
  | noLiveOrders (none_ : orderIds = []) :
      Handled view orderIds currentNetPosition targetVolume desiredBatch .noLiveOrders
  | blocked : Handled view orderIds currentNetPosition targetVolume desiredBatch .blocked
  | submitMissing {batch missing : DesiredBatch} (apart : currentNetPosition ≠ targetVolume)
      (shown : ∀ orderId ∈ orderIds, (view.orders orderId).isSome = true)
      (planned : desiredBatch = some batch)
      (settled : settle (orderIds.filterMap view.orders) batch = some missing) :
      Handled view orderIds currentNetPosition targetVolume desiredBatch (.submitMissing missing)

theorem blockedAfter_ok {res : TargetPosTask × Except TaskError Unit}
    {handling : LiveOrderHandling} (done : (blockedAfter res).2 = .ok handling) :
    handling = .blocked := by
  rcases res with ⟨post, err | ⟨⟩⟩
  · cases done
  · cases done
    rfl

theorem handleLiveOrders_handled {view : AccountView} (key : view.Keyed) {net targetVolume : Int}
    {desiredBatch : Option DesiredBatch} {handling : LiveOrderHandling}
    (hdl : (task.handleLiveOrders view replies net targetVolume desiredBatch).2 = .ok handling) :
    Handled view (task.trackedOrders.filter view.isOpen) net targetVolume
      desiredBatch handling ∧
      (handling ≠ .blocked →
        (task.handleLiveOrders view replies net targetVolume
          desiredBatch).1.trackedOrders = task.trackedOrders.filter view.isOpen) := by
  have once := task.pruneTerminalOrders_tracked key
  have twice : ((task.pruneTerminalOrders view).pruneTerminalOrders view).trackedOrders = _ :=
    (pruneTerminalOrders_tracked _ key).trans
      ((congrArg _ once).trans (isOpen_filter_filter view task.trackedOrders))
  have thrice : (((task.pruneTerminalOrders view).pruneTerminalOrders view).pruneTerminalOrders
      view).trackedOrders = _ :=
    (pruneTerminalOrders_tracked _ key).trans
      ((congrArg _ twice).trans (isOpen_filter_filter view task.trackedOrders))
  have opn : ∀ oid ∈ task.trackedOrders.filter view.isOpen,
      view.isOpen oid = true := fun oid mem => (mem_filter.mp mem).2
  unfold handleLiveOrders hasLiveOrders unmaterializedOrderIds liveOrders cancelPendingOrders
    cancelPendingOrdersById at hdl ⊢
  dsimp only at hdl ⊢
  rw [once, twice, thrice, liveOrders_filter opn] at hdl ⊢
  clear opn
  generalize task.trackedOrders.filter view.isOpen = orderIds at *
  by_cases none_ : orderIds = []
  · subst none_
    simp only [isEmpty_nil, Bool.not_true, Bool.not_false, if_true] at hdl ⊢
    cases hdl
    exact ⟨.noLiveOrders rfl, fun _ => once⟩
  have someId : (!!orderIds.isEmpty) = false := by simpa using none_
  rw [someId, if_neg Bool.false_ne_true] at hdl ⊢
  by_cases there : net = targetVolume
  · rw [if_pos there] at hdl ⊢
    cases blockedAfter_ok hdl
    exact ⟨.blocked, fun sep => absurd rfl sep⟩
  rw [if_neg there] at hdl ⊢
  by_cases unshown : (!(orderIds.filter fun oid => (view.orders oid).isNone).isEmpty) = true
  · rw [if_pos unshown] at hdl ⊢
    split at hdl
    · cases hdl
      exact ⟨.blocked, fun sep => absurd rfl sep⟩
    · cases blockedAfter_ok hdl
      exact ⟨.blocked, fun sep => absurd rfl sep⟩
  rw [if_neg unshown] at hdl ⊢
  have shown : ∀ oid ∈ orderIds, (view.orders oid).isSome = true := by
    intro oid mem
    have filtered : orderIds.filter (fun oid => (view.orders oid).isNone) = [] := by
      simpa using unshown
    have notNone := filter_eq_nil_iff.mp filtered oid mem
    exact isSome_iff_ne_none.mpr (by simpa using notNone)
  by_cases noLive : orderIds.filterMap view.orders = []
  · -- Every tracked order is shown, so there is one to be live.
    obtain ⟨oid, mem⟩ := exists_mem_of_ne_nil orderIds none_
    obtain ⟨ord, hit⟩ := isSome_iff_exists.mp (shown oid mem)
    have live : ord ∈ orderIds.filterMap view.orders := mem_filterMap.mpr ⟨oid, mem, hit⟩
    exact absurd (noLive ▸ live) not_mem_nil
  rw [if_neg (by simpa using noLive)] at hdl ⊢
  cases plan : desiredBatch with
  | none =>
    rw [plan] at hdl
    cases hdl
    exact ⟨.blocked, fun sep => absurd rfl sep⟩
  | some batch =>
    rw [plan] at hdl
    dsimp only at hdl ⊢
    by_cases stale : (reconcileLiveOrders (orderIds.filterMap view.orders) batch).staleOrderIds = []
    · have done := settle_of_stale_nil stale
      rw [stale] at hdl ⊢
      simp only [isEmpty_nil, Bool.not_true, Bool.false_eq_true, if_false] at hdl ⊢
      split at hdl
      · cases hdl
        exact ⟨.blocked, fun sep => absurd rfl sep⟩
      · rename_i miss
        cases hdl
        rw [if_neg miss]
        exact ⟨.submitMissing there shown rfl done, fun _ => thrice⟩
    · rw [if_pos (by simpa using stale)] at hdl ⊢
      cases blockedAfter_ok hdl
      exact ⟨.blocked, fun sep => absurd rfl sep⟩

end TargetPosTask

/-! ## Inserting the orders of a batch -/

theorem waitOrderId_injective {left right : Nat} (same : waitOrderId left = waitOrderId right) :
    left = right :=
  Numbered.name_injective same

/-- The desk after some orders were inserted under fresh ids. -/
structure TaskDesk.Inserted (desk desk' : TaskDesk) (added : List (String × DesiredOrder)) :
    Prop where
  targetVolume : desk'.task.targetVolume = desk.task.targetVolume
  nextRequestSeq : desk'.task.nextRequestSeq = desk.task.nextRequestSeq
  tracked : desk'.task.trackedOrders = desk.task.trackedOrders ++ added.map Prod.fst
  sent : ∀ entry ∈ added, desk'.sent entry.1 = some entry.2
  fresh : ∀ entry ∈ added,
    ∃ orderSeq, desk.nextOrderSeq ≤ orderSeq ∧ orderSeq < desk'.nextOrderSeq ∧
      entry.1 = waitOrderId orderSeq
  others : ∀ orderId, orderId ∉ added.map Prod.fst → desk'.sent orderId = desk.sent orderId
  counted : desk.nextOrderSeq ≤ desk'.nextOrderSeq

theorem TaskDesk.insertDesiredOrders_inserted (replies : ApiReplies) (ords : List DesiredOrder) :
    ∀ (insertedAny : Bool) (desk : TaskDesk), ∃ added,
      desk.Inserted (insertDesiredOrders replies ords insertedAny desk).1 added ∧
        added.map Prod.snd <+: ords := by
  induction ords with
  | nil =>
    intro insertedAny desk
    exact ⟨[], ⟨rfl, rfl, by simp [insertDesiredOrders], by simp, by simp, fun _ _ => rfl,
      Nat.le_refl _⟩, nil_prefix⟩
  | cons want ords ih =>
    intro insertedAny desk
    unfold insertDesiredOrders
    dsimp only
    split
    · obtain ⟨added, ins, front⟩ := ih true
        { desk with
          nextOrderSeq := desk.nextOrderSeq + 1
          sent := Function.update desk.sent (waitOrderId desk.nextOrderSeq) (some want)
          task :=
            { desk.task with
              trackedOrders := desk.task.trackedOrders ++ [waitOrderId desk.nextOrderSeq] } }
      have cnt := ins.counted
      dsimp only at cnt
      have sep : waitOrderId desk.nextOrderSeq ∉ added.map Prod.fst := by
        intro mem
        obtain ⟨ent, eMem, same⟩ := mem_map.mp mem
        obtain ⟨orderSeq, later, -, nm⟩ := ins.fresh ent eMem
        have seqs := waitOrderId_injective (same.symm.trans nm)
        dsimp only at later
        omega
      refine ⟨(waitOrderId desk.nextOrderSeq, want) :: added, ?_, cons_prefix_cons.mpr ⟨rfl, front⟩⟩
      refine ⟨ins.targetVolume, ins.nextRequestSeq, ?_, ?_, ?_, ?_, by omega⟩
      · rw [ins.tracked, append_assoc]
        rfl
      · intro ent mem
        rcases mem_cons.mp mem with rfl | later
        · rw [ins.others _ sep]
          exact Function.update_self _ _ _
        · exact ins.sent ent later
      · intro ent mem
        rcases mem_cons.mp mem with rfl | later
        · exact ⟨desk.nextOrderSeq, Nat.le_refl _, by omega, rfl⟩
        · obtain ⟨orderSeq, low, high, nm⟩ := ins.fresh ent later
          dsimp only at low
          exact ⟨orderSeq, by omega, high, nm⟩
      · intro oid gone
        rw [map_cons, mem_cons, not_or] at gone
        rw [ins.others oid gone.2]
        exact Function.update_of_ne gone.1 _ _
    · split
      · exact ⟨[], ⟨rfl, rfl, by simp, by simp, by simp, fun _ _ => rfl, Nat.le_succ _⟩,
          nil_prefix⟩
      · exact ⟨[], ⟨rfl, rfl, by simp, by simp, by simp, fun _ _ => rfl, Nat.le_succ _⟩,
          nil_prefix⟩

theorem TaskDesk.submitDesiredBatch_inserted (desk : TaskDesk) (replies : ApiReplies)
    (currentSeq : Nat) (net : Int) (batch : DesiredBatch) :
    ∃ added, desk.Inserted
        (desk.submitDesiredBatch replies currentSeq net batch).1 added ∧
      added.map Prod.snd <+: batch := by
  unfold submitDesiredBatch
  split
  · exact ⟨[], ⟨rfl, rfl, by simp, by simp, by simp, fun _ _ => rfl, Nat.le_refl _⟩,
      nil_prefix⟩
  · obtain ⟨added, ins, fst⟩ := insertDesiredOrders_inserted replies batch false
      { desk with
        task :=
          { desk.task with
            submittedRequestSeq := currentSeq
            awaitingProgress := true
            submittedNetPosition := some net } }
    exact ⟨added, ⟨ins.targetVolume, ins.nextRequestSeq, ins.tracked,
      ins.sent, ins.fresh, ins.others, ins.counted⟩, fst⟩

/-! ## One update -/

/-- Everything an update can do. -/
inductive UpdateResult (symbol : String) (config : TargetPosConfig) (desk : TaskDesk)
    (view : AccountView) : TaskDesk × TaskAction → Prop
  | idle {task : TargetPosTask} (kept : desk.task.Kept task) :
      UpdateResult symbol config desk view ({ desk with task := task }, .idle)
  | reached {task : TargetPosTask} {targetVolume : Int} (kept : desk.task.Kept task)
      (target : desk.task.targetVolume = some targetVolume)
      (there : (TargetPosTask.currentPosition view).netPosition = targetVolume)
      (requested : desk.task.nextRequestSeq ≠ 0)
      (flat : desk.task.trackedOrders.filter view.isOpen = []) (untracked : task.trackedOrders = []) :
      UpdateResult symbol config desk view
        ({ desk with task := task }, .reached desk.task.nextRequestSeq targetVolume)
  | submitted {task : TargetPosTask} {desk' : TaskDesk} {targetVolume : Int}
      {batch missing : DesiredBatch} {added : List (String × DesiredOrder)}
      (kept : desk.task.Kept task)
      (tracked : task.trackedOrders = desk.task.trackedOrders.filter view.isOpen)
      (target : desk.task.targetVolume = some targetVolume)
      (shown : ∀ orderId ∈ desk.task.trackedOrders.filter view.isOpen,
        (view.orders orderId).isSome = true)
      (planned : TargetPosTask.plan symbol config view targetVolume = some batch)
      (settled : settle ((desk.task.trackedOrders.filter view.isOpen).filterMap view.orders)
        batch = some missing)
      (inserted : ({ desk with task := task } : TaskDesk).Inserted desk' added)
      (front : added.map Prod.snd <+: missing) :
      UpdateResult symbol config desk view (desk', .submitted targetVolume missing)

section Update

variable {symbol : String} {config : TargetPosConfig} {desk : TaskDesk} {view : AccountView}

theorem TaskDesk.Inserted.finishWithError {desk' : TaskDesk} {added : List (String × DesiredOrder)}
    (ins : desk.Inserted desk' added) (error : TaskError) :
    desk.Inserted { desk' with task := desk'.task.finishWithError error } added :=
  ⟨ins.targetVolume, ins.nextRequestSeq, ins.tracked, ins.sent, ins.fresh, ins.others, ins.counted⟩

theorem TaskDesk.actOnPlan_result (replies : ApiReplies) {task : TargetPosTask} {targetVolume : Int}
    {desiredBatch : Option DesiredBatch} (kept : desk.task.Kept task)
    (trkd : task.trackedOrders = desk.task.trackedOrders.filter view.isOpen)
    (tgt : desk.task.targetVolume = some targetVolume) (asked : desk.task.nextRequestSeq ≠ 0)
    (flat : (TargetPosTask.currentPosition view).netPosition = targetVolume →
      desk.task.trackedOrders.filter view.isOpen = [])
    (shown : ∀ oid ∈ desk.task.trackedOrders.filter view.isOpen,
      (view.orders oid).isSome = true) (hit : ∀ miss, desiredBatch = some miss →
      ∃ batch, TargetPosTask.plan symbol config view targetVolume = some batch ∧
        settle ((desk.task.trackedOrders.filter view.isOpen).filterMap view.orders) batch =
          some miss) :
    UpdateResult symbol config desk view
      (actOnPlan { desk with task := task } replies desk.task.nextRequestSeq
        (TargetPosTask.currentPosition view).netPosition targetVolume desiredBatch) := by
  unfold actOnPlan
  split
  · exact .idle kept
  split
  · rename_i there
    exact .reached ⟨kept.targetVolume, kept.nextRequestSeq, kept.tracked⟩ tgt there asked
      (flat there) (trkd.trans (flat there))
  cases desiredBatch with
  | none => exact .idle kept
  | some miss =>
    obtain ⟨batch, planned, done⟩ := hit miss rfl
    obtain ⟨added, ins, fst⟩ := ({ desk with task := task } : TaskDesk
      ).submitDesiredBatch_inserted replies desk.task.nextRequestSeq
        (TargetPosTask.currentPosition view).netPosition miss
    dsimp only
    rcases res : ({ desk with task := task } : TaskDesk).submitDesiredBatch replies
        desk.task.nextRequestSeq (TargetPosTask.currentPosition view).netPosition miss with
      ⟨desk', error | ⟨⟩⟩
    · rw [res] at ins
      exact .submitted kept trkd tgt shown planned done (ins.finishWithError error) fst
    · rw [res] at ins
      exact .submitted kept trkd tgt shown planned done ins fst

theorem TaskDesk.pursueTarget_result (key : view.Keyed) (replies : ApiReplies) {targetVolume : Int}
    (tgt : desk.task.targetVolume = some targetVolume) (asked : desk.task.nextRequestSeq ≠ 0) :
    UpdateResult symbol config desk view
      (pursueTarget symbol config desk view replies desk.task.nextRequestSeq targetVolume) := by
  unfold pursueTarget
  cases subd : desk.task.ensureQuoteSubscription replies with
  | error error => exact .idle ⟨rfl, rfl, List.Subset.refl _⟩
  | ok task =>
    have same : desk.task.Kept task ∧ task.trackedOrders = desk.task.trackedOrders := by
      unfold TargetPosTask.ensureQuoteSubscription at subd
      split at subd
      · cases subd
        exact ⟨TargetPosTask.Kept.refl _, rfl⟩
      · split at subd
        · cases subd
        · cases subd
          exact ⟨⟨rfl, rfl, List.Subset.refl _⟩, rfl⟩
    obtain ⟨keptTask, sameTracked⟩ := same
    dsimp only
    have kept := keptTask.trans (task.handleLiveOrders_kept view replies
      (TargetPosTask.currentPosition view).netPosition targetVolume
      (TargetPosTask.plan symbol config view targetVolume))
    have hdl : ∀ handling, (task.handleLiveOrders view replies
        (TargetPosTask.currentPosition view).netPosition targetVolume
        (TargetPosTask.plan symbol config view targetVolume)).2 = .ok handling → _ :=
      fun _ => task.handleLiveOrders_handled replies key
    rw [sameTracked] at hdl
    generalize task.handleLiveOrders view replies
      (TargetPosTask.currentPosition view).netPosition targetVolume
      (TargetPosTask.plan symbol config view targetVolume) = res at kept hdl ⊢
    rcases res with ⟨post, error | handling⟩
    · exact .idle ⟨kept.targetVolume, kept.nextRequestSeq, kept.tracked⟩
    · obtain ⟨spec, trk⟩ := hdl handling rfl
      cases spec with
      | blocked => exact .idle kept
      | noLiveOrders none_ =>
        refine actOnPlan_result replies kept (trk (by simp)) tgt asked
          (fun _ => none_) (by simp [none_]) ?_
        intro miss planned
        refine ⟨miss, planned, ?_⟩
        rw [none_]
        rfl
      | submitMissing sep shown planned done =>
        refine actOnPlan_result replies kept (trk (by simp)) tgt asked
          (fun there => absurd there sep) shown ?_
        intro miss same
        cases same
        exact ⟨_, planned, done⟩

theorem TaskDesk.processWaitUpdate_result (key : view.Keyed) (replies : ApiReplies) :
    UpdateResult symbol config desk view
      (processWaitUpdate symbol config desk view replies) := by
  unfold processWaitUpdate
  have kept := desk.task.processCancelRequested_kept view replies
  have same : ∀ task, desk.task.processCancelRequested view replies = (task, .ok true) →
      task = desk.task := by
    intro task res
    unfold TargetPosTask.processCancelRequested at res
    split at res
    · cases res
      rfl
    · split at res
      · cases res
      · dsimp only at res
        split at res <;> cases res
  rcases res : desk.task.processCancelRequested view replies with ⟨task, err | goesOn⟩
  · rw [res] at kept
    exact .idle ⟨kept.targetVolume, kept.nextRequestSeq, kept.tracked⟩
  · cases goesOn with
    | false =>
      rw [res] at kept
      exact .idle kept
    | true =>
      cases same task res
      dsimp only
      split
      · exact .idle (TargetPosTask.Kept.refl _)
      · rename_i pend
        rw [not_or] at pend
        cases tgt : desk.task.targetVolume with
        | none => exact .idle (TargetPosTask.Kept.refl _)
        | some targetVolume => exact pursueTarget_result key replies tgt pend.1

end Update

/-! ## The task and the exchange -/

/-- The task, what the runtime shows of the account, and the volumes requested so far: request
`n` is the `n`-th of them. -/
structure TaskWorld where
  desk : TaskDesk
  view : AccountView
  requests : List Int

def TaskWorld.initial (view : AccountView) : TaskWorld :=
  ⟨⟨{}, 1, fun _ => none⟩, view, []⟩

def AccountView.show_ (view : AccountView) (order : Order) : AccountView :=
  { view with orders := Function.update view.orders order.orderId (some order) }

/-- One step of the task, of the exchange or of the market.  The exchange shows an order it was
sent, fills a part of it together with the position, and ends it. -/
inductive TaskWorld.Step (symbol : String) (config : TargetPosConfig) :
    TaskWorld → TaskAction → TaskWorld → Prop
  | request {world : TaskWorld} {volume : Int} {task : TargetPosTask}
      (accepted : world.desk.task.setTargetVolume volume = .ok task) :
      Step symbol config world .idle
        { world with
          desk := { world.desk with task := task }
          requests :=
            if world.desk.task.targetVolume = some volume then world.requests
            else world.requests ++ [volume] }
  | cancel {world : TaskWorld} :
      Step symbol config world .idle
        { world with desk := { world.desk with task := world.desk.task.cancel } }
  | update {world : TaskWorld} (replies : ApiReplies) :
      Step symbol config world
        (world.desk.processWaitUpdate symbol config world.view replies).2
        { world with
          desk := (world.desk.processWaitUpdate symbol config world.view replies).1 }
  | otherOrder {world : TaskWorld} :
      Step symbol config world .idle
        { world with
          desk := { world.desk with nextOrderSeq := world.desk.nextOrderSeq + 1 } }
  | materialize {world : TaskWorld} {orderId : String} {desired : DesiredOrder}
      {lifecycle : OrderLifecycle} (sent : world.desk.sent orderId = some desired)
      (unknown : world.view.orders orderId = none) :
      Step symbol config world .idle
        { world with
          view := world.view.show_
            ⟨orderId, some desired.direction, some desired.offset, desired.volume,
              desired.limitPrice, lifecycle⟩ }
  | fill {world : TaskWorld} {orderId : String} {order : Order} {volume : Int}
      {position : Position} {lifecycle : OrderLifecycle}
      (shown : world.view.orders orderId = some order) (live : orderIsTerminal order = false)
      (positive : 0 < volume) (fits : volume ≤ order.volumeLeft)
      (moved : ∀ direction, order.direction = some direction →
        position.netPosition = (TargetPosTask.currentPosition world.view).netPosition +
          direction.signedVolume volume) :
      Step symbol config world .idle
        { world with
          view :=
            { world.view.show_
                { order with volumeLeft := order.volumeLeft - volume, lifecycle := lifecycle } with
              position := some position } }
  | finish {world : TaskWorld} {orderId : String} {order : Order} {lifecycle : OrderLifecycle}
      (shown : world.view.orders orderId = some order) (live : orderIsTerminal order = false)
      (ended : lifecycle.isTerminal = true) :
      Step symbol config world .idle
        { world with view := world.view.show_ { order with lifecycle := lifecycle } }
  | market {world : TaskWorld} (quote : Option Quote) (position : Option Position) :
      Step symbol config world .idle
        { world with view := { world.view with quote := quote, position := position } }

inductive TaskWorld.Reachable (symbol : String) (config : TargetPosConfig) : TaskWorld → Prop
  /-- Other orders may be shown, but no live order of a process before this one, whose ids would be
  given out again. -/
  | initial {view : AccountView} (keyed : view.Keyed)
      (fresh : ∀ orderSeq, view.orders (waitOrderId orderSeq) = none) :
      Reachable symbol config (initial view)
  | step {world world' : TaskWorld} {action : TaskAction}
      (reachable : Reachable symbol config world) (step : Step symbol config world action world') :
      Reachable symbol config world'

namespace TaskWorld

variable (world : TaskWorld)

/-- What of an order may still be filled: all of it until it is shown. -/
def remaining (orderId : String) : Int :=
  match world.view.orders orderId with
  | some order => order.volumeLeft
  | none => ((world.desk.sent orderId).map DesiredOrder.volume).getD 0

def netPosition (world : TaskWorld) : Int :=
  (TargetPosTask.currentPosition world.view).netPosition

/-- What is known of every world the task can be in. -/
structure Sound (world : TaskWorld) : Prop where
  keyed : world.view.Keyed
  shown : ∀ orderSeq, (world.view.orders (waitOrderId orderSeq)).isSome = true →
    (world.desk.sent (waitOrderId orderSeq)).isSome = true
  allocated : ∀ orderId, (world.desk.sent orderId).isSome = true →
    ∃ orderSeq < world.desk.nextOrderSeq, orderId = waitOrderId orderSeq
  counted : world.desk.task.nextRequestSeq = world.requests.length
  target : world.desk.task.targetVolume = world.requests.getLast?

theorem show_keyed {view : AccountView} (key : view.Keyed) (ord : Order) :
    (view.show_ ord).Keyed := by
  intro oid alt shown
  unfold AccountView.show_ at shown
  dsimp only at shown
  by_cases same : oid = ord.orderId
  · subst same
    rw [Function.update_self] at shown
    rw [← some.inj shown]
  · rw [Function.update_of_ne same] at shown
    exact key oid alt shown

variable {world : TaskWorld} {added : List (String × DesiredOrder)} {targetVolume : Int}
  {batch : DesiredBatch}

theorem Sound.show_ (snd : world.Sound) {ord : Order}
    (sent : ∀ orderSeq, waitOrderId orderSeq = ord.orderId →
      (world.desk.sent (waitOrderId orderSeq)).isSome = true) (pos : Option Position) :
    Sound { world with view := { world.view.show_ ord with position := pos } } := by
  refine ⟨show_keyed snd.keyed ord, ?_, snd.allocated, snd.counted, snd.target⟩
  intro orderSeq shown
  unfold AccountView.show_ at shown
  dsimp only at shown ⊢
  by_cases same : waitOrderId orderSeq = ord.orderId
  · exact sent orderSeq same
  · rw [Function.update_of_ne same] at shown
    exact snd.shown orderSeq shown

/-- An order that was shown before. -/
theorem Sound.showAgain (snd : world.Sound) {orderId : String} {old ord : Order}
    (shown : world.view.orders orderId = some old) (same : ord.orderId = old.orderId)
    (pos : Option Position) :
    Sound { world with view := { world.view.show_ ord with position := pos } } := by
  refine snd.show_ (fun orderSeq named => snd.shown orderSeq ?_) pos
  rw [named, same, snd.keyed _ _ shown, shown]
  rfl

theorem Sound.request (snd : world.Sound) {vol : Int} {task : TargetPosTask}
    (acc : world.desk.task.setTargetVolume vol = .ok task) :
    Sound
      { world with
        desk := { world.desk with task := task }
        requests :=
          if world.desk.task.targetVolume = some vol then world.requests
          else world.requests ++ [vol] } := by
  unfold TargetPosTask.setTargetVolume at acc
  split at acc
  · cases acc
  split at acc
  · cases acc
  split at acc
  · rename_i same
    cases acc
    rw [if_pos same]
    exact snd
  · rename_i ne
    cases acc
    rw [if_neg ne]
    refine ⟨snd.keyed, snd.shown, snd.allocated, ?_, ?_⟩
    · dsimp only
      rw [snd.counted, length_append]
      rfl
    · dsimp only
      rw [getLast?_append, getLast?_singleton]
      rfl

theorem Sound.kept (snd : world.Sound) {task : TargetPosTask} (kept : world.desk.task.Kept task) :
    Sound { world with desk := { world.desk with task := task } } :=
  ⟨snd.keyed, snd.shown, snd.allocated, kept.nextRequestSeq.trans snd.counted,
    kept.targetVolume.trans snd.target⟩

theorem Sound.inserted (snd : world.Sound) {desk : TaskDesk}
    (ins : world.desk.Inserted desk added) :
    Sound { world with desk := desk } := by
  have sentIff : ∀ oid, (desk.sent oid).isSome = true →
      oid ∈ added.map Prod.fst ∨ (world.desk.sent oid).isSome = true := by
    intro oid sent
    by_cases new : oid ∈ added.map Prod.fst
    · exact .inl new
    · rw [ins.others oid new] at sent
      exact .inr sent
  refine ⟨snd.keyed, ?_, ?_, ins.nextRequestSeq.trans snd.counted,
    ins.targetVolume.trans snd.target⟩
  · intro orderSeq shown
    by_cases new : waitOrderId orderSeq ∈ added.map Prod.fst
    · obtain ⟨ent, mem, named⟩ := mem_map.mp new
      rw [← named]
      exact isSome_iff_exists.mpr ⟨_, ins.sent ent mem⟩
    · dsimp only
      rw [ins.others _ new]
      exact snd.shown orderSeq shown
  · intro oid sent
    rcases sentIff oid sent with new | old
    · obtain ⟨ent, mem, rfl⟩ := mem_map.mp new
      obtain ⟨orderSeq, -, bnd, nm⟩ := ins.fresh ent mem
      exact ⟨orderSeq, bnd, nm⟩
    · obtain ⟨orderSeq, bnd, nm⟩ := snd.allocated oid old
      exact ⟨orderSeq, Nat.lt_of_lt_of_le bnd ins.counted, nm⟩

theorem Sound.step {symbol : String} {config : TargetPosConfig} {world' : TaskWorld}
    {act : TaskAction} (snd : world.Sound) (step : Step symbol config world act world') :
    world'.Sound := by
  cases step with
  | request acc => exact snd.request acc
  | cancel =>
    refine snd.kept ?_
    unfold TargetPosTask.cancel
    split
    · exact TargetPosTask.Kept.refl _
    · exact ⟨rfl, rfl, List.Subset.refl _⟩
  | update replies =>
    have res : UpdateResult symbol config world.desk world.view _ :=
      TaskDesk.processWaitUpdate_result snd.keyed replies
    generalize world.desk.processWaitUpdate symbol config world.view replies = after at res
    cases res with
    | idle kept => exact snd.kept kept
    | reached kept => exact snd.kept kept
    | submitted kept _ _ _ _ _ ins => exact (snd.kept kept).inserted ins
  | otherOrder =>
    refine ⟨snd.keyed, snd.shown, fun oid sent => ?_, snd.counted, snd.target⟩
    obtain ⟨orderSeq, bnd, nm⟩ := snd.allocated oid sent
    exact ⟨orderSeq, Nat.lt_succ_of_lt bnd, nm⟩
  | materialize sent miss =>
    exact snd.show_ (fun _ named => named ▸ isSome_iff_exists.mpr ⟨_, sent⟩) world.view.position
  | fill shown live pos fits move => exact snd.showAgain shown (by rfl) _
  | finish shown live fin => exact snd.showAgain shown (by rfl) world.view.position
  | market q at_ => exact ⟨snd.keyed, snd.shown, snd.allocated, snd.counted, snd.target⟩

theorem Reachable.sound {symbol : String} {config : TargetPosConfig}
    (rch : Reachable symbol config world) : world.Sound := by
  induction rch with
  | initial keyed fresh =>
    refine ⟨keyed, fun orderSeq shown => ?_, fun _ => nofun, rfl, rfl⟩
    cases (congrArg Option.isSome (fresh orderSeq)).symm.trans shown
  | step rch step ih => exact ih.step step

/-! ## After a submission -/

/-- Orders under ids that are not given out yet are not shown. -/
theorem Sound.unshown {world : TaskWorld} (snd : world.Sound) {next : Nat}
    {added : List (String × DesiredOrder)}
    (new : ∀ ent ∈ added, ∃ orderSeq, world.desk.nextOrderSeq ≤ orderSeq ∧
      orderSeq < next ∧ ent.1 = waitOrderId orderSeq) :
    ∀ ent ∈ added, world.view.orders ent.1 = none := by
  intro ent mem
  obtain ⟨orderSeq, low, -, nm⟩ := new ent mem
  by_contra shown
  rw [nm] at shown
  obtain ⟨alt, bnd, otherNamed⟩ := snd.allocated _
    (snd.shown orderSeq (isSome_iff_ne_none.mpr shown))
  have same := waitOrderId_injective otherNamed
  omega

end TaskWorld

end Tqsdk
