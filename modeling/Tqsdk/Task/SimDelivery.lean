import Tqsdk.Task.SimDivergence

/-!
# What a batch of orders delivers

`process_host_orders_with_guard` as a whole: for which queues and guards the host agrees with the
simulator afterwards and no order of the queue is lost.
-/

namespace Tqsdk

open List Option OrdMap

/-! ## Publishing a report -/

section Tables

variable {α : Type} {key : α → String}

theorem sorted_storeAll (key : α → String) (recs : List α) {tbl : List (String × α)}
    (srt : OrdMap.Sorted tbl) : OrdMap.Sorted (storeAll key recs tbl) := by
  induction recs generalizing tbl with
  | nil => exact srt
  | cons rcd recs ih => exact ih (srt.insert _ _)

theorem named_storeAll (key : α → String) (recs : List α) {tbl : List (String × α)}
    (named : ∀ ent ∈ tbl, key ent.2 = ent.1) :
    ∀ ent ∈ storeAll key recs tbl, key ent.2 = ent.1 := by
  induction recs generalizing tbl with
  | nil => exact named
  | cons rcd recs ih =>
    refine ih fun ent mem => ?_
    rcases mem_insert mem with rfl | old
    · rfl
    · exact named ent old

/-- The entries of a table, changed under their keys and stored over another table. -/
theorem get?_storeAll_entries {ents : List (String × α)} (sorted : OrdMap.Sorted ents)
    (named : ∀ ent ∈ ents, key ent.2 = ent.1) {change : α → α}
    (keeps : ∀ record, key (change record) = key record) (table : List (String × α))
    (name : String) :
    get? name (storeAll key (ents.map fun ent => change ent.2) table) =
      ((get? name ents).map change).or (get? name table) := by
  induction ents generalizing table with
  | nil => rfl
  | cons ent ents ih =>
    obtain ⟨hd, record⟩ := ent
    have here : key (change record) = hd := (keeps record).trans (named (hd, record) mem_cons_self)
    have post := ih sorted.tail (fun ent mem => named ent (mem_cons_of_mem _ mem))
      (OrdMap.insert (key (change record)) (change record) table)
    change get? name (storeAll key _ (OrdMap.insert (key (change record)) _ table)) = _
    rw [post, get?_insert, here, get?_cons]
    by_cases same : name = hd
    · rw [if_pos same, if_pos same, same, sorted.get?_head_tail]
      rfl
    · rw [if_neg same, if_neg same]

end Tables

namespace SimOrderSnapshot

variable (order : SimOrderSnapshot)

/-- The order as the host keeps it. -/
def normalized : SimOrderSnapshot :=
  match order.inferredLifecycle with
  | none => order
  | some next => { order with lifecycle := next }

theorem normalized_orderId : order.normalized.orderId = order.orderId := by
  unfold normalized
  split
  · rfl
  · rfl

/-- The host finds the lifecycle that the simulator gave the order, and lets the order follow the
one that it has under the same id. -/
structure Publishable (trade : SimTradeState) (order : SimOrderSnapshot) : Prop where
  agrees : order.inferredLifecycle = some order.lifecycle
  follows : ∀ current, get? order.orderId trade.orders = some current →
    current.lifecycle.canTransitionTo order.lifecycle = true

/-- A lifecycle is inferred of every order of the simulator. -/
theorem inferredLifecycle_isSome : order.inferredLifecycle.isSome = true := by
  unfold inferredLifecycle OrderLifecycle.infer
  rw [if_neg (by simp)]
  dsimp only [map_some]
  repeat' split
  all_goals rfl

theorem normalized_eq_iff :
    order.normalized = order ↔ order.inferredLifecycle = some order.lifecycle := by
  obtain ⟨next, inf⟩ := isSome_iff_exists.mp order.inferredLifecycle_isSome
  unfold normalized
  rw [inf]
  constructor
  · intro same
    exact congrArg (fun order => some order.lifecycle) same
  · intro same
    rw [some.inj same]

end SimOrderSnapshot

namespace SimTradeState

variable {trade : SimTradeState} {acct : AccountId}

/-- The order may be stored next to the one that the host has under its id. -/
def Allows (trade : SimTradeState) (order : SimOrderSnapshot) : Prop :=
  ∀ next, order.inferredLifecycle = some next → ∀ current,
    get? order.orderId trade.orders = some current →
    current.lifecycle.canTransitionTo next = true

theorem normalizeOrder_ok {order : SimOrderSnapshot} (allows : trade.Allows order) :
    trade.normalizeOrder acct order = .ok order.normalized := by
  unfold normalizeOrder SimOrderSnapshot.normalized
  cases inf : order.inferredLifecycle with
  | none => rfl
  | some next =>
    cases got : get? order.orderId trade.orders with
    | none => rfl
    | some current =>
      dsimp only
      rw [if_pos (allows next inf current got)]

theorem normalizeOrder_error {order : SimOrderSnapshot} (stop : ¬trade.Allows order) :
    ∃ error, trade.normalizeOrder acct order = .error error := by
  unfold Allows at stop
  simp only [not_forall] at stop
  obtain ⟨next, inf, current, got, no⟩ := stop
  unfold normalizeOrder
  rw [inf, got]
  dsimp only
  rw [if_neg no]
  exact ⟨_, rfl⟩

theorem normalizeOrders_ok {ents : List (String × SimOrderSnapshot)}
    (allows : ∀ ent ∈ ents, trade.Allows ent.2) :
    trade.normalizeOrders acct ents = .ok (ents.map fun ent => ent.2.normalized) := by
  induction ents with
  | nil => rfl
  | cons ent ents ih =>
    rw [normalizeOrders, normalizeOrder_ok (allows ent mem_cons_self),
      ih fun ent mem => allows ent (mem_cons_of_mem _ mem)]
    rfl

theorem normalizeOrders_error {ents : List (String × SimOrderSnapshot)}
    (stop : ∃ ent ∈ ents, ¬trade.Allows ent.2) :
    ∃ error, trade.normalizeOrders acct ents = .error error := by
  induction ents with
  | nil =>
    obtain ⟨ent, member, -⟩ := stop
    cases member
  | cons ent ents ih =>
    rw [normalizeOrders]
    by_cases here : trade.Allows ent.2
    · obtain ⟨post, member, no⟩ := stop
      rcases mem_cons.mp member with rfl | member
      · exact absurd here no
      · obtain ⟨error, fail⟩ := ih ⟨post, member, no⟩
        rw [normalizeOrder_ok here, fail]
        exact ⟨error, rfl⟩
    · obtain ⟨error, fail⟩ : ∃ error, trade.normalizeOrder acct ent.2 = .error error :=
        normalizeOrder_error here
      rw [fail]
      exact ⟨error, rfl⟩

/-- The orders of a report, the last one of each id. -/
def standing (report : TqSimStepReport) : List (String × SimOrderSnapshot) :=
  storeAll SimOrderSnapshot.orderId report.orders []

variable {report : TqSimStepReport}

theorem mem_standing {ent : String × SimOrderSnapshot} :
    ent ∈ standing report ↔ get? ent.1 (standing report) = some ent.2 :=
  ⟨(sorted_storeAll _ _ sorted_nil).get?_of_mem, mem_of_get?⟩

theorem ingestTradeReport_empty (empty : report.isEmpty = true) :
    trade.ingestTradeReport acct report = .ok trade := by
  unfold ingestTradeReport
  rw [if_pos empty]

/-- A report that is let in changes what `withReport` changes, up to the lifecycles. -/
theorem ingestTradeReport_ok (trade : SimTradeState) (acct : AccountId)
    (full : report.isEmpty = false) (allows : ∀ ent ∈ standing report, trade.Allows ent.2) :
    ∃ trade', trade.ingestTradeReport acct report = .ok trade' ∧
      trade'.account = (trade.withReport report).account ∧
      trade'.trades = (trade.withReport report).trades ∧
      trade'.positions = (trade.withReport report).positions ∧
      ∀ oid, get? oid trade'.orders =
        ((get? oid (standing report)).map SimOrderSnapshot.normalized).or
          (get? oid trade.orders) := by
  have passed : trade.normalizeOrders acct
      (storeAll SimOrderSnapshot.orderId report.orders []) =
      .ok ((standing report).map fun ent => ent.2.normalized) := normalizeOrders_ok allows
  unfold ingestTradeReport
  rw [if_neg (by rw [full]; exact Bool.false_ne_true), passed]
  refine ⟨_, rfl, rfl, rfl, rfl, ?_⟩
  exact get?_storeAll_entries (sorted_storeAll _ _ sorted_nil) (named_storeAll _ _ (fun _ mem =>
    absurd mem not_mem_nil)) SimOrderSnapshot.normalized_orderId trade.orders

theorem ingestTradeReport_error (full : report.isEmpty = false)
    (stop : ∃ ent ∈ standing report, ¬trade.Allows ent.2) :
    ∃ error, trade.ingestTradeReport acct report = .error error := by
  obtain ⟨error, fail⟩ : ∃ error, trade.normalizeOrders acct
      (storeAll SimOrderSnapshot.orderId report.orders []) = .error error :=
    normalizeOrders_error stop
  unfold ingestTradeReport
  rw [if_neg (by rw [full]; exact Bool.false_ne_true), fail]
  exact ⟨_, rfl⟩

/-- The host mirrors the simulator after a report exactly when it keeps every order of it as it
is. -/
theorem mirrors_iff {trade' : SimTradeState} {report : TqSimStepReport} {sim : TqSim}
    (mirrors : (trade.withReport report).Mirrors sim)
    (acc : trade'.account = (trade.withReport report).account)
    (tds : trade'.trades = (trade.withReport report).trades)
    (posns : trade'.positions = (trade.withReport report).positions)
    (orders : ∀ oid, get? oid trade'.orders =
      ((get? oid (standing report)).map SimOrderSnapshot.normalized).or (get? oid trade.orders)) :
    trade'.Mirrors sim ↔ ∀ ent ∈ standing report, ent.2.normalized = ent.2 := by
  have pre : ∀ oid, (get? oid sim.orders).bind SimOrder.snapshot =
      (get? oid (standing report)).or (get? oid trade.orders) :=
    fun oid => (mirrors.orders oid).symm.trans (get?_storeAll _ _ _ _)
  constructor
  · intro mirrors' ent mem
    have hit := mem_standing.mp mem
    have same := (mirrors'.orders ent.1).trans (pre ent.1)
    rw [orders, hit] at same
    exact some.inj same
  · intro hold
    refine ⟨acc.trans mirrors.account, fun oid => ?_, fun tradeId => ?_,
      fun sym at_ got => ?_, fun sym held => ?_⟩
    · rw [pre, orders]
      cases hit : get? oid (standing report) with
      | none => rfl
      | some order =>
        have same := hold (oid, order) (mem_standing.mpr hit)
        exact congrArg some same
    · rw [tds]
      exact mirrors.trades tradeId
    · rw [posns] at got
      exact mirrors.positions sym at_ got
    · rw [posns]
      exact mirrors.held sym held

end SimTradeState

/-! ## The statuses at the end -/

theorem SimHost.recordAll_ok (host : SimHost) {stats : List (CommandId × CommandStatus)}
    (consistent : host.runtime.records.Consistent) (nd : (stats.map Prod.fst).Nodup)
    (sent : ∀ ent ∈ stats, host.runtime.records.ledger.status ent.1 = some .sent)
    (ends : ∀ ent ∈ stats, ent.2.isTerminal = true) :
    ∃ host', SimHost.recordAll stats host = (host', none) ∧ host'.trade = host.trade ∧
      host'.runtime.recorded = host.runtime.recorded ++ stats := by
  induction stats generalizing host with
  | nil => exact ⟨host, rfl, rfl, (append_nil _).symm⟩
  | cons ent stats ih =>
    obtain ⟨cid, stat⟩ := ent
    rw [map_cons, nodup_cons] at nd
    have mvs : CommandStatus.canMoveTo .sent stat = true := by
      have term : stat.isTerminal = true := ends (cid, stat) mem_cons_self
      cases stat <;> revert term <;> decide
    obtain ⟨next, note, effect⟩ := SimHost.recordCommandStatus_ok consistent
      (sent (cid, stat) mem_cons_self) mvs none
    have sentLater : ∀ ent ∈ stats,
        next.runtime.records.ledger.status ent.1 = some .sent := by
      intro ent mem
      have alt : ent.1 ≠ cid := by
        rintro rfl
        exact nd.1 (mem_map.mpr ⟨ent, mem, rfl⟩)
      rw [effect.moved.status, if_neg alt]
      exact sent ent (mem_cons_of_mem _ mem)
    obtain ⟨host', done, trade, all⟩ := ih next effect.moved.consistent nd.2 sentLater
      fun ent mem => ends ent (mem_cons_of_mem _ mem)
    refine ⟨host', ?_, trade.trans effect.trade, ?_⟩
    · rw [recordAll, note]
      exact done
    · rw [all, effect.recorded, append_assoc]
      rfl

/-! ## The batch as a whole -/

namespace TqSim

/-- The host shows what the simulator shows, and every command of a finished order is finished. -/
structure Agrees (sim : TqSim) (host : SimHost) : Prop where
  mirrors : host.trade.Mirrors sim
  settled : ∀ orderId order commandId, get? orderId sim.orders = some order →
    order.commandId = some commandId → order.alive = false →
    OutboundState.Terminal host.runtime.recorded commandId

/-- Simulator and host agree, and the records of the runtime are in order: a finished command has
left the ledger. -/
structure Prepared (sim : TqSim) (host : SimHost) : Prop extends Agrees sim host where
  orderly : sim.Orderly
  consistent : host.runtime.records.Consistent
  closed : ∀ commandId, OutboundState.Terminal host.runtime.recorded commandId →
    host.runtime.records.ledger.domain commandId = none

/-- A command that the ledger knows was not rejected. -/
theorem Prepared.not_rejected {sim : TqSim} {host : SimHost} (prepared : Prepared sim host)
    {cid : CommandId} (known : host.runtime.records.ledger.domain cid ≠ none) :
    (cid, CommandStatus.rejected) ∉ host.runtime.recorded :=
  fun bad => known (prepared.closed cid ⟨_, bad, rfl⟩)

/-- What the call is to bring about, from the host that it is given: agreement, and an answer to
every order of the queue. -/
structure Delivered (host : SimHost) (result : SimBatch) : Prop where
  agrees : Agrees result.sim result.host
  answered : ∀ envelope ∈ host.runtime.outbound, envelope.request.isInsertOrder = true →
    (∃ entry ∈ result.applied, entry.1.envelope = envelope) ∨
      (envelope.commandId, .rejected) ∈ result.host.runtime.recorded ∨
      envelope ∈ result.host.runtime.outbound

/-- The guard refuses the first order of the queue, and the other ones belong to the same
command. -/
def RefusedAlone (guard : Guard) (sim : TqSim) (queue : List (OutboundEnvelope OutboundRequest)) :
    Prop :=
  ∃ passed refused left order, queue = passed ++ refused :: left ∧
    (∀ envelope ∈ passed, TqSimOrderRequest.fromOutbound envelope.request = .ok none) ∧
    orderOf sim refused = some order ∧ guard [guardCall order] ≠ none ∧
    ∀ envelope ∈ left, envelope.request.isInsertOrder = true →
      envelope.commandId = refused.commandId

/-- Every request of the queue can be read, every order passes the guard under a command that was
not touched yet, and the host keeps the orders as the simulator leaves them. -/
structure AllPass (guard : Guard) (sim : TqSim) (host : SimHost) : Prop where
  decoded : ∀ envelope ∈ host.runtime.outbound,
    ∃ order, TqSimOrderRequest.fromOutbound envelope.request = .ok order
  accepted : guard.Accepts ((ordersOf sim host.runtime.outbound).map guardCall)
  queued : host.runtime.records.ledger.Queued ((ordersOf sim host.runtime.outbound).map Prod.fst)
  publishable : ∀ orderId order, get? orderId (storeAll SimOrderSnapshot.orderId
      ((applyAll sim (ordersOf sim host.runtime.outbound)).2.map SimOrderOutcome.order) []) =
      some order → order.Publishable host.trade

/-- When the call does what it is to do.  Without orders in the queue there is nothing to do.  A
queue that holds a command the ledger does not know is lost, and all its orders must have been
rejected before.  Otherwise either the guard refuses the only order, or all goes through. -/
def Deliverable (guard : Guard) (sim : TqSim) (host : SimHost) : Prop :=
  (∀ envelope ∈ host.runtime.outbound, envelope.request.isInsertOrder = false) ∨
    (∃ envelope ∈ host.runtime.outbound,
        host.runtime.records.ledger.domain envelope.commandId = none) ∧
      (∀ envelope ∈ host.runtime.outbound, envelope.request.isInsertOrder = true →
        (envelope.commandId, .rejected) ∈ host.runtime.recorded) ∨
    (∀ envelope ∈ host.runtime.outbound,
        host.runtime.records.ledger.domain envelope.commandId ≠ none) ∧
      (RefusedAlone guard sim host.runtime.outbound ∨ AllPass guard sim host)

/-! ### Reading the queue -/

/-- A queue with a command that the ledger does not know is lost. -/
theorem drain_error {ldg : CommandLedger} {queue : List (OutboundEnvelope OutboundRequest)}
    (unknown : ∃ env ∈ queue, ldg.domain env.commandId = none) :
    ∃ error, ldg.drain queue = .error error := by
  induction queue with
  | nil =>
    obtain ⟨env, member, -⟩ := unknown
    cases member
  | cons env queue ih =>
    rw [CommandLedger.drain, CommandLedger.dispatch]
    cases here : ldg.domain env.commandId with
    | none => exact ⟨_, rfl⟩
    | some dom =>
      obtain ⟨post, member, miss⟩ := unknown
      rcases mem_cons.mp member with rfl | member
      · rw [here] at miss
        cases miss
      · obtain ⟨error, fail⟩ := ih ⟨post, member, miss⟩
        rw [fail]
        exact ⟨error, rfl⟩

/-- There is one place where a list leaves a property for the first time. -/
theorem first_unique {α : Type} (hld : α → Prop) {before before' after after' : List α}
    {first first' : α} (same : before ++ first :: after = before' ++ first' :: after')
    (held : ∀ a ∈ before, hld a) (held' : ∀ a ∈ before', hld a) (fails : ¬hld first)
    (fails' : ¬hld first') : before = before' ∧ first = first' ∧ after = after' := by
  induction before generalizing before' with
  | nil =>
    cases before' with
    | nil =>
      obtain ⟨rfl, rfl⟩ := List.cons.inj same
      exact ⟨rfl, rfl, rfl⟩
    | cons a before' =>
      obtain ⟨rfl, -⟩ := List.cons.inj same
      exact absurd (held' first mem_cons_self) fails
  | cons a before ih =>
    cases before' with
    | nil =>
      obtain ⟨rfl, -⟩ := List.cons.inj same
      exact absurd (held a mem_cons_self) fails'
    | cons a' before' =>
      obtain ⟨rfl, rest⟩ := List.cons.inj same
      obtain ⟨rfl, first, after⟩ := ih rest (fun a mem => held a (mem_cons_of_mem _ mem)) (fun a mem
        => held' a (mem_cons_of_mem _ mem))
      exact ⟨rfl, first, after⟩

theorem orderOf_some {sim : TqSim} {env : OutboundEnvelope OutboundRequest}
    {order : CommandId × TqSimOrderRequest} (hit : orderOf sim env = some order) :
    ∃ req, TqSimOrderRequest.fromOutbound env.request = .ok (some req) ∧
      order = (env.commandId, sim.resolveOrderRequest req) := by
  unfold orderOf at hit
  split at hit
  · rename_i req dec
    exact ⟨req, dec, (some.inj hit).symm⟩
  · cases hit

end TqSim

namespace SimBatch

theorem ordersOf_head {sim : TqSim} {queue pre post : List (OutboundEnvelope OutboundRequest)}
    {hd : OutboundEnvelope OutboundRequest} {order : CommandId × TqSimOrderRequest}
    (all : queue = pre ++ hd :: post)
    (alts : ∀ env ∈ pre, TqSimOrderRequest.fromOutbound env.request = .ok none)
    (hit : orderOf sim hd = some order) :
    ordersOf sim queue = order :: ordersOf sim post := by
  have none_ : pre.filterMap (orderOf sim) = [] := by
    refine filterMap_eq_nil_iff.mpr fun env mem => ?_
    unfold orderOf
    rw [alts env mem]
  unfold ordersOf
  rw [all, filterMap_append, filterMap_cons_some hit, none_]
  rfl

section Batch

variable {guard : Guard} {sim : TqSim} {host : SimHost}
  {took : List (OutboundDispatch OutboundRequest)}
  {orders : List (CommandId × TqSimOrderRequest)} {batch : SimBatch}

section

variable (prog : Progress guard sim host took orders batch)

include prog

/-- Nothing was applied as long as no order was met. -/
theorem Progress.none_taken (idle : batch.applied = []) : ∀ sent_ ∈ took,
      TqSimOrderRequest.fromOutbound sent_.request = .ok none := by
  have filtered := prog.applied
  rw [idle, map_nil] at filtered
  intro sent_ mem
  obtain ⟨order, dec⟩ := prog.decoded sent_ mem
  cases order with
  | none => exact dec
  | some req =>
    have insert := isInsertOrder_of_some dec
    have seen : sent_ ∈ took.filter fun sent_ => sent_.request.isInsertOrder :=
      mem_filter.mpr ⟨mem, insert⟩
    rw [← filtered] at seen
    cases seen

theorem Progress.no_orders (idle : batch.applied = []) : orders = [] := by
  rw [← prog.listed]
  refine filterMap_eq_nil_iff.mpr fun env mem => ?_
  obtain ⟨sent_, isTaken, rfl⟩ := mem_map.mp mem
  unfold orderOf
  rw [show sent_.envelope.request = sent_.request from rfl, prog.none_taken idle sent_ isTaken]

/-- What was applied and is not published is missing in the host. -/
theorem Progress.not_mirrors (mirr : host.trade.Mirrors sim) (orderly : sim.Orderly)
    (some_ : batch.applied ≠ []) :
    ¬host.trade.Mirrors batch.sim := by
  intro still
  obtain ⟨oid, value, hit, late⟩ := prog.fresh some_
  have shown := (mirr.orders oid).symm.trans (still.orders oid)
  rw [hit] at shown
  obtain ⟨order, got, snap⟩ := bind_eq_some_iff.mp shown
  obtain ⟨value', same, early⟩ := orderly.numbered oid order got
  rw [snap] at same
  obtain rfl := some.inj same
  omega

theorem Progress.answered {env : OutboundEnvelope OutboundRequest}
    (mem : env ∈ took.map OutboundDispatch.envelope) (insert : env.request.isInsertOrder = true) :
    ∃ ent ∈ batch.applied, ent.1.envelope = env := by
  obtain ⟨sent_, isTaken, rfl⟩ := mem_map.mp mem
  have seen : sent_ ∈ batch.applied.map Prod.fst := by
    rw [prog.applied]
    exact mem_filter.mpr ⟨isTaken, insert⟩
  obtain ⟨ent, app, rfl⟩ := mem_map.mp seen
  exact ⟨ent, app, rfl⟩

end

theorem progress_start (prepared : TqSim.Prepared sim host) :
    Progress guard sim host [] [] { sim := sim, host := host } where
  listed := rfl
  decoded := fun _ mem => absurd mem not_mem_nil
  applied := rfl
  commands := rfl
  calls := rfl
  accepted := fun made some_ took => absurd (prefix_nil.mp took) some_
  queued := ⟨nodup_nil, fun _ mem => absurd mem not_mem_nil⟩
  state := rfl
  aliases := rfl
  reported := rfl
  idle := fun _ => rfl
  mirrors := prepared.mirrors
  orderly := prepared.orderly
  numbered := Nat.le_refl _
  fresh := fun some_ => absurd rfl some_
  ends := fun _ mem => absurd mem not_mem_nil
  settled := by
    intro oid order cid got cmdd dead
    rw [show terminalStatuses { sim := sim, host := host } = [] from rfl, append_nil]
    exact prepared.settled oid order cid got cmdd dead
  trade := rfl
  outbound := rfl
  consistent := prepared.consistent
  domains := fun _ => rfl
  statuses := by
    intro cid
    rw [if_neg (by simp)]
  recorded := (append_nil _).symm

end Batch

/-! ### A loop that goes through -/

section Through

variable {guard : Guard} {sim : TqSim} {host : SimHost}
  {dispatches : List (OutboundDispatch OutboundRequest)}
  {orders : List (CommandId × TqSimOrderRequest)} {batch : SimBatch}
  (prog : Progress guard sim host.drained dispatches orders batch)
  (queue : dispatches.map OutboundDispatch.envelope = host.runtime.outbound)

include prog queue

theorem Progress.delivered_idle (idle : batch.applied = []) :
    TqSim.Delivered host batch.publish.1 := by
  have report := prog.idle idle
  have stats : batch.terminalStatuses = [] := by
    unfold terminalStatuses
    rw [idle]
    rfl
  have mirr := prog.mirrors
  have done := prog.settled
  have note := prog.recorded
  rw [prog.no_orders idle, map_nil, append_nil] at note
  rw [stats, append_nil] at done
  rw [report] at mirr
  have pub : batch.publish.1 = { batch with
      host := { batch.host with trade := batch.host.trade } } := by
    unfold publish
    rw [SimTradeState.ingestTradeReport_empty (by rw [report]; rfl), stats]
    rfl
  rw [pub]
  refine ⟨⟨?_, ?_⟩, ?_⟩
  · change batch.host.trade.Mirrors batch.sim
    rw [prog.trade]
    exact mirr
  · intro oid order cid got cmdd dead
    change OutboundState.Terminal batch.host.runtime.recorded cid
    rw [note]
    exact done oid order cid got cmdd dead
  · intro env mem insert
    rw [← queue] at mem
    obtain ⟨ent, app, -⟩ := prog.answered mem insert
    rw [idle] at app
    cases app

/-- The orders that stand at the end are those of the report. -/
theorem Progress.standing_eq :
    storeAll SimOrderSnapshot.orderId
        ((applyAll sim (ordersOf sim host.runtime.outbound)).2.map SimOrderOutcome.order) [] =
      SimTradeState.standing batch.report := by
  unfold SimTradeState.standing
  rw [prog.reported, ← queue, prog.listed, ← prog.state, List.map_map]
  rfl

/-- Once orders were applied, all depends on how the host keeps them. -/
theorem Progress.deliverable_iff (known : ∀ env ∈ host.runtime.outbound,
      host.runtime.records.ledger.domain env.commandId ≠ none) (some_ : batch.applied ≠ []) :
    TqSim.Deliverable guard sim host ↔
      ∀ ent ∈ SimTradeState.standing batch.report, ent.2.Publishable host.trade := by
  constructor
  · rintro (noOrder | ⟨⟨env, mem, miss⟩, -⟩ | ⟨-, alone | passes⟩)
    · obtain ⟨ent, mem⟩ := exists_mem_of_ne_nil _ some_
      have seen : ent.1 ∈ batch.applied.map Prod.fst := mem_map_of_mem mem
      rw [prog.applied] at seen
      obtain ⟨isTaken, insert⟩ := mem_filter.mp seen
      have que : ent.1.envelope ∈ host.runtime.outbound := queue ▸ mem_map_of_mem isTaken
      have alt : ent.1.request.isInsertOrder = false := noOrder _ que
      rw [insert] at alt
      cases alt
    · exact absurd miss (known env mem)
    · -- The guard let the first order pass.
      obtain ⟨passed, no, left, order, all, alts, hd, refuses, -⟩ := alone
      have head := ordersOf_head all alts hd
      have acc := prog.accepted
      rw [prog.calls, ← prog.listed, queue, head] at acc
      exact absurd (acc [guardCall order] (cons_ne_nil _ _) ⟨_, rfl⟩) refuses
    · intro ent mem
      have publishable := passes.publishable ent.1 ent.2
      rw [prog.standing_eq queue] at publishable
      exact publishable (SimTradeState.mem_standing.mp mem)
  · intro publishable
    refine .inr (.inr ⟨known, .inr ⟨?_, ?_, ?_, ?_⟩⟩)
    · intro env mem
      rw [← queue] at mem
      obtain ⟨sent_, isTaken, rfl⟩ := mem_map.mp mem
      exact prog.decoded sent_ isTaken
    · rw [← queue, prog.listed, ← prog.calls]
      exact prog.accepted
    · rw [← queue, prog.listed]
      exact prog.queued
    · intro oid order hit
      rw [prog.standing_eq queue] at hit
      exact publishable (oid, order) (SimTradeState.mem_standing.mpr hit)

end Through

section Published

variable {guard : Guard} {sim : TqSim} {host : SimHost}
  {dispatches : List (OutboundDispatch OutboundRequest)}
  {orders : List (CommandId × TqSimOrderRequest)} {batch : SimBatch}

theorem Progress.full (prog : Progress guard sim host dispatches orders batch)
    (some_ : batch.applied ≠ []) : batch.report.isEmpty = false := by
  have ne : batch.report.orders.isEmpty = false := by
    rw [prog.reported]
    cases app : batch.applied with
    | nil => exact absurd app some_
    | cons ent ents => rfl
  unfold TqSimStepReport.isEmpty
  rw [ne, Bool.and_false, Bool.false_and, Bool.false_and]

theorem terminalStatuses_sublist (batch : SimBatch) :
    (batch.terminalStatuses.map Prod.fst).Sublist
      (batch.applied.map fun ent => ent.1.commandId) := by
  unfold terminalStatuses
  induction batch.applied with
  | nil => exact .slnil
  | cons ent ents ih =>
    rw [filterMap_cons]
    cases ent.2.commandStatus with
    | none => exact ih.cons _
    | some stat => exact ih.cons_cons _

/-- The commands of the applied orders wait for their last status. -/
theorem Progress.sent_all (prog : Progress guard sim host dispatches orders batch) :
    (batch.terminalStatuses.map Prod.fst).Nodup ∧ ∀ ent ∈ batch.terminalStatuses,
      batch.host.runtime.records.ledger.status ent.1 = some .sent := by
  have sublist := batch.terminalStatuses_sublist
  rw [prog.commands] at sublist
  refine ⟨sublist.nodup prog.queued.1, fun ent mem => ?_⟩
  rw [prog.statuses, if_pos (sublist.subset (mem_map_of_mem mem))]

/-- The host keeps the orders of a loop that went through, or it refuses the report. -/
theorem Progress.delivered_iff (prog : Progress guard sim host.drained dispatches orders batch)
    (prepared : TqSim.Prepared sim host)
    (queue : dispatches.map OutboundDispatch.envelope = host.runtime.outbound)
    (some_ : batch.applied ≠ []) :
    TqSim.Delivered host batch.publish.1 ↔
      ∀ ent ∈ SimTradeState.standing batch.report, ent.2.Publishable host.trade := by
  have full := prog.full some_
  have trade : batch.host.trade = host.trade := prog.trade
  by_cases may : ∀ ent ∈ SimTradeState.standing batch.report, host.trade.Allows ent.2
  · obtain ⟨trade', ing, acc, tds, posns, got⟩ :=
      host.trade.ingestTradeReport_ok batch.sim.accountId full may
    obtain ⟨nd, sent⟩ := prog.sent_all
    obtain ⟨host', done, kept, note⟩ := SimHost.recordAll_ok { batch.host with trade := trade' }
      prog.consistent nd sent prog.ends
    have pub : batch.publish.1 = { batch with host := host' } := by
      unfold publish
      rw [trade, ing]
      dsimp only
      rw [done]
    rw [pub]
    have mirr := SimTradeState.mirrors_iff prog.mirrors acc tds posns got
    constructor
    · intro delivered ent mem
      have shown : host'.trade.Mirrors batch.sim := delivered.agrees.mirrors
      rw [kept] at shown
      have agr := ent.2.normalized_eq_iff.mp (mirr.mp shown ent mem)
      exact ⟨agr, fun current hit => may ent mem _ agr current hit⟩
    · intro publishable
      refine ⟨⟨?_, ?_⟩, ?_⟩
      · change host'.trade.Mirrors batch.sim
        rw [kept]
        exact mirr.mpr fun ent mem => ent.2.normalized_eq_iff.mpr (publishable ent mem).agrees
      · intro oid order cid hit cmdd dead
        change OutboundState.Terminal host'.runtime.recorded cid
        obtain ⟨stat, mem, term⟩ := prog.settled oid order cid hit cmdd dead
        refine ⟨stat, ?_, term⟩
        rw [note, show ({ batch.host with trade := trade' } : SimHost).runtime.recorded =
          batch.host.runtime.recorded from rfl, prog.recorded]
        rcases mem_append.mp mem with old | new
        · exact mem_append_left _ (mem_append_left _ old)
        · exact mem_append_right _ new
      · intro env mem insert
        rw [← queue] at mem
        exact .inl (prog.answered mem insert)
  · constructor
    · intro delivered
      obtain ⟨error, fail⟩ : ∃ error, host.trade.ingestTradeReport batch.sim.accountId
          batch.report = .error error := by
        simp only [not_forall] at may
        obtain ⟨ent, mem, stop⟩ := may
        exact SimTradeState.ingestTradeReport_error full ⟨ent, mem, stop⟩
      have pub : batch.publish.1 = batch := by
        unfold publish
        rw [trade, fail]
      have shown := delivered.agrees.mirrors
      rw [pub, trade] at shown
      exact absurd shown (prog.not_mirrors prepared.mirrors prepared.orderly some_)
    · intro publishable
      refine absurd (fun ent mem next inf current hit => ?_) may
      have nxt := (publishable ent mem).follows current hit
      rw [(publishable ent mem).agrees] at inf
      rwa [some.inj inf] at nxt

end Published

/-! ### A loop that stops -/

section Stopped

variable {display : TaskError → String} {guard : Guard} {sim : TqSim} {host : SimHost}
  {passed left : List (OutboundDispatch OutboundRequest)}
  {sent_ : OutboundDispatch OutboundRequest}
  {orders : List (CommandId × TqSimOrderRequest)} {reached batch : SimBatch} {error : TaskError}

section

variable {current : CommandStatus} (consistent : reached.host.runtime.records.Consistent)
  (known : reached.host.runtime.records.ledger.status sent_.commandId = some current)
  (stops : turn display guard reached sent_ = (batch, some error))

include consistent known stops

theorem turn_stops :
    (∃ why, TqSimOrderRequest.fromOutbound sent_.request = .error why ∧
        batch = reached) ∨
      ∃ req, TqSimOrderRequest.fromOutbound sent_.request = .ok (some req) ∧
        ((∃ host cls, guard (reached.calls ++
              [guardCall (sent_.commandId, reached.sim.resolveOrderRequest req)]) ≠ none ∧
            reached.host.Recorded host sent_.commandId .rejected ∧
            batch = { reached with calls := cls, host := host }) ∨
          ∃ cls, guard (reached.calls ++
              [guardCall (sent_.commandId, reached.sim.resolveOrderRequest req)]) = none ∧
            current ≠ .queued ∧ batch = { reached with calls := cls }) := by
  rcases turn_cases consistent known with ⟨-, turn⟩ | ⟨why, bad, turn⟩ |
    ⟨req, order, cls, decoded, rfl, rfl, ways⟩
  · rw [turn] at stops
    cases stops
  · rw [turn] at stops
    exact .inl ⟨why, bad, (congrArg Prod.fst stops).symm⟩
  · rcases ways with ⟨why, host, refuses, note, turn⟩ | ⟨why, passes, touched, turn⟩ |
      ⟨host, sim, out, -, -, -, -, turn⟩
    · rw [turn] at stops
      refine .inr ⟨req, decoded, .inl ⟨host, _, ?_, note, (congrArg Prod.fst stops).symm⟩⟩
      change guard (reached.calls ++ [(_, _)]) ≠ none
      rw [refuses]
      exact nofun
    · rw [turn] at stops
      exact .inr ⟨req, decoded, .inr ⟨_, passes, touched, (congrArg Prod.fst stops).symm⟩⟩
    · rw [turn] at stops
      cases congrArg Prod.snd stops

/-- A turn changes neither the simulator nor the published state when it stops. -/
theorem turn_stops_keeps :
    batch.sim = reached.sim ∧ batch.host.trade = reached.host.trade ∧
      batch.applied = reached.applied ∧
      batch.host.runtime.outbound = reached.host.runtime.outbound ∧
      ∀ ent ∈ reached.host.runtime.recorded, ent ∈ batch.host.runtime.recorded := by
  rcases turn_stops consistent known stops with ⟨-, -, rfl⟩ |
    ⟨-, -, ⟨host, calls, -, recorded, rfl⟩ | ⟨calls, -, -, rfl⟩⟩
  · exact ⟨rfl, rfl, rfl, rfl, fun _ mem => mem⟩
  · refine ⟨rfl, recorded.trade, rfl, recorded.outbound, fun ent mem => ?_⟩
    change ent ∈ host.runtime.recorded
    rw [recorded.recorded]
    exact mem_append_left _ mem
  · exact ⟨rfl, rfl, rfl, rfl, fun _ mem => mem⟩

end

variable (prog : Progress guard sim host.drained passed orders reached)
  (prepared : TqSim.Prepared sim host)
  (queue : (passed ++ sent_ :: left).map OutboundDispatch.envelope = host.runtime.outbound)
  (known : ∀ envelope ∈ host.runtime.outbound,
    host.runtime.records.ledger.domain envelope.commandId ≠ none)
  (stops : turn display guard reached sent_ = (batch, some error))

include prog queue

omit queue in
theorem Progress.orderOf_next {req : TqSimOrderRequest}
    (dec : TqSimOrderRequest.fromOutbound sent_.request = .ok (some req)) :
    orderOf sim sent_.envelope = some (sent_.commandId, reached.sim.resolveOrderRequest req) := by
  unfold orderOf
  rw [show sent_.envelope.request = sent_.request from rfl, dec]
  unfold TqSim.resolveOrderRequest
  rw [prog.aliases]
  rfl

theorem Progress.queue_orders {req : TqSimOrderRequest}
    (dec : TqSimOrderRequest.fromOutbound sent_.request = .ok (some req)) :
    ordersOf sim host.runtime.outbound = orders ++
      (sent_.commandId, reached.sim.resolveOrderRequest req) ::
        ordersOf sim (left.map OutboundDispatch.envelope) := by
  rw [← queue, ← prog.listed]
  unfold ordersOf
  rw [map_append, filterMap_append, map_cons, filterMap_cons_some (prog.orderOf_next dec)]

/-- The order that a guard refuses alone is the one at which the loop stops. -/
theorem Progress.refusedAlone_iff (idle : reached.applied = [])
    (alt : TqSimOrderRequest.fromOutbound sent_.request ≠ .ok none) :
    TqSim.RefusedAlone guard sim host.runtime.outbound ↔
      ∃ order, orderOf sim sent_.envelope = some order ∧ guard [guardCall order] ≠ none ∧
        ∀ env ∈ left.map OutboundDispatch.envelope,
          env.request.isInsertOrder = true → env.commandId = sent_.commandId := by
  have simple : ∀ env ∈ passed.map OutboundDispatch.envelope,
      TqSimOrderRequest.fromOutbound env.request = .ok none := by
    intro env mem
    obtain ⟨skipped, isTaken, rfl⟩ := mem_map.mp mem
    exact prog.none_taken idle skipped isTaken
  have split_ : passed.map OutboundDispatch.envelope ++
      sent_.envelope :: left.map OutboundDispatch.envelope = host.runtime.outbound := by
    rw [← queue, map_append, map_cons]
  constructor
  · rintro ⟨pre, no, post, order, all, alts, hd, refuses, same⟩
    obtain ⟨req, dec, -⟩ := TqSim.orderOf_some hd
    have isOrder : ¬TqSimOrderRequest.fromOutbound no.request = .ok none := by
      rw [dec]
      exact nofun
    obtain ⟨-, rfl, rfl⟩ := TqSim.first_unique (fun env => TqSimOrderRequest.fromOutbound
      env.request = .ok none) (split_.trans all) simple alts alt isOrder
    exact ⟨order, hd, refuses, same⟩
  · rintro ⟨order, hd, refuses, same⟩
    exact ⟨_, _, _, order, split_.symm, simple, hd, refuses, same⟩

include known

/-- The command at which the loop stands has a status. -/
theorem Progress.status_next : sent_.envelope ∈ host.runtime.outbound ∧ ∃ current,
    reached.host.runtime.records.ledger.status sent_.commandId = some current := by
  have mem : sent_.envelope ∈ host.runtime.outbound := by
    rw [← queue]
    exact mem_map_of_mem (mem_append_right _ mem_cons_self)
  exact ⟨mem, prog.known (known sent_.envelope mem)⟩

include stops

/-- A queue whose orders all pass does not stop the loop. -/
theorem Progress.not_allPass : ¬TqSim.AllPass guard sim host := by
  intro passes
  obtain ⟨mem, current, stat⟩ := prog.status_next queue known
  obtain ⟨order, reads⟩ := passes.decoded sent_.envelope mem
  rcases turn_stops prog.consistent stat stops with ⟨why, bad, -⟩ |
    ⟨req, decoded, ⟨host', calls, refuses, -, -⟩ | ⟨calls, -, touched, -⟩⟩
  · rw [show sent_.envelope.request = sent_.request from rfl, bad] at reads
    cases reads
  · have acc := passes.accepted
    rw [prog.queue_orders queue decoded, map_append, ← prog.calls, map_cons] at acc
    refine refuses (acc _ ?_ ⟨_, append_assoc ..⟩)
    exact append_ne_nil_of_right_ne_nil _ (cons_ne_nil _ _)
  · have que := passes.queued
    rw [prog.queue_orders queue decoded, map_append, map_cons] at que
    have new : sent_.commandId ∉ orders.map Prod.fst := fun pre =>
      disjoint_of_nodup_append que.1 pre mem_cons_self
    rw [prog.statuses, if_neg new] at stat
    have hd := que.2 sent_.commandId (mem_append_right _ mem_cons_self)
    exact touched (some.inj (stat.symm.trans hd))

/-- With an order applied before, the guard has not refused the first one. -/
theorem Progress.not_deliverable (some_ : reached.applied ≠ []) :
    ¬TqSim.Deliverable guard sim host := by
  rintro (noOrder | ⟨⟨env, mem, miss⟩, -⟩ | ⟨-, alone | passes⟩)
  · obtain ⟨ent, mem⟩ := exists_mem_of_ne_nil _ some_
    have seen : ent.1 ∈ reached.applied.map Prod.fst := mem_map_of_mem mem
    rw [prog.applied] at seen
    obtain ⟨isTaken, insert⟩ := mem_filter.mp seen
    have que : ent.1.envelope ∈ host.runtime.outbound := by
      rw [← queue, map_append]
      exact mem_append_left _ (mem_map_of_mem isTaken)
    have alt : ent.1.request.isInsertOrder = false := noOrder _ que
    rw [insert] at alt
    cases alt
  · exact known env mem miss
  · obtain ⟨pre, no, post, order, all, alts, hd, refuses, -⟩ := alone
    have head := ordersOf_head all alts hd
    obtain ⟨most, seen⟩ : ∃ most, ordersOf sim host.runtime.outbound = orders ++ most := by
      rw [← queue, map_append, ← prog.listed]
      exact ⟨_, filterMap_append⟩
    cases orders with
    | nil =>
      have commands := prog.commands
      rw [map_nil, map_eq_nil_iff] at commands
      exact some_ commands
    | cons firstOrder rest =>
      rw [head, cons_append] at seen
      obtain rfl := (List.cons.inj seen).1
      have acc := prog.accepted
      rw [prog.calls] at acc
      exact refuses (acc [guardCall order] (cons_ne_nil _ _) ⟨_, rfl⟩)
  · exact prog.not_allPass queue known stops passes

include prepared

/-- Before anything was applied, agreement stands and only the answers are open. -/
theorem Progress.delivered_iff_answered (idle : reached.applied = []) :
    TqSim.Delivered host batch ↔
      ∀ env ∈ host.runtime.outbound, env.request.isInsertOrder = true →
        (env.commandId, .rejected) ∈ batch.host.runtime.recorded := by
  obtain ⟨-, current, stat⟩ := prog.status_next queue known
  obtain ⟨sameSim, sameTrade, sameApplied, sameOutbound, kept⟩ :=
    turn_stops_keeps prog.consistent stat stops
  have note := prog.recorded
  rw [prog.no_orders idle, map_nil, append_nil] at note
  have st : reached.sim = sim := by
    have all := prog.state
    rw [prog.no_orders idle] at all
    exact congrArg Prod.fst all
  constructor
  · intro sent env que insert
    rcases sent.answered env que insert with ⟨ent, app, -⟩ | rejected | still
    · rw [sameApplied, idle] at app
      cases app
    · exact rejected
    · rw [sameOutbound, prog.outbound] at still
      cases still
  · intro ans
    refine ⟨⟨?_, ?_⟩, fun env que insert => .inr (.inl (ans env que insert))⟩
    · rw [sameSim, sameTrade, prog.trade, st]
      exact prepared.mirrors
    · intro oid order cid got cmdd dead
      rw [sameSim, st] at got
      obtain ⟨fin, seen, term⟩ := prepared.settled oid order cid got cmdd dead
      refine ⟨fin, kept _ ?_, term⟩
      rw [note]
      exact seen

/-- The loop stops before it has applied anything, or what it applied is missing in the host. -/
theorem Progress.stopped_iff :
    TqSim.Delivered host batch ↔ TqSim.Deliverable guard sim host := by
  obtain ⟨mem, current, stat⟩ := prog.status_next queue known
  by_cases idle : reached.applied = []
  case neg =>
    refine iff_of_false (fun sent => ?_) (prog.not_deliverable queue known stops idle)
    obtain ⟨sameSim, sameTrade, -⟩ := turn_stops_keeps prog.consistent stat stops
    have shown := sent.agrees.mirrors
    rw [sameSim, sameTrade, prog.trade] at shown
    exact prog.not_mirrors prepared.mirrors prepared.orderly idle shown
  case pos =>
    have note : reached.host.runtime.recorded = host.runtime.recorded := by
      have all := prog.recorded
      rw [prog.no_orders idle, map_nil, append_nil] at all
      exact all
    have calls : reached.calls = [] := by
      rw [prog.calls, prog.no_orders idle]
      rfl
    have new : ∀ {env}, env ∈ host.runtime.outbound →
        (env.commandId, CommandStatus.rejected) ∉ host.runtime.recorded :=
      fun mem => prepared.not_rejected (known _ mem)
    have noPass := prog.not_allPass queue known stops
    have allKnown : ¬∃ env ∈ host.runtime.outbound,
        host.runtime.records.ledger.domain env.commandId = none :=
      fun ⟨env, que, miss⟩ => known env que miss
    rw [prog.delivered_iff_answered prepared queue known stops idle]
    have alone := prog.refusedAlone_iff queue idle
    rcases turn_stops prog.consistent stat stops with ⟨why, bad, rfl⟩ | ⟨req, dec, ways⟩
    · -- The request cannot be read: there must not be any order in the queue.
      have alt : TqSimOrderRequest.fromOutbound sent_.request ≠ .ok none := by
        rw [bad]
        exact nofun
      rw [note]
      constructor
      · intro ans
        refine .inl fun env que => ?_
        by_contra insert
        exact new que (ans env que (by simpa using insert))
      · rintro (noOrder | ⟨miss, -⟩ | ⟨-, no | passes⟩)
        · intro env que insert
          rw [noOrder env que] at insert
          cases insert
        · exact absurd miss allKnown
        · obtain ⟨order, hd, -⟩ := (alone alt).mp no
          obtain ⟨req, dec, -⟩ := TqSim.orderOf_some hd
          rw [show sent_.envelope.request = sent_.request from rfl, bad] at dec
          cases dec
        · exact absurd passes noPass
    · have insert : sent_.envelope.request.isInsertOrder = true := isInsertOrder_of_some dec
      have alt : TqSimOrderRequest.fromOutbound sent_.request ≠ .ok none := by
        rw [dec]
        exact nofun
      have here := prog.orderOf_next dec
      rcases ways with ⟨host', calls', refuses, rejects, rfl⟩ | ⟨calls', passes, -, rfl⟩
      · -- The guard refuses the order, and its command is recorded as rejected.
        rw [calls, nil_append] at refuses
        have now : host'.runtime.recorded =
            host.runtime.recorded ++ [(sent_.commandId, .rejected)] := by
          rw [rejects.recorded, note]
        change (∀ env ∈ host.runtime.outbound, env.request.isInsertOrder = true →
          (env.commandId, CommandStatus.rejected) ∈ host'.runtime.recorded) ↔ _
        rw [now]
        constructor
        · intro ans
          refine .inr (.inr ⟨known, .inl ((alone alt).mpr ⟨_, here, refuses, ?_⟩)⟩)
          intro env later isOrder
          have que : env ∈ host.runtime.outbound := by
            rw [← queue, map_append, map_cons]
            exact mem_append_right _ (mem_cons_of_mem _ later)
          rcases mem_append.mp (ans env que isOrder) with pre | last
          · exact absurd pre (new que)
          · exact congrArg Prod.fst (mem_singleton.mp last)
        · rintro (noOrder | ⟨miss, -⟩ | ⟨-, no | passes⟩)
          · rw [noOrder _ mem] at insert
            cases insert
          · exact absurd miss allKnown
          · obtain ⟨order, -, -, same⟩ := (alone alt).mp no
            intro env que isOrder
            refine mem_append_right _ (mem_singleton.mpr ?_)
            rw [← queue, map_append, map_cons] at que
            rcases mem_append.mp que with pre | rest
            · obtain ⟨skipped, isTaken, rfl⟩ := mem_map.mp pre
              have isNone := isInsertOrder_of_none (prog.none_taken idle skipped isTaken)
              rw [show skipped.envelope.request = skipped.request from rfl, isNone] at isOrder
              cases isOrder
            · rcases mem_cons.mp rest with rfl | later
              · rfl
              · rw [same env later isOrder]
          · exact absurd passes noPass
      · -- The command was touched before: its order is lost.
        rw [calls, nil_append] at passes
        refine iff_of_false (fun ans => ?_) ?_
        · have rejected := ans sent_.envelope mem insert
          change _ ∈ reached.host.runtime.recorded at rejected
          rw [note] at rejected
          exact new mem rejected
        · rintro (noOrder | ⟨miss, -⟩ | ⟨-, no | all⟩)
          · rw [noOrder _ mem] at insert
            cases insert
          · exact allKnown miss
          · obtain ⟨order, hd, refuses, -⟩ := (alone alt).mp no
            obtain rfl := some.inj (here.symm.trans hd)
            exact refuses passes
          · exact noPass all

end Stopped

end SimBatch

namespace TqSim

/-- `process_host_orders_with_guard` keeps simulator and host in agreement and loses no order
exactly for the queues and guards that `Deliverable` describes. -/
theorem processHostOrders_delivers_iff (display : TaskError → String) (guard : Guard) (sim : TqSim)
    (host : SimHost) (prepared : Prepared sim host) :
    Delivered host (sim.processHostOrdersWithGuard display guard host).1 ↔
      Deliverable guard sim host := by
  unfold processHostOrdersWithGuard
  by_cases known : ∀ env ∈ host.runtime.outbound,
      host.runtime.records.ledger.domain env.commandId ≠ none
  · obtain ⟨dispatches, drained, queue⟩ := OutboundState.drain_ok known
    rw [drained]
    dsimp only
    have lo : SimBatch.Progress guard sim host.drained [] []
        { sim := sim, host := host.drained } :=
      SimBatch.progress_start ⟨⟨prepared.mirrors, prepared.settled⟩, prepared.orderly,
        prepared.consistent, prepared.closed⟩
    have knownToo : ∀ sent_ ∈ dispatches,
        host.drained.runtime.records.ledger.domain sent_.commandId ≠ none := by
      intro sent_ mem
      refine known sent_.envelope ?_
      rw [← queue]
      exact mem_map_of_mem mem
    rcases lo.loop_cases knownToo with ⟨orders, batch, done, looped⟩ |
      ⟨passed, sent_, left, orders, reached, error, batch, whole, upTo, stops, looped⟩
    · rw [nil_append] at done
      rw [looped]
      dsimp only
      by_cases idle : batch.applied = []
      · refine iff_of_true (done.delivered_idle queue idle) (.inl fun env mem => ?_)
        by_contra insert
        rw [← queue] at mem
        obtain ⟨ent, app, -⟩ := done.answered mem (by simpa using insert)
        rw [idle] at app
        cases app
      · rw [done.delivered_iff prepared queue idle, done.deliverable_iff queue known idle]
    · rw [nil_append] at upTo
      rw [looped]
      exact upTo.stopped_iff prepared (whole ▸ queue) known stops
  · simp only [not_forall, not_not] at known
    obtain ⟨missing, mem, miss⟩ := known
    obtain ⟨error, fail⟩ := drain_error ⟨missing, mem, miss⟩
    rw [fail]
    dsimp only
    constructor
    · intro sent
      refine .inr (.inl ⟨⟨missing, mem, miss⟩, fun env que insert => ?_⟩)
      rcases sent.answered env que insert with ⟨ent, app, -⟩ | rejected | still
      · cases app
      · exact rejected
      · cases still
    · intro deliverable
      refine ⟨⟨prepared.mirrors, prepared.settled⟩, fun env que insert => ?_⟩
      rcases deliverable with noOrder | ⟨-, rejected⟩ | ⟨allKnown, -⟩
      · rw [noOrder env que] at insert
        cases insert
      · exact .inr (.inl (rejected env que insert))
      · exact absurd miss (allKnown missing mem)

section Example

def limitBuy (orderId instrumentId : String) : OutboundRequest :=
  .text (some (.object [("aid", .string "insert_order"), ("direction", .string "BUY"),
    ("exchange_id", .string "SHFE"), ("instrument_id", .string instrumentId),
    ("limit_price", .number (.posInt 95)), ("offset", .string "OPEN"),
    ("order_id", .string orderId), ("price_type", .string "LIMIT"),
    ("volume", .number (.posInt 1))]))

/-- A runtime to which the commands of these requests were submitted. -/
def submitted : List OutboundRequest → OutboundState OutboundRequest
  | [] => .new 1024 0
  | request :: requests =>
    let runtime := submitted requests
    let (commandId, ledger) := runtime.records.ledger.allocate .trade []
    { runtime with
      records := { runtime.records with ledger := ledger }
      outbound := runtime.outbound ++ [⟨commandId, request⟩] }

def emptyAccount : TqSim := withAccount "TQSIM" (.finite 1000)

def hostWith (requests : List OutboundRequest) : SimHost :=
  ⟨submitted requests, { account := some emptyAccount.accountSnapshot }⟩

theorem submitted_consistent (reqs : List OutboundRequest) :
    (submitted reqs).records.Consistent ∧ (submitted reqs).recorded = [] := by
  induction reqs with
  | nil => exact ⟨CommandRecords.withRetention_consistent 1024 0, rfl⟩
  | cons req reqs ih => exact ⟨ih.1.allocate .trade [], ih.2⟩

theorem prepared_hostWith (reqs : List OutboundRequest) :
    Prepared emptyAccount (hostWith reqs) := by
  have noOrders : emptyAccount.orders = [] := rfl
  have noPositions : (hostWith reqs).trade.positions = [] := rfl
  obtain ⟨consistent, unrecorded⟩ := submitted_consistent reqs
  refine ⟨⟨⟨rfl, fun _ => rfl, fun _ => rfl, ?_, fun _ held => absurd rfl held⟩, ?_⟩,
    ⟨List.Pairwise.nil, ?_⟩, consistent, ?_⟩
  · intro sym at_ got
    rw [noPositions] at got
    cases got
  · intro oid order cid got
    rw [noOrders] at got
    cases got
  · intro oid order got
    rw [noOrders] at got
    cases got
  · rintro cid ⟨stat, note, -⟩
    rw [show (hostWith reqs).runtime.recorded = [] from unrecorded] at note
    cases note

/-- A guard for one active instrument. -/
def onlyGold : Guard := fun calls =>
  if calls.getLast? = some ("SHFE.au2512", .open_) then none
  else some (.invalidState "historical universe rejects opening an inactive instrument")

/-- An order is applied, the next one is refused, and the host never learns of the first. -/
theorem processHostOrders_diverges :
    ¬∀ (display : TaskError → String) (guard : Guard) (sim : TqSim) (host : SimHost),
      Prepared sim host → Delivered host (sim.processHostOrdersWithGuard display guard host).1 := by
  intro always
  have sent := always (fun _ => "") onlyGold emptyAccount
    (hostWith [limitBuy "2" "ag2512", limitBuy "1" "au2512"]) (prepared_hostWith _)
  have shown := sent.agrees.mirrors.orders "1"
  revert shown
  decide +kernel

/-- Two orders that the guard lets pass. -/
theorem processHostOrders_delivers_two :
    let host := hostWith [limitBuy "2" "au2512", limitBuy "1" "au2512"]
    Delivered host (emptyAccount.processHostOrdersWithGuard (fun _ => "") onlyGold host).1 := by
  intro host
  refine (processHostOrders_delivers_iff (fun _ => "") onlyGold emptyAccount host
    (prepared_hostWith _)).mpr (.inr (.inr ⟨by decide +kernel, .inr ⟨?_, ?_, ?_, ?_⟩⟩))
  · intro envelope mem
    obtain rfl | rfl := List.mem_pair.mp mem <;> exact ⟨_, rfl⟩
  · have calls : (ordersOf emptyAccount host.runtime.outbound).map guardCall =
        [("SHFE.au2512", .open_), ("SHFE.au2512", .open_)] := by decide +kernel
    intro made some_ upTo
    simp only [calls, prefix_cons_iff, prefix_nil] at upTo
    rcases upTo with rfl | ⟨_, rfl, rfl | ⟨_, rfl, rfl⟩⟩
    · exact absurd rfl some_
    · rfl
    · rfl
  · exact ⟨by decide +kernel, by decide +kernel⟩
  · have alive : ∀ entry ∈ storeAll SimOrderSnapshot.orderId
        ((applyAll emptyAccount (ordersOf emptyAccount host.runtime.outbound)).2.map
          SimOrderOutcome.order) [], entry.2.inferredLifecycle = some entry.2.lifecycle := by
      decide +kernel
    intro orderId order got
    have held := mem_of_get? got
    exact ⟨alive (orderId, order) held, fun _ => nofun⟩

end Example

end TqSim

end Tqsdk
