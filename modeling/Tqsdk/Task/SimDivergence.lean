import Tqsdk.Task.SimAccounting
import Tqsdk.Task.SimHost

/-!
# When the simulated account and its host agree

The simulator applies the orders of a drained queue one after the other, and the host learns of
them in one report at the end.  Every way out before that leaves the applied orders unpublished
and the rest of the queue lost.  The host also infers a lifecycle of its own for each order, and
does not find the rejections of the simulator.
-/

namespace Tqsdk

open List Option OrdMap

/-! ## Records under their keys -/

section Tables

variable {α : Type} {key : α → String} {recs : List α} {tbl : List (String × α)}

theorem storeAll_append (key : α → String) (recs records' : List α) (tbl : List (String × α)) :
    storeAll key (recs ++ records') tbl = storeAll key records' (storeAll key recs tbl) :=
  foldl_append ..

theorem get?_storeAll (key : α → String) (recs : List α) (tbl : List (String × α)) (name : String) :
    get? name (storeAll key recs tbl) = (get? name (storeAll key recs [])).or (get? name tbl) := by
  induction recs using List.reverseRecOn with
  | nil => rfl
  | append_singleton recs rcd ih =>
    rw [storeAll_append, storeAll_append]
    change get? name (OrdMap.insert (key rcd) rcd _) =
      (get? name (OrdMap.insert (key rcd) rcd _)).or _
    rw [get?_insert, get?_insert, ih]
    split
    · rfl
    · rfl

/-- Records that only depend on their keys are all found. -/
theorem get?_storeAll_of_eq {val : String → α} (same : ∀ rec ∈ recs,
    rec = val (key rec)) (name : String) :
    get? name (storeAll key recs tbl) =
      if name ∈ recs.map key then some (val name) else get? name tbl := by
  induction recs using List.reverseRecOn with
  | nil => rfl
  | append_singleton recs rec ih =>
    have last := same rec (by simp)
    have pre := ih fun rec mem => same rec (by simp [mem])
    rw [storeAll_append]
    change get? name (OrdMap.insert (key rec) rec _) = _
    rw [get?_insert, pre]
    by_cases here : name = key rec
    · rw [if_pos here, if_pos (by simp [here]), here, ← last]
    · simp [here]

end Tables

/-! ## The host mirrors the simulator -/

/-- The trade state shows what the simulator shows. -/
structure SimTradeState.Mirrors (trade : SimTradeState) (sim : TqSim) : Prop where
  account : trade.account = some sim.accountSnapshot
  orders : ∀ orderId,
    get? orderId trade.orders = (get? orderId sim.orders).bind SimOrder.snapshot
  trades : ∀ tradeId, get? tradeId trade.trades = get? tradeId sim.trades
  positions : ∀ symbol position, get? symbol trade.positions = some position →
    position = sim.positionSnapshot symbol
  held : ∀ symbol, get? symbol sim.positions ≠ none →
    get? symbol trade.positions ≠ none

/-- The trade state with a report in it, as the simulator wrote the report. -/
def SimTradeState.withReport (trade : SimTradeState) (report : TqSimStepReport) :
    SimTradeState where
  account := report.account.or trade.account
  orders := storeAll SimOrderSnapshot.orderId report.orders trade.orders
  trades := storeAll SimTrade.tradeId report.trades trade.trades
  positions := storeAll SimPosition.symbol report.positions trade.positions

theorem SimTradeState.withReport_extend (trade : SimTradeState) (rep post : TqSimStepReport) :
    trade.withReport (rep.extend post) = (trade.withReport rep).withReport post := by
  unfold withReport TqSimStepReport.extend
  simp only [storeAll_append, Option.or_assoc]

namespace TqSim

/-- What the simulator keeps besides its books. -/
structure Orderly (sim : TqSim) : Prop where
  aliases : OrdMap.Sorted sim.executionSymbolByStrategySymbol
  numbered : ∀ orderId order, get? orderId sim.orders = some order →
    ∃ value, order.snapshot = some value ∧ value.seqno < sim.nextSeq

section Applied

variable {sim sim' : TqSim} {order : SimOrder} {outcome : SimOrderOutcome}

theorem mem_strategySymbolsOf (srt : OrdMap.Sorted sim.executionSymbolByStrategySymbol)
    {sym strat : String} :
    strat ∈ sim.strategySymbolsOf sym ↔
      get? strat sim.executionSymbolByStrategySymbol = some sym := by
  unfold strategySymbolsOf
  rw [List.mem_map]
  constructor
  · rintro ⟨ent, mem, rfl⟩
    obtain ⟨got, same⟩ := mem_filter.mp mem
    have nm := srt.get?_of_mem got
    rwa [of_decide_eq_true same] at nm
  · intro got
    exact ⟨(strat, sym), mem_filter.mpr ⟨mem_of_get? got, by simp⟩, rfl⟩

/-- A position that is kept in another symbol is not touched by a fill. -/
theorem positionSnapshot_fillOrder (sim : TqSim) (order : SimOrder) (px : ℚ) {sym : String}
    (alt : sim.executionSymbolFor sym ≠ order.request.symbol) :
    (sim.fillOrder order px).1.positionSnapshot sym = sim.positionSnapshot sym := by
  have net := sim.fillOrder_net order px (sim.executionSymbolFor sym)
  have average := sim.fillOrder_average order px (sim.executionSymbolFor sym)
  rw [if_neg alt] at net average
  change (sim.fillOrder order px).1.positionSnapshotFor sym (sim.executionSymbolFor sym) =
    sim.positionSnapshotFor sym (sim.executionSymbolFor sym)
  unfold positionSnapshotFor
  rw [net, average]
  rfl

theorem Orderly.storeOrder (orderly : sim.Orderly) (life : OrderLifecycle) (lastMsg : String)
    (stat : Option CommandStatus) :
    (sim.storeOrder order life lastMsg stat).1.Orderly where
  aliases := orderly.aliases
  numbered := by
    intro oid got hit
    have bnd : sim.nextSeq < sim.nextSeq + 1 := Nat.lt_succ_self _
    rw [show (sim.storeOrder order life lastMsg stat).1.orders = OrdMap.insert _ _ _
      from rfl, get?_insert] at hit
    split at hit
    · obtain rfl := some.inj hit
      exact ⟨_, rfl, bnd⟩
    · obtain ⟨val, same, pre⟩ := orderly.numbered oid got hit
      exact ⟨val, same, pre.trans bnd⟩

theorem Orderly.fillOrder (orderly : sim.Orderly) (order : SimOrder) (px : ℚ) :
    (sim.fillOrder order px).1.Orderly where
  aliases := orderly.aliases
  numbered := by
    intro oid got hit
    have bnd : sim.nextSeq < sim.nextSeq + 2 := by omega
    rw [show (sim.fillOrder order px).1.orders = OrdMap.insert _ _ _ from rfl, get?_insert] at hit
    split at hit
    · obtain rfl := some.inj hit
      exact ⟨_, rfl, bnd⟩
    · obtain ⟨val, same, pre⟩ := orderly.numbered oid got hit
      exact ⟨val, same, pre.trans bnd⟩

variable {trade : SimTradeState}

theorem mirrors_storeOrder (mirr : trade.Mirrors sim) (life : OrderLifecycle)
    (lastMsg : String) (stat : Option CommandStatus) :
    (trade.withReport ((sim.storeOrder order life lastMsg stat).1.reportFromOutcomes
      [(sim.storeOrder order life lastMsg stat).2])).Mirrors
      (sim.storeOrder order life lastMsg stat).1 where
  account := rfl
  orders := by
    intro oid
    change get? oid (OrdMap.insert order.request.orderId _ trade.orders) =
      (get? oid (OrdMap.insert order.request.orderId _ sim.orders)).bind _
    rw [get?_insert, get?_insert]
    split
    · rfl
    · exact mirr.orders oid
  trades := mirr.trades
  positions := mirr.positions
  held := mirr.held

/-- The positions that a fill reports: its own and those of the symbols executed in it. -/
theorem Orderly.positionWithAliases_eq (orderly : sim.Orderly) (sym : String) :
    (∀ at_ ∈ sim.positionWithAliases (sim.positionSnapshot sym),
        at_ = sim.positionSnapshot at_.symbol) ∧
      ∀ alt, alt ∈ (sim.positionWithAliases (sim.positionSnapshot sym)).map
          SimPosition.symbol ↔
        alt = sym ∨ get? alt sim.executionSymbolByStrategySymbol = some sym := by
  constructor
  · intro at_ mem
    rcases mem_cons.mp mem with rfl | aliased
    · rfl
    · obtain ⟨strat, strategy, rfl⟩ := mem_map.mp aliased
      have exec : sim.executionSymbolFor strat = sym := by
        unfold executionSymbolFor
        rw [(mem_strategySymbolsOf orderly.aliases).mp strategy]
        rfl
      change sim.positionSnapshotFor strat sym =
        sim.positionSnapshotFor strat (sim.executionSymbolFor strat)
      rw [exec]
  · intro alt
    change alt ∈ sym :: List.map _ (List.map _ (sim.strategySymbolsOf sym)) ↔ _
    rw [List.map_map, mem_cons]
    refine or_congr_right ?_
    rw [← mem_strategySymbolsOf orderly.aliases]
    constructor
    · intro mem
      obtain ⟨strat, strategy, rfl⟩ := mem_map.mp mem
      exact strategy
    · intro strategy
      exact mem_map.mpr ⟨alt, strategy, rfl⟩

theorem mirrors_fillOrder (mirr : trade.Mirrors sim) (orderly : sim.Orderly) (px : ℚ) :
    (trade.withReport ((sim.fillOrder order px).1.reportFromOutcomes
      [(sim.fillOrder order px).2])).Mirrors (sim.fillOrder order px).1 := by
  obtain ⟨vals, names⟩ := (orderly.fillOrder order px).positionWithAliases_eq order.request.symbol
  have repd : ((sim.fillOrder order px).1.reportFromOutcomes
      [(sim.fillOrder order px).2]).positions =
      (sim.fillOrder order px).1.positionWithAliases
        ((sim.fillOrder order px).1.positionSnapshot order.request.symbol) :=
    append_nil _
  have hit : ∀ sym, get? sym (trade.withReport
      ((sim.fillOrder order px).1.reportFromOutcomes [(sim.fillOrder order px).2])).positions =
      if sym = order.request.symbol ∨
          get? sym sim.executionSymbolByStrategySymbol = some order.request.symbol then
        some ((sim.fillOrder order px).1.positionSnapshot sym)
      else get? sym trade.positions := by
    intro sym
    change get? sym (storeAll _ ((sim.fillOrder order px).1.reportFromOutcomes
      [(sim.fillOrder order px).2]).positions _) = _
    rw [repd, get?_storeAll_of_eq vals]
    simp only [names sym]
    rfl
  refine ⟨rfl, fun oid => ?_, fun tradeId => ?_, fun sym at_ got => ?_, fun sym held => ?_⟩
  · change get? oid (OrdMap.insert order.request.orderId _ trade.orders) =
      (get? oid (OrdMap.insert order.request.orderId _ sim.orders)).bind _
    rw [get?_insert, get?_insert]
    split
    · rfl
    · exact mirr.orders oid
  · change get? tradeId (OrdMap.insert _ _ trade.trades) =
      get? tradeId (OrdMap.insert _ _ sim.trades)
    rw [get?_insert, get?_insert]
    split
    · rfl
    · exact mirr.trades tradeId
  · rw [hit] at got
    split at got
    · exact (some.inj got).symm
    · rename_i sep
      rw [positionSnapshot_fillOrder sim order px ?_]
      · exact mirr.positions sym at_ got
      · intro exec
        unfold executionSymbolFor at exec
        cases strategy : get? sym sim.executionSymbolByStrategySymbol with
        | none =>
          rw [strategy] at exec
          exact sep (.inl exec)
        | some symbol' =>
          rw [strategy] at exec
          exact sep (.inr (strategy.trans (congrArg some exec)))
  · rw [hit]
    split
    · exact nofun
    · rename_i sep
      refine mirr.held sym ?_
      change get? sym (OrdMap.insert order.request.symbol _ sim.positions) ≠ none at held
      rwa [get?_insert, if_neg fun same => sep (.inl same)] at held

/-- Publishing the outcome of an order keeps the host a mirror. -/
theorem mirrors_applyOrder (mirr : trade.Mirrors sim) (orderly : sim.Orderly)
    (app : sim.applyOrder order = .ok (sim', outcome)) :
    (trade.withReport (sim'.reportFromOutcomes [outcome])).Mirrors sim' ∧ sim'.Orderly := by
  rcases applyOrder_cases order app with
    ⟨life, lastMsg, stat, -, -, stored⟩ | ⟨-, -, px, -, filled⟩
  · obtain rfl : sim' = (sim.storeOrder order life lastMsg stat).1 := congrArg Prod.fst stored
    obtain rfl : outcome = (sim.storeOrder order life lastMsg stat).2 := congrArg Prod.snd stored
    exact ⟨mirrors_storeOrder mirr life lastMsg stat, orderly.storeOrder life lastMsg stat⟩
  · obtain rfl : sim' = (sim.fillOrder order px).1 := congrArg Prod.fst filled
    obtain rfl : outcome = (sim.fillOrder order px).2 := congrArg Prod.snd filled
    exact ⟨mirrors_fillOrder mirr orderly px, orderly.fillOrder order px⟩

theorem tradePrice_of_fill {req : TqSimOrderRequest}
    (fills : sim.matchDecision req = .fill) : ∃ px, sim.tradePrice req = .ok px := by
  unfold matchDecision at fills
  unfold tradePrice
  cases kind : req.priceType with
  | limit =>
    rw [kind] at fills
    cases limit : req.limitPrice with
    | some px => exact ⟨px, rfl⟩
    | none =>
      rw [limit] at fills
      cases quote : get? req.symbol sim.quotes with
      | none => simp [quote] at fills
      | some quote' => simp [quote] at fills
  | any =>
    rw [kind] at fills
    cases priced : sim.counterpartyPrice req with
    | some px => exact ⟨px, rfl⟩
    | none => simp [priced] at fills
  | best =>
    rw [kind] at fills
    cases priced : sim.counterpartyPrice req with
    | some px => exact ⟨px, rfl⟩
    | none => simp [priced] at fills
  | fiveLevel =>
    rw [kind] at fills
    cases priced : sim.counterpartyPrice req with
    | some px => exact ⟨px, rfl⟩
    | none => simp [priced] at fills

theorem applyOrder_ok (sim : TqSim) (order : SimOrder) :
    ∃ sim' outcome, sim.applyOrder order = .ok (sim', outcome) := by
  unfold applyOrder
  dsimp only
  split
  · exact ⟨_, _, rfl⟩
  split
  · rename_i fills
    obtain ⟨px, priced⟩ := tradePrice_of_fill fills
    rw [priced]
    exact ⟨_, _, rfl⟩
  · exact ⟨_, _, rfl⟩
  · exact ⟨_, _, rfl⟩

/-- What an applied order leaves: its outcome is stored under a new number, with a terminal status
for the command if the order is dead. -/
theorem applyOrder_stores (app : sim.applyOrder order = .ok (sim', outcome)) :
    sim'.executionSymbolByStrategySymbol = sim.executionSymbolByStrategySymbol ∧
      sim'.accountId = sim.accountId ∧ sim.nextSeq ≤ sim'.nextSeq ∧
      outcome.order.seqno = sim.nextSeq ∧
      (∀ stat, outcome.commandStatus = some stat → stat.isTerminal = true) ∧
      ∃ got : SimOrder, got.snapshot = some outcome.order ∧
        got.commandId = order.commandId ∧
        (got.alive = false → ∃ stat, outcome.commandStatus = some stat ∧ stat.isTerminal = true) ∧
        sim'.orders = OrdMap.insert order.request.orderId got sim.orders ∧
        outcome.order.orderId = order.request.orderId := by
  rcases applyOrder_cases order app with
    ⟨life, lastMsg, stat, -, ends, got⟩ | ⟨-, -, px, -, filled⟩
  · obtain rfl : sim' = (sim.storeOrder order life lastMsg stat).1 := congrArg Prod.fst got
    obtain rfl : outcome = (sim.storeOrder order life lastMsg stat).2 := congrArg Prod.snd got
    refine ⟨rfl, rfl, Nat.le_succ _, rfl, fun given hit => ?_, { order with
      alive := decide (life = .accepted)
      snapshot := some (sim.storeOrder order life lastMsg stat).2.order },
      rfl, rfl, fun dead => ?_, rfl, rfl⟩
    · change stat = some given at hit
      rcases ends with ⟨-, none_⟩ | ⟨final, some_, term⟩
      · rw [none_] at hit
        cases hit
      · rw [some_] at hit
        obtain rfl := some.inj hit
        exact term
    · rcases ends with ⟨alive, -⟩ | final
      · rw [decide_eq_true alive] at dead
        cases dead
      · exact final
  · obtain rfl : sim' = (sim.fillOrder order px).1 := congrArg Prod.fst filled
    obtain rfl : outcome = (sim.fillOrder order px).2 := congrArg Prod.snd filled
    exact ⟨rfl, rfl, Nat.le_add_right _ _, rfl, fun given hit => by cases hit; rfl, { order with
      alive := false, snapshot := some (sim.fillOrder order px).2.order },
      rfl, rfl, fun _ => ⟨_, rfl, rfl⟩, rfl, rfl⟩

end Applied

end TqSim

/-! ## Recording statuses -/

namespace SimHost

/-- A status was recorded, and nothing else happened to the host. -/
structure Recorded (host host' : SimHost) (commandId : CommandId) (status : CommandStatus) :
    Prop where
  moved : CommandRecords.Moved host.runtime.records host'.runtime.records commandId status
  recorded : host'.runtime.recorded = host.runtime.recorded ++ [(commandId, status)]
  outbound : host'.runtime.outbound = host.runtime.outbound
  trade : host'.trade = host.trade

variable {host : SimHost} (consistent : host.runtime.records.Consistent) {commandId : CommandId}
  {cur : CommandStatus} (seen : host.runtime.records.ledger.status commandId = some cur)

include consistent seen

theorem recordCommandStatus_ok {stat : CommandStatus} (mvs : cur.canMoveTo stat = true)
    (det : Option Value) :
    ∃ host', host.recordCommandStatus commandId stat det = .ok host' ∧
      host.Recorded host' commandId stat := by
  obtain ⟨sto, com, gone, comd, -, -⟩ := consistent.record_committed seen mvs det .replayStep
  rcases consistent.record_spec comd with ⟨-, none⟩ | ⟨move, -, -⟩
  · cases none
  unfold recordCommandStatus
  rw [comd]
  exact ⟨_, rfl, move, rfl, rfl, rfl⟩

theorem recordCommandStatus_blocked {stat : CommandStatus}
    (stop : cur.canMoveTo stat = false) (det : Option Value) :
    ∃ error, host.recordCommandStatus commandId stat det = .error error := by
  have got : ∃ dom, host.runtime.records.ledger.domain commandId = some dom := by
    refine ne_none_iff_exists'.mp fun miss => ?_
    rw [(consistent.statuses commandId).mpr miss] at seen
    cases seen
  obtain ⟨dom, got⟩ := got
  unfold recordCommandStatus
  rw [CommandRecords.recordCommandStatus_known got seen, validateCommandStatusTransition,
    if_neg (by rw [stop]; exact Bool.false_ne_true)]
  exact ⟨_, rfl⟩

end SimHost

/-! ## The orders of a queue -/

/-- The order that a request asks for, in the symbol that it is executed in. -/
def orderOf (sim : TqSim) (envelope : OutboundEnvelope OutboundRequest) :
    Option (CommandId × TqSimOrderRequest) :=
  match TqSimOrderRequest.fromOutbound envelope.request with
  | .ok (some request) => some (envelope.commandId, sim.resolveOrderRequest request)
  | _ => none

def ordersOf (sim : TqSim) (queue : List (OutboundEnvelope OutboundRequest)) :
    List (CommandId × TqSimOrderRequest) :=
  queue.filterMap (orderOf sim)

def guardCall (order : CommandId × TqSimOrderRequest) : String × TradeOffset :=
  (order.2.symbol, order.2.offset)

/-- The order is applied to what the orders before it have left. -/
def applyNext (state : TqSim × List SimOrderOutcome) (order : CommandId × TqSimOrderRequest) :
    TqSim × List SimOrderOutcome :=
  match state.1.applyOrder ⟨order.2, some order.1, true, state.1.currentTimeNs, none⟩ with
  | .ok (sim, outcome) => (sim, state.2 ++ [outcome])
  | .error _ => state

def applyAll (sim : TqSim) (orders : List (CommandId × TqSimOrderRequest)) :
    TqSim × List SimOrderOutcome :=
  orders.foldl applyNext (sim, [])

/-- The guard lets all the calls pass, one after the other. -/
def Guard.Accepts (guard : Guard) (calls : List (String × TradeOffset)) : Prop :=
  ∀ made, made ≠ [] → made <+: calls → guard made = none

/-- The commands are different ones, and none of them was touched since it was submitted. -/
def CommandLedger.Queued (ledger : CommandLedger) (commands : List CommandId) : Prop :=
  commands.Nodup ∧ ∀ commandId ∈ commands, ledger.status commandId = some .queued

theorem Guard.Accepts.concat {guard : Guard} {cls : List (String × TradeOffset)}
    {call : String × TradeOffset} (accepts : guard.Accepts cls)
    (last : guard (cls ++ [call]) = none) : guard.Accepts (cls ++ [call]) := by
  intro made some_ taken
  rcases prefix_concat_iff.mp taken with all | earlier
  · rw [all]
    exact last
  · exact accepts made some_ earlier

theorem isInsertOrder_of_some {req : OutboundRequest} {order : TqSimOrderRequest}
    (dec : TqSimOrderRequest.fromOutbound req = .ok (some order)) :
    req.isInsertOrder = true := by
  cases req with
  | other => cases dec
  | text pld =>
    cases pld with
    | none => cases dec
    | some pld =>
      by_contra other
      simp [TqSimOrderRequest.fromOutbound, OutboundRequest.isInsertOrder] at dec other
      simp [other] at dec
  | binary pld =>
    cases pld with
    | none => cases dec
    | some pld =>
      by_contra other
      simp [TqSimOrderRequest.fromOutbound, OutboundRequest.isInsertOrder] at dec other
      simp [other] at dec

theorem isInsertOrder_of_none {req : OutboundRequest}
    (dec : TqSimOrderRequest.fromOutbound req = .ok none) :
    req.isInsertOrder = false := by
  have payloads : ∀ pld : Value, (if asksForOrder pld then
      (TqSimOrderRequest.fromPayload pld).map some else .ok none) = .ok none →
      asksForOrder pld = false := by
    intro pld none
    by_contra asks
    rw [if_pos (by simpa using asks)] at none
    cases read : TqSimOrderRequest.fromPayload pld with
    | error error => simp [read, Except.map] at none
    | ok order => simp [read, Except.map] at none
  cases req with
  | other => rfl
  | text pld =>
    cases pld with
    | none => cases dec
    | some pld => exact payloads pld dec
  | binary pld =>
    cases pld with
    | none => cases dec
    | some pld => exact payloads pld dec

namespace SimBatch

section Turns

variable {disp : TaskError → String} {guard : Guard} {batch : SimBatch}
  {dispatch : OutboundDispatch OutboundRequest} {cur : CommandStatus}

/-- What one turn can do with a dispatch of a command that the ledger knows. -/
theorem turn_cases (consistent : batch.host.runtime.records.Consistent)
    (seen : batch.host.runtime.records.ledger.status dispatch.commandId = some cur) :
    (TqSimOrderRequest.fromOutbound dispatch.request = .ok none ∧
        turn disp guard batch dispatch = (batch, none)) ∨
      (∃ error, TqSimOrderRequest.fromOutbound dispatch.request = .error error ∧
        turn disp guard batch dispatch = (batch, some error)) ∨
      ∃ req order cls, TqSimOrderRequest.fromOutbound dispatch.request = .ok (some req) ∧
        order = batch.sim.resolveOrderRequest req ∧
        cls = batch.calls ++ [(order.symbol, order.offset)] ∧
        ((∃ error host, guard cls = some error ∧
            batch.host.Recorded host dispatch.commandId .rejected ∧
            turn disp guard batch dispatch =
              ({ batch with calls := cls, host := host }, some error)) ∨
          (∃ error, guard cls = none ∧ cur ≠ .queued ∧
            turn disp guard batch dispatch = ({ batch with calls := cls }, some error)) ∨
          ∃ host sim outcome, guard cls = none ∧ cur = .queued ∧
            batch.host.Recorded host dispatch.commandId .sent ∧
            batch.sim.applyOrder ⟨order, some dispatch.commandId, true, batch.sim.currentTimeNs,
              none⟩ = .ok (sim, outcome) ∧
            turn disp guard batch dispatch =
              ({ batch with
                  calls := cls
                  host := host
                  sim := sim
                  report := batch.report.extend (sim.reportFromOutcomes [outcome])
                  applied := batch.applied ++ [(dispatch, outcome)] }, none)) := by
  have open_ := (consistent.open_ dispatch.commandId cur seen).1
  unfold turn
  cases dec : TqSimOrderRequest.fromOutbound dispatch.request with
  | error error => exact .inr (.inl ⟨error, rfl, rfl⟩)
  | ok decodedOrder =>
    cases decodedOrder with
    | none => exact .inl ⟨rfl, rfl⟩
    | some req =>
      refine .inr (.inr ⟨req, _, _, rfl, rfl, rfl, ?_⟩)
      dsimp only
      cases ans : guard (batch.calls ++ [((batch.sim.resolveOrderRequest req).symbol,
          (batch.sim.resolveOrderRequest req).offset)]) with
      | some error =>
        have mvs : cur.canMoveTo .rejected = true := by
          cases cur <;> revert open_ <;> decide
        obtain ⟨host, note, effect⟩ := SimHost.recordCommandStatus_ok consistent seen
          mvs (some (.object [("reason", .string (disp error))]))
        refine .inl ⟨error, host, rfl, effect, ?_⟩
        dsimp only
        rw [note]
      | none =>
        refine .inr ?_
        by_cases inQ : cur = .queued
        · subst inQ
          obtain ⟨host, note, effect⟩ :=
            SimHost.recordCommandStatus_ok consistent seen
              (by decide : CommandStatus.canMoveTo .queued .sent = true) none
          obtain ⟨sim, outcome, app⟩ := batch.sim.applyOrder_ok
            ⟨batch.sim.resolveOrderRequest req, some dispatch.commandId, true,
              batch.sim.currentTimeNs, none⟩
          refine .inr ⟨host, sim, outcome, rfl, rfl, effect, app, ?_⟩
          dsimp only
          rw [note]
          dsimp only
          rw [app]
        · have stop : cur.canMoveTo .sent = false := by
            cases cur <;> revert open_ inQ <;> decide
          obtain ⟨error, fail⟩ := SimHost.recordCommandStatus_blocked consistent seen stop none
          refine .inl ⟨error, rfl, inQ, ?_⟩
          dsimp only
          rw [fail]

end Turns

/-! ## A run of the loop -/

/-- Where the loop stands after the turns for `taken` went through, from `sim` and `host`; `orders`
are those that were applied. -/
structure Progress (guard : Guard) (sim : TqSim) (host : SimHost)
    (taken : List (OutboundDispatch OutboundRequest))
    (orders : List (CommandId × TqSimOrderRequest)) (batch : SimBatch) : Prop where
  listed : ordersOf sim (taken.map OutboundDispatch.envelope) = orders
  decoded : ∀ dispatch ∈ taken,
    ∃ order, TqSimOrderRequest.fromOutbound dispatch.request = .ok order
  applied : batch.applied.map Prod.fst = taken.filter fun dispatch => dispatch.request.isInsertOrder
  commands : batch.applied.map (fun entry => entry.1.commandId) = orders.map Prod.fst
  calls : batch.calls = orders.map guardCall
  accepted : guard.Accepts batch.calls
  queued : host.runtime.records.ledger.Queued (orders.map Prod.fst)
  state : (batch.sim, batch.applied.map Prod.snd) = applyAll sim orders
  aliases : batch.sim.executionSymbolByStrategySymbol = sim.executionSymbolByStrategySymbol
  reported : batch.report.orders = batch.applied.map fun entry => entry.2.order
  idle : batch.applied = [] → batch.report = {}
  mirrors : (host.trade.withReport batch.report).Mirrors batch.sim
  orderly : batch.sim.Orderly
  numbered : sim.nextSeq ≤ batch.sim.nextSeq
  fresh : batch.applied ≠ [] → ∃ orderId value,
    (get? orderId batch.sim.orders).bind SimOrder.snapshot = some value ∧
      sim.nextSeq ≤ value.seqno
  ends : ∀ entry ∈ batch.terminalStatuses, entry.2.isTerminal = true
  settled : ∀ orderId order commandId, get? orderId batch.sim.orders = some order →
    order.commandId = some commandId → order.alive = false →
    OutboundState.Terminal (host.runtime.recorded ++ batch.terminalStatuses) commandId
  trade : batch.host.trade = host.trade
  outbound : batch.host.runtime.outbound = host.runtime.outbound
  consistent : batch.host.runtime.records.Consistent
  domains : ∀ commandId, batch.host.runtime.records.ledger.domain commandId =
    host.runtime.records.ledger.domain commandId
  statuses : ∀ commandId, batch.host.runtime.records.ledger.status commandId =
    if commandId ∈ orders.map Prod.fst then some .sent
    else host.runtime.records.ledger.status commandId
  recorded : batch.host.runtime.recorded =
    host.runtime.recorded ++ orders.map fun order => (order.1, .sent)

section Progress

variable {disp : TaskError → String} {guard : Guard} {sim : TqSim} {host : SimHost}
  {taken : List (OutboundDispatch OutboundRequest)}
  {orders : List (CommandId × TqSimOrderRequest)} {batch : SimBatch}
  {dispatch : OutboundDispatch OutboundRequest}

theorem ordersOf_concat (sim : TqSim) (taken : List (OutboundDispatch OutboundRequest))
    (dispatch : OutboundDispatch OutboundRequest) :
    ordersOf sim ((taken ++ [dispatch]).map OutboundDispatch.envelope) =
      ordersOf sim (taken.map OutboundDispatch.envelope) ++
        (orderOf sim dispatch.envelope).toList := by
  unfold ordersOf
  rw [map_append, filterMap_append]
  congr 1

section

variable (prog : Progress guard sim host taken orders batch)

include prog

theorem Progress.skip (none_ : TqSimOrderRequest.fromOutbound dispatch.request = .ok none) :
    Progress guard sim host (taken ++ [dispatch]) orders batch where
  __ := prog
  listed := by
    have nothing : orderOf sim dispatch.envelope = none := by
      unfold orderOf
      rw [show dispatch.envelope.request = dispatch.request from rfl, none_]
    rw [ordersOf_concat, nothing, prog.listed]
    exact append_nil _
  decoded := by
    intro post mem
    rcases mem_append.mp mem with pre | here
    · exact prog.decoded post pre
    · rw [mem_singleton.mp here]
      exact ⟨none, none_⟩
  applied := by
    rw [filter_append, filter_cons_of_neg (by rw [isInsertOrder_of_none none_]; decide)]
    exact prog.applied.trans (append_nil _).symm

/-- An order that passes the guard is sent and applied. -/
theorem Progress.apply {req order : TqSimOrderRequest}
    (decoded : TqSimOrderRequest.fromOutbound dispatch.request = .ok (some req))
    (res : order = batch.sim.resolveOrderRequest req)
    (passes : guard (batch.calls ++ [(order.symbol, order.offset)]) = none)
    (queued : batch.host.runtime.records.ledger.status dispatch.commandId = some .queued)
    {host' : SimHost} (sent : batch.host.Recorded host' dispatch.commandId .sent) {sim' : TqSim}
    {outcome : SimOrderOutcome}
    (applies : batch.sim.applyOrder ⟨order, some dispatch.commandId, true,
      batch.sim.currentTimeNs, none⟩ = .ok (sim', outcome)) :
    Progress guard sim host (taken ++ [dispatch]) (orders ++ [(dispatch.commandId, order)])
      { batch with
        calls := batch.calls ++ [(order.symbol, order.offset)]
        host := host'
        sim := sim'
        report := batch.report.extend (sim'.reportFromOutcomes [outcome])
        applied := batch.applied ++ [(dispatch, outcome)] } := by
  have new : dispatch.commandId ∉ orders.map Prod.fst ∧
      host.runtime.records.ledger.status dispatch.commandId = some .queued := by
    rw [prog.statuses] at queued
    split at queued
    · cases queued
    · rename_i fresh
      exact ⟨fresh, queued⟩
  obtain ⟨mirrors, orderly⟩ := TqSim.mirrors_applyOrder prog.mirrors prog.orderly applies
  obtain ⟨aliases, -, grows, num, final, got, snap, own, ends, orders', nm⟩ :=
    TqSim.applyOrder_stores applies
  constructor
  case listed =>
    have here : orderOf sim dispatch.envelope = some (dispatch.commandId, order) := by
      unfold orderOf
      rw [show dispatch.envelope.request = dispatch.request from rfl, decoded, res]
      unfold TqSim.resolveOrderRequest
      rw [prog.aliases]
      rfl
    rw [ordersOf_concat, here, prog.listed]
    rfl
  case decoded =>
    intro post mem
    rcases mem_append.mp mem with pre | here
    · exact prog.decoded post pre
    · rw [mem_singleton.mp here]
      exact ⟨_, decoded⟩
  case applied =>
    rw [map_append, filter_append, prog.applied]
    simp [isInsertOrder_of_some decoded]
  case commands =>
    rw [map_append, prog.commands, map_append]
    rfl
  case calls =>
    rw [prog.calls, map_append]
    rfl
  case accepted => exact prog.accepted.concat passes
  case queued =>
    rw [map_append]
    refine ⟨List.Nodup.append prog.queued.1 (nodup_singleton _) ?_, ?_⟩
    · change List.Disjoint _ [dispatch.commandId]
      rw [disjoint_singleton]
      exact new.1
    · intro commandId mem
      rcases mem_append.mp mem with pre | here
      · exact prog.queued.2 commandId pre
      · rw [mem_singleton.mp here]
        exact new.2
  case state =>
    unfold applyAll
    rw [foldl_append]
    change _ = applyNext (applyAll sim orders) _
    rw [← prog.state]
    unfold applyNext
    dsimp only
    rw [applies, map_append]
    rfl
  case aliases => exact aliases.trans prog.aliases
  case reported =>
    rw [map_append, ← prog.reported]
    rfl
  case idle =>
    intro emp
    exact absurd emp (append_ne_nil_of_right_ne_nil _ (cons_ne_nil _ _))
  case mirrors =>
    rw [SimTradeState.withReport_extend]
    exact mirrors
  case orderly => exact orderly
  case numbered => exact prog.numbered.trans grows
  case fresh =>
    intro _
    refine ⟨order.orderId, outcome.order, ?_, num ▸ prog.numbered⟩
    rw [orders', get?_insert, if_pos rfl]
    exact snap
  case ends =>
    intro ent mem
    unfold terminalStatuses at mem
    rw [filterMap_append] at mem
    rcases mem_append.mp mem with pre | here
    · exact prog.ends ent pre
    · obtain ⟨last, fin, given⟩ := mem_filterMap.mp here
      rw [mem_singleton.mp fin] at given
      obtain ⟨stat, hit, rfl⟩ := map_eq_some_iff.mp given
      exact final stat hit
  case settled =>
    intro oid hit commandId lookup cmdd dead
    rw [orders', get?_insert] at lookup
    unfold terminalStatuses
    rw [filterMap_append, ← append_assoc]
    split at lookup
    · obtain rfl := some.inj lookup
      obtain ⟨stat, given, term⟩ := ends dead
      obtain rfl : dispatch.commandId = commandId := some.inj (own.symm.trans cmdd)
      refine ⟨stat, mem_append_right _ ?_, term⟩
      simp [given]
    · obtain ⟨stat, mem, term⟩ := prog.settled oid hit commandId lookup cmdd dead
      exact ⟨stat, mem_append_left _ mem, term⟩
  case trade => exact sent.trade.trans prog.trade
  case outbound => exact sent.outbound.trans prog.outbound
  case consistent => exact sent.moved.consistent
  case domains =>
    intro commandId
    rw [sent.moved.domain, if_neg fun both => Bool.false_ne_true both.2]
    exact prog.domains commandId
  case statuses =>
    intro commandId
    rw [sent.moved.status, prog.statuses]
    by_cases here : commandId = dispatch.commandId
    · simp [here, CommandStatus.isTerminal]
    · have mems : commandId ∈ (orders ++ [(dispatch.commandId, order)]).map Prod.fst ↔
          commandId ∈ orders.map Prod.fst := by
        rw [map_append, mem_append]
        exact or_iff_left fun last => here (mem_singleton.mp last)
      simp only [mems, if_neg here]
  case recorded =>
    rw [sent.recorded, prog.recorded, map_append, append_assoc]
    rfl

/-- A command of the queue that the ledger knows has a status. -/
theorem Progress.known {commandId : CommandId}
    (seen : host.runtime.records.ledger.domain commandId ≠ none) :
    ∃ cur, batch.host.runtime.records.ledger.status commandId = some cur := by
  rw [← ne_none_iff_exists', Ne, prog.consistent.statuses, prog.domains]
  exact seen

/-- The loop goes through, or it stops at a dispatch after turns that went through. -/
theorem Progress.loop_cases {rest : List (OutboundDispatch OutboundRequest)}
    (seen : ∀ dispatch ∈ rest, host.runtime.records.ledger.domain dispatch.commandId ≠ none) :
    (∃ orders' batch', Progress guard sim host (taken ++ rest) orders' batch' ∧
        loop disp guard rest batch = (batch', none)) ∨
      ∃ past dispatch left orders' rch err batch', rest = past ++ dispatch :: left ∧
        Progress guard sim host (taken ++ past) orders' rch ∧
        turn disp guard rch dispatch = (batch', some err) ∧
        loop disp guard rest batch = (batch', some err) := by
  induction rest generalizing taken orders batch with
  | nil =>
    rw [append_nil]
    exact .inl ⟨orders, batch, prog, rfl⟩
  | cons dispatch rest ih =>
    obtain ⟨cur, stat⟩ := prog.known (seen dispatch mem_cons_self)
    have post : ∀ dispatch ∈ rest,
        host.runtime.records.ledger.domain dispatch.commandId ≠ none :=
      fun dispatch mem => seen dispatch (mem_cons_of_mem _ mem)
    -- Each turn either carries the progress on or is the one that stops.
    have goesOn : ∀ {orders' batch'},
        Progress guard sim host (taken ++ [dispatch]) orders' batch' →
        turn disp guard batch dispatch = (batch', none) →
        (∃ orders' batch'', Progress guard sim host (taken ++ dispatch :: rest) orders' batch'' ∧
            loop disp guard (dispatch :: rest) batch = (batch'', none)) ∨
          ∃ past stopped left orders' rch err batch'',
            dispatch :: rest = past ++ stopped :: left ∧
            Progress guard sim host (taken ++ past) orders' rch ∧
            turn disp guard rch stopped = (batch'', some err) ∧
            loop disp guard (dispatch :: rest) batch = (batch'', some err) := by
      intro orders' batch' next turned
      have all : loop disp guard (dispatch :: rest) batch =
          loop disp guard rest batch' := by
        rw [loop, turned]
      rw [all]
      rcases ih next post with ⟨orders'', batch'', done, looped⟩ |
        ⟨past, stopped, left, orders'', rch, err, batch'', split_, upTo, stops, looped⟩
      · rw [append_assoc] at done
        exact .inl ⟨orders'', batch'', done, looped⟩
      · rw [append_assoc] at upTo
        exact .inr ⟨dispatch :: past, stopped, left, orders'', rch, err, batch'',
          congrArg _ split_, upTo, stops, looped⟩
    have stopsHere : ∀ {err batch'}, turn disp guard batch dispatch = (batch', some err) →
        ∃ past stopped left orders' rch err batch'',
          dispatch :: rest = past ++ stopped :: left ∧
          Progress guard sim host (taken ++ past) orders' rch ∧
          turn disp guard rch stopped = (batch'', some err) ∧
          loop disp guard (dispatch :: rest) batch = (batch'', some err) := by
      intro err batch' turned
      refine ⟨[], dispatch, rest, orders, batch, err, batch', rfl, ?_, turned, ?_⟩
      · rw [append_nil]
        exact prog
      · rw [loop, turned]
    rcases turn_cases prog.consistent stat with
      ⟨none_, turned⟩ | ⟨err, -, turned⟩ | ⟨req, order, calls, decoded, resolved, rfl, ways⟩
    · exact goesOn (prog.skip none_) turned
    · exact .inr (stopsHere turned)
    · rcases ways with ⟨err, host', -, -, turned⟩ | ⟨err, -, -, turned⟩ |
        ⟨host', sim', outcome, passes, rfl, sent, applies, turned⟩
      · exact .inr (stopsHere turned)
      · exact .inr (stopsHere turned)
      · exact goesOn (prog.apply decoded resolved passes stat sent applies) turned

end

end Progress

end SimBatch

end Tqsdk
