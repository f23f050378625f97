import Tqsdk.Session.MarketLeases

/-!
# What is sent brings the server to the adapter's sets

Every market request carries a whole list or a whole chart, so what the server ends up with is
the last request for each.  A step keeps the server on its way to the adapter's sets as long as
no request is lost that nothing else repeats, and no recovery re-submits what was given up since.
-/

namespace Tqsdk

open List OrdMap

open Writes

/-! ## Parts of the adapter -/

def MarketAdapter.part (adapter : MarketAdapter) : MarketPart → MarketValue
  | .quotes => .list (joinSymbols adapter.quoteSubscriptions)
  | .tradingStatus => .list (joinSymbols adapter.tradingStatusSubscriptions)
  | .chart chartId =>
    .chart ((get? chartId adapter.charts).map fun chart => buildChartMessage chart false)

def MarketCommand.part : MarketCommand → MarketPart
  | .subscribeQuotes _ | .unsubscribeQuotes _ => .quotes
  | .setChart chart => .chart chart.chartId
  | .cancelChart chartId => .chart chartId
  | .subscribeTradingStatus _ | .unsubscribeTradingStatus _ => .tradingStatus

theorem MarketServer.overwrites :
    Overwrites MarketServer.part MarketServer.receive SessionRequest.writes := by
  intro server req part
  cases req with
  | other => rfl
  | market msg =>
    cases msg with
    | subscribeQuote insList => cases part <;> rfl
    | subscribeTradingStatus insList => cases part <;> rfl
    | peekMessage => rfl
    | setChart req =>
      unfold MarketServer.receive MarketServer.receiveMessage writeAt
      simp only [SessionRequest.writes, DiffProtocolMessage.writes]
      cases part with
      | quotes => split <;> rfl
      | tradingStatus => split <;> rfl
      | chart cht =>
        by_cases same : req.chartId = cht
        · subst same
          by_cases gone : req.insList = "" <;> simp [gone, MarketServer.part]
        · have ne : cht ≠ req.chartId := Ne.symm same
          by_cases gone : req.insList = "" <;>
            simp [gone, same, MarketServer.part, get?_erase_ne ne, get?_insert_ne ne]

theorem lastWrite_requestWithPeek (msg : DiffProtocolMessage) (part : MarketPart) :
    lastWrite SessionRequest.writes part ((requestWithPeek msg).map .market) =
      writeAt SessionRequest.writes part (.market msg) := by
  simp [requestWithPeek, lastWrite_cons, writeAt, SessionRequest.writes, DiffProtocolMessage.writes]

theorem buildChartMessage_chartId (ch : MarketChartCommand) (cancel : Bool) :
    (buildChartMessage ch cancel).chartId = ch.chartId := by
  unfold buildChartMessage
  dsimp only
  split
  · rfl
  · split <;> rfl

theorem buildChartMessage_insList (ch : MarketChartCommand) (cancel : Bool) :
    (buildChartMessage ch cancel).insList = if cancel then "" else joinSymbolList ch.symbols := by
  unfold buildChartMessage
  dsimp only
  split
  · simp
  · split <;> simp

/-- An encoded command replaces its part by what the adapter then keeps, and nothing else. -/
theorem MarketAdapter.encode_moves {adapter next : MarketAdapter} {command : MarketCommand}
    {msgs : List DiffProtocolMessage} (enc : adapter.encode command = (next, .ok msgs))
    (shown : command.namesNothing = false)
    (key : ∀ chartId chart, get? chartId adapter.charts = some chart → chart.chartId = chartId) :
    Moves SessionRequest.writes adapter.part next.part (msgs.map .market) ∧
      lastWrite SessionRequest.writes command.part (msgs.map .market) =
        some (next.part command.part) := by
  suffices each : ∃ msg, msgs = requestWithPeek msg ∧
      msg.writes = some (command.part, next.part command.part) ∧
      ∀ part, part ≠ command.part → next.part part = adapter.part part by
    obtain ⟨msg, rfl, put, alts⟩ := each
    have here : lastWrite SessionRequest.writes command.part
        ((requestWithPeek msg).map .market) = some (next.part command.part) := by
      rw [lastWrite_requestWithPeek]
      exact writeAt_of_writes put
    refine ⟨fun part => ?_, here⟩
    by_cases same : part = command.part
    · subst same
      exact .inr here
    · refine .inl ⟨?_, alts part same⟩
      rw [lastWrite_requestWithPeek]
      simp only [writeAt, SessionRequest.writes, put, if_neg (Ne.symm same)]
  cases command with
  | subscribeQuotes syms =>
    cases enc
    exact ⟨_, rfl, rfl, fun part alt => by cases part <;> first | rfl | exact absurd rfl alt⟩
  | unsubscribeQuotes syms =>
    cases enc
    exact ⟨_, rfl, rfl, fun part alt => by cases part <;> first | rfl | exact absurd rfl alt⟩
  | subscribeTradingStatus syms =>
    cases enc
    exact ⟨_, rfl, rfl, fun part alt => by cases part <;> first | rfl | exact absurd rfl alt⟩
  | unsubscribeTradingStatus syms =>
    cases enc
    exact ⟨_, rfl, rfl, fun part alt => by cases part <;> first | rfl | exact absurd rfl alt⟩
  | setChart chart =>
    cases fine : validateChartRequest chart with
    | error error =>
      rw [MarketSession.encode_setChart_error fine] at enc
      cases enc
    | ok _ =>
      rw [MarketSession.encode_setChart_ok fine] at enc
      cases enc
      have names : joinSymbolList chart.symbols ≠ "" := by
        simpa [MarketCommand.namesNothing, fine] using shown
      refine ⟨_, rfl, ?_, fun part alt => ?_⟩
      · simp [DiffProtocolMessage.writes, buildChartMessage_chartId,
          buildChartMessage_insList, names, MarketAdapter.part, MarketCommand.part]
      · cases part with
        | quotes => rfl
        | tradingStatus => rfl
        | chart chartId =>
          have ne : chartId ≠ chart.chartId := fun same => alt (by rw [same]; rfl)
          simp [MarketAdapter.part, get?_insert_ne ne]
  | cancelChart chartId =>
    cases got : get? chartId adapter.charts with
    | none =>
      simp only [MarketAdapter.encode, got] at enc
      cases enc
    | some chart =>
      simp only [MarketAdapter.encode, got] at enc
      cases enc
      refine ⟨_, rfl, ?_, fun part alt => ?_⟩
      · simp [DiffProtocolMessage.writes, buildChartMessage_chartId, key _ _ got,
          buildChartMessage_insList, MarketAdapter.part, MarketCommand.part]
      · cases part with
        | quotes => rfl
        | tradingStatus => rfl
        | chart chartId' =>
          have ne : chartId' ≠ chartId := fun same => alt (by rw [same]; rfl)
          simp [MarketAdapter.part, get?_erase_ne ne]

/-! ## Re-submitted commands -/

/-- Re-submitting the command sends again what the adapter keeps, and changes nothing. -/
def MarketAdapter.current (adapter : MarketAdapter) (command : MarketCommand) : Bool :=
  match adapter.encode command with
  | (next, .ok _) => next = adapter
  | (_, .error _) => false

variable {adapter : MarketAdapter} {command : MarketCommand}

theorem MarketAdapter.encode_of_current (cur : adapter.current command = true) :
    ∃ msgs, adapter.encode command = (adapter, .ok msgs) := by
  unfold MarketAdapter.current at cur
  split at cur
  · rename_i next msgs enc
    obtain rfl : next = adapter := by simpa using cur
    exact ⟨msgs, enc⟩
  · cases cur

theorem MarketAdapter.current_of_encode {next : MarketAdapter} {msgs : List DiffProtocolMessage}
    (enc : adapter.encode command = (next, .ok msgs)) (same : next = adapter) :
    adapter.current command = true := by
  simp [MarketAdapter.current, enc, same]

theorem extendSymbols_of_kept {tgt : SymbolSet} {syms : List Symbol}
    (kept : ∀ sym ∈ syms, get? sym tgt = some ()) :
    extendSymbols tgt syms = tgt := by
  unfold extendSymbols
  induction syms with
  | nil => rfl
  | cons hd syms ih =>
    rw [foldl_cons, insert_of_get? (kept hd mem_cons_self)]
    exact ih fun sym mem => kept sym (mem_cons_of_mem _ mem)

theorem extendSymbols_keys {tgt : SymbolSet} (srt : OrdMap.Sorted tgt) :
    extendSymbols tgt (tgt.map Prod.fst) = tgt := by
  refine extendSymbols_of_kept fun sym mem => ?_
  obtain ⟨⟨key, here⟩, got, rfl⟩ := mem_map.mp mem
  exact srt.get?_of_mem got

theorem MarketAdapter.current_subscribe {want : SymbolInterest}
    (srt : OrdMap.Sorted (adapter.subscriptions want)) :
    adapter.current (want.subscribe ((adapter.subscriptions want).map Prod.fst)) = true := by
  refine MarketAdapter.current_of_encode (adapter.encode_subscribe want _) ?_
  rw [extendSymbols_keys srt, MarketSession.setSubscriptions_self]

namespace MarketSession

variable {session next : MarketSession}

theorem Leased.keyed_adapter (leased : session.Leased) (cht : String) (ch : MarketChartCommand)
    (got : get? cht session.adapter.charts = some ch) :
    ch.chartId = cht := by
  rw [leased.keptCharts, Option.map_eq_some_iff] at got
  obtain ⟨want, registered, rfl⟩ := got
  exact (leased.keyed _ _ registered).2

/-- What a recovery re-submits is what the adapter keeps. -/
theorem Leased.recoveryCommands_current (leased : session.Leased) :
    ∀ command ∈ session.adapter.recoveryCommands, session.adapter.current command = true := by
  intro command mem
  unfold MarketAdapter.recoveryCommands at mem
  rw [mem_append, mem_append] at mem
  rcases mem with (qs | statuses) | charts
  · split at qs
    · cases qs
    · rw [mem_singleton] at qs
      subst qs
      exact MarketAdapter.current_subscribe (leased.sorted .quotes)
  · split at statuses
    · cases statuses
    · rw [mem_singleton] at statuses
      subst statuses
      exact MarketAdapter.current_subscribe (leased.sorted .tradingStatus)
  · obtain ⟨⟨cht, ch⟩, ent, rfl⟩ := mem_map.mp charts
    have got := leased.sortedCharts.get?_of_mem ent
    have key := leased.keyed_adapter _ _ got
    subst key
    refine MarketAdapter.current_of_encode (encode_setChart_ok (leased.valid _ _ got).1) ?_
    rw [insert_of_get? got]

/-- Every part that a fresh server lacks is re-submitted. -/
theorem Leased.recoveryCommands_cover (leased : session.Leased) (part : MarketPart) :
    MarketServer.part {} part = session.adapter.part part ∨
      ∃ command ∈ session.adapter.recoveryCommands, command.part = part := by
  unfold MarketAdapter.recoveryCommands
  cases part with
  | quotes =>
    cases kept : session.adapter.quoteSubscriptions with
    | nil => exact .inl (by rw [MarketAdapter.part, kept]; rfl)
    | cons hd rest =>
      refine .inr ⟨.subscribeQuotes ((hd :: rest).map Prod.fst), ?_, rfl⟩
      simp
  | tradingStatus =>
    cases kept : session.adapter.tradingStatusSubscriptions with
    | nil => exact .inl (by rw [MarketAdapter.part, kept]; rfl)
    | cons hd rest =>
      refine .inr ⟨.subscribeTradingStatus ((hd :: rest).map Prod.fst), ?_, rfl⟩
      simp
  | chart cht =>
    cases got : get? cht session.adapter.charts with
    | none => exact .inl (by rw [MarketAdapter.part, got]; rfl)
    | some chart =>
      refine .inr ⟨.setChart chart, mem_append_right _ ?_, ?_⟩
      · exact mem_map.mpr ⟨_, mem_of_get? got, rfl⟩
      · exact congrArg MarketPart.chart (leased.keyed_adapter _ _ got)

/-! ## The condition -/

/-- The commands that a recovery has still to re-submit. -/
def resubmissions (session : MarketSession) : List MarketCommand :=
  match session.phase with
  | .resubmitting rest _ => rest
  | _ => []

/-- Without the dropped requests the server keeps something they replace and no queued request
replaces again. -/
def loses (server : MarketServer) (dropped outbound : List SessionRequest) : Bool :=
  dropped.any fun request =>
    match request.writes with
    | none => false
    | some (part, _) =>
      (lastWrite SessionRequest.writes part outbound).isNone &&
        lastWrite SessionRequest.writes part dropped != some (server.part part)

/-- Where the step drops requests of a connection it keeps, nothing is lost. -/
def losesNothing (session : MarketSession) (event : MarketSessionEvent) : Prop :=
  match event, session.phase with
  | .refused transport, .flushing rest recovers =>
    (transport && recovers) = false →
      loses (session.server.getD {}) rest session.outbound = false
  | .connectFails, .recovering dropped _ =>
    loses (session.server.getD {}) dropped session.outbound = false
  | _, _ => True

/-- The step submits no chart that names nothing, gives nothing up that a recovery is about to
re-submit, and loses nothing. -/
def Meets (session : MarketSession) (event : MarketSessionEvent) : Prop :=
  (∀ command, session.leaseCommand event = some command →
    command.namesNothing = false ∧
      ∀ pending ∈ session.resubmissions,
        (session.adapter.encode command).1.current pending = true) ∧
    session.losesNothing event

instance (session : MarketSession) (event : MarketSessionEvent) :
    Decidable (session.losesNothing event) := by
  unfold losesNothing
  split <;> infer_instance

instance (session : MarketSession) (event : MarketSessionEvent) :
    Decidable (session.Meets event) :=
  inferInstanceAs (Decidable (_ ∧ _))

/-- Every step of the run meets the condition. -/
def MeetsAll (session : MarketSession) : List MarketSessionEvent → Prop
  | [] => True
  | event :: events => session.Meets event ∧ (session.step event).MeetsAll events

instance decidableMeetsAll (session : MarketSession) :
    (events : List MarketSessionEvent) → Decidable (session.MeetsAll events)
  | [] => .isTrue trivial
  | event :: events =>
    have := decidableMeetsAll (session.step event) events
    inferInstanceAs (Decidable (_ ∧ _))

/-! ## The invariant -/

/-- The server, once it has received what is queued, is at the adapter's sets. -/
structure Delivering (session : MarketSession) : Prop where
  offline : session.server = none → session.phase = .idle
  agrees : Agrees SessionRequest.writes session.adapter.part session.outbound
  delivers : match session.phase with
    | .idle => Delivers SessionRequest.writes (session.server.getD {}).part session.adapter.part
        session.outbound
    | .flushing rest _ => Delivers SessionRequest.writes (session.server.getD {}).part
        session.adapter.part (rest ++ session.outbound)
    | .recovering dropped _ => Delivers SessionRequest.writes (session.server.getD {}).part
        session.adapter.part (dropped ++ session.outbound)
    | .resubmitting rest _ => (∀ command ∈ rest, session.adapter.current command = true) ∧
        ∀ part, (lastWrite SessionRequest.writes part session.outbound).getD
          (MarketServer.part {} part) = session.adapter.part part ∨
          ∃ command ∈ rest, command.part = part

theorem delivers_drop {server : MarketServer} {dropped outb : List SessionRequest}
    {goal : MarketPart → MarketValue}
    (delivers : Delivers SessionRequest.writes server.part goal (dropped ++ outb))
    (kept : loses server dropped outb = false) :
    Delivers SessionRequest.writes server.part goal outb := by
  refine delivers.drop fun part val last => ?_
  obtain ⟨req, mem, put⟩ := exists_of_lastWrite last
  have here := any_eq_false.mp kept req mem
  simp only [put, last] at here
  by_cases post : lastWrite SessionRequest.writes part outb = none
  · rw [post] at here
    refine .inr ?_
    by_contra other
    refine here ?_
    rw [Option.isNone_none, Bool.true_and, bne_iff_ne]
    exact fun same => other (Option.some.inj same).symm
  · exact .inl post

/-! ## Steps -/

/-- Requests that move the server along with the adapter keep the invariant. -/
theorem Delivering.extend (sends : session.Delivering) {msgs : List SessionRequest}
    (phase : next.phase = session.phase) (server : next.server = session.server)
    (outb : next.outbound = session.outbound ++ msgs)
    (mvs : Moves SessionRequest.writes session.adapter.part next.adapter.part msgs)
    (cur : ∀ pend ∈ session.resubmissions, next.adapter.current pend = true) :
    next.Delivering := by
  have dels := sends.delivers
  constructor
  · rw [phase, server]
    exact sends.offline
  · rw [outb]
    exact sends.agrees.append mvs
  · rw [phase, server, outb]
    unfold resubmissions at cur
    split at dels
    · exact dels.append mvs
    · rename_i rest recovers here
      rw [← append_assoc]
      exact dels.append mvs
    · rename_i drop flush here
      rw [← append_assoc]
      exact dels.append mvs
    · rename_i rest flush here
      rw [here] at cur
      refine ⟨cur, fun part => ?_⟩
      rw [lastWrite_append]
      rcases mvs part with ⟨silent, same⟩ | written
      · rw [silent, Option.none_or, same]
        exact dels.2 part
      · rw [written]
        exact .inl rfl

theorem Delivering.current_resubmissions (sends : session.Delivering) :
    ∀ pend ∈ session.resubmissions, session.adapter.current pend = true := by
  intro pend mem
  have dels := sends.delivers
  unfold resubmissions at mem
  split at mem
  · rename_i rest flush here
    rw [here] at dels
    exact dels.1 pend mem
  · cases mem

section

variable (leased : session.Leased)

include leased

theorem Delivering.follows (sends : session.Delivering) {command : Option MarketCommand}
    (fol : Follows session command next)
    (meets : ∀ subd, command = some subd → subd.namesNothing = false ∧
      ∀ pend ∈ session.resubmissions, (session.adapter.encode subd).1.current pend = true) :
    next.Delivering := by
  rcases fol.submitted with ⟨adapter, outb⟩ | ⟨subd, msgs, same, enc, outb⟩
  · refine sends.extend fol.phase fol.server (outb.trans (append_nil _).symm) ?_ ?_
    · rw [adapter]
      exact Moves.of_silent fun _ mem => by cases mem
    · rw [adapter]
      exact sends.current_resubmissions
  · obtain ⟨shown, cur⟩ := meets subd same
    rw [enc] at cur
    exact sends.extend fol.phase fol.server outb
      (MarketAdapter.encode_moves enc shown leased.keyed_adapter).1 cur

theorem Leased.of_same (wants : next.interests = session.interests)
    (adapter : next.adapter = session.adapter) (lets : next.leases = session.leases)
    (chartLeases : next.chartLeases = session.chartLeases) : next.Leased where
  counted interest := by
    rw [wants, lets]
    exact leased.counted interest
  kept interest symbol := by
    rw [adapter, lets]
    exact leased.kept interest symbol
  sorted interest := by
    rw [adapter]
    exact leased.sorted interest
  charts chartId := by
    unfold MarketSession.openCharts
    rw [wants, chartLeases]
    exact leased.charts chartId
  keyed chartId interest := by
    rw [wants]
    exact leased.keyed chartId interest
  keptCharts chartId := by
    rw [adapter, wants]
    exact leased.keptCharts chartId
  sortedCharts := by
    rw [adapter]
    exact leased.sortedCharts
  valid chartId chart := by
    rw [adapter]
    exact leased.valid chartId chart

theorem Leased.shown_of_current {command : MarketCommand}
    (cur : session.adapter.current command = true) : command.namesNothing = false := by
  cases command with
  | setChart ch =>
    obtain ⟨msgs, enc⟩ := MarketAdapter.encode_of_current cur
    cases fine : validateChartRequest ch with
    | error error => simp only [MarketCommand.namesNothing, fine]
    | ok _ =>
      rw [encode_setChart_ok fine] at enc
      have same := congrArg (MarketAdapter.charts ∘ Prod.fst) enc
      have got : get? ch.chartId session.adapter.charts = some ch := by
        rw [← show OrdMap.insert ch.chartId ch session.adapter.charts =
          session.adapter.charts from same]
        exact get?_insert_self _ _ _
      simp only [MarketCommand.namesNothing, fine]
      exact decide_eq_false (leased.valid _ _ got).2
  | _ => rfl

theorem Delivering.resubmit (sends : session.Delivering) {command : MarketCommand}
    {rest : List MarketCommand} {flush : Bool}
    (here : session.phase = .resubmitting (command :: rest) flush) :
    (session.step .resubmit).Leased ∧ (session.step .resubmit).Delivering := by
  have dels := sends.delivers
  rw [here] at dels
  obtain ⟨cur, ps⟩ := dels
  have current_head := cur command mem_cons_self
  obtain ⟨msgs, enc⟩ := MarketAdapter.encode_of_current current_head
  obtain ⟨mvs, put⟩ := MarketAdapter.encode_moves enc
    (leased.shown_of_current current_head) leased.keyed_adapter
  have stepped : session.step .resubmit =
      { session with
        outbound := session.outbound ++ msgs.map .market
        phase := .resubmitting rest flush } := by
    simp only [step, stepIo, here, submitMarketCommand_of_ok enc]
  rw [stepped]
  have online : session.server ≠ none := by
    intro gone
    rw [sends.offline gone] at here
    cases here
  refine ⟨leased.of_same rfl rfl rfl rfl, fun gone => absurd gone online,
    sends.agrees.append mvs, fun pend mem => cur pend (mem_cons_of_mem _ mem), fun part => ?_⟩
  rw [lastWrite_append]
  rcases mvs part with ⟨silent, -⟩ | written_part
  · rw [silent, Option.none_or]
    rcases ps part with done | ⟨pend, mem, tgt⟩
    · exact .inl done
    · rcases mem_cons.mp mem with rfl | later
      · rw [← tgt, put] at silent
        cases silent
      · exact .inr ⟨pend, later, tgt⟩
  · rw [written_part]
    exact .inl rfl

/-- One step of the io task. -/
theorem stepIo_keeps (sends : session.Delivering) (ev : MarketSessionEvent)
    (resubmits : ev ≠ .resubmit) (loses_nothing : session.losesNothing ev) :
    (session.stepIo ev).Leased ∧ (session.stepIo ev).Delivering := by
  have agr := sends.agrees
  have dels := sends.delivers
  have offline := sends.offline
  have same : session.Leased ∧ session.Delivering := ⟨leased, sends⟩
  unfold losesNothing at loses_nothing
  cases ev with
  | resubmit => exact absurd rfl resubmits
  | establish =>
    dsimp only [stepIo]
    split
    · rename_i here gone
      rw [here, gone] at dels
      refine ⟨leased.of_same rfl rfl rfl rfl, fun miss => (by cases miss), agr, ?_⟩
      dsimp only
      rw [here]
      exact dels
    · exact same
  | flushOutbound recovers =>
    dsimp only [stepIo]
    split
    · rename_i server here alive
      rw [here] at dels
      refine ⟨leased.of_same rfl rfl rfl rfl, fun gone => ?_, Agrees.nil, ?_⟩
      · rw [alive] at gone
        cases gone
      · dsimp only
        rw [append_nil]
        exact dels
    · exact same
  | sent =>
    dsimp only [stepIo]
    split
    · rename_i req rest recovers here
      cases alive : session.server with
      | none =>
        rw [offline alive] at here
        cases here
      | some server =>
        rw [here, alive] at dels
        exact ⟨leased.of_same rfl rfl rfl rfl, fun gone => (by cases gone), agr,
          Delivers.receive MarketServer.overwrites dels⟩
    · exact same
  | refused transport =>
    dsimp only [stepIo]
    split
    · rename_i req rest recovers here
      rw [here] at dels loses_nothing
      refine ⟨leased.of_same rfl rfl rfl rfl, fun gone => ?_, agr, ?_⟩
      · rw [offline gone] at here
        cases here
      · dsimp only at loses_nothing ⊢
        by_cases recovering : (transport && recovers) = true
        · rw [if_pos recovering]
          exact dels
        · rw [if_neg recovering]
          exact delivers_drop dels (loses_nothing (Bool.eq_false_iff.mpr recovering))
    · exact same
  | flushed =>
    dsimp only [stepIo]
    split
    · rename_i recovers here
      rw [here] at dels
      exact ⟨leased.of_same rfl rfl rfl rfl, fun _ => rfl, agr, dels⟩
    · exact same
  | reconnect =>
    dsimp only [stepIo]
    split
    · rename_i server here alive
      rw [here] at dels
      refine ⟨leased.of_same rfl rfl rfl rfl, fun gone => ?_, agr, dels⟩
      rw [alive] at gone
      cases gone
    · exact same
  | connects =>
    dsimp only [stepIo]
    split
    · rename_i drop flush here
      refine ⟨leased.of_same rfl rfl rfl rfl, fun gone => ?_, agr,
        leased.recoveryCommands_current, fun part => ?_⟩
      · rw [offline gone] at here
        cases here
      · cases last : lastWrite SessionRequest.writes part session.outbound with
        | some val => exact .inl (agr part val last)
        | none => exact leased.recoveryCommands_cover part
    · exact same
  | connectFails =>
    dsimp only [stepIo]
    split
    · rename_i drop flush here
      rw [here] at dels loses_nothing
      exact ⟨leased.of_same rfl rfl rfl rfl, fun _ => rfl, agr, delivers_drop dels loses_nothing⟩
    · exact same
  | recovered =>
    have settled : ∀ flush, session.phase = .resubmitting [] flush →
        Delivers SessionRequest.writes (MarketServer.part {}) session.adapter.part
          session.outbound := by
      intro flush here part
      rw [here] at dels
      rcases dels.2 part with done | ⟨pend, mem, -⟩
      · exact done
      · cases mem
    dsimp only [stepIo]
    split
    · rename_i here
      refine ⟨leased.of_same rfl rfl rfl rfl, fun gone => (by cases gone), Agrees.nil, ?_⟩
      dsimp only
      rw [append_nil]
      exact settled true here
    · rename_i here
      exact ⟨leased.of_same rfl rfl rfl rfl, fun gone => (by cases gone), agr,
        settled false here⟩
    · exact same
  | _ => exact same

/-- One step keeps the leases counted and the server on its way. -/
theorem step_keeps (sends : session.Delivering) (ev : MarketSessionEvent)
    (meets : session.Meets ev) :
    (session.step ev).Leased ∧ (session.step ev).Delivering := by
  obtain ⟨submits, loses_nothing⟩ := meets
  have shown : ∀ subd, session.leaseCommand ev = some subd →
      subd.namesNothing = false := fun subd same => (submits subd same).1
  have of_follows : (session.step ev).Leased ∧
      Follows session (session.leaseCommand ev) (session.step ev) →
      (session.step ev).Leased ∧ (session.step ev).Delivering :=
    fun ⟨leased', nxt⟩ => ⟨leased', sends.follows leased nxt submits⟩
  cases ev with
  | ensureQuotes syms => exact of_follows (leased.ensureSymbols .quotes syms)
  | ensureTradingStatus syms => exact of_follows (leased.ensureSymbols .tradingStatus syms)
  | ensureChart command => exact of_follows (leased.ensureChart command shown)
  | updateChart lease command => exact of_follows (leased.updateChart lease command shown)
  | releaseSymbols lease asked => exact of_follows (leased.releaseSymbols lease asked)
  | closeQuotes lease => exact of_follows (leased.closeSymbols .quotes lease)
  | closeTradingStatus lease => exact of_follows (leased.closeSymbols .tradingStatus lease)
  | closeChart lease => exact of_follows (leased.closeChart lease)
  | submitOther reqs =>
    refine ⟨leased.of_same rfl rfl rfl rfl,
      @Delivering.extend _ (session.step (.submitOther reqs)) sends
        (List.replicate reqs .other) rfl rfl rfl (Moves.of_silent fun req mem => ?_) ?_⟩
    · rw [eq_of_mem_replicate mem]
      rfl
    · exact sends.current_resubmissions
  | resubmit =>
    cases here : session.phase with
    | resubmitting rest flush =>
      cases rest with
      | nil =>
        have same : session.step .resubmit = session := by simp only [step, stepIo, here]
        rw [same]
        exact ⟨leased, sends⟩
      | cons command rest => exact sends.resubmit leased here
    | _ =>
      have same : session.step .resubmit = session := by simp only [step, stepIo, here]
      rw [same]
      exact ⟨leased, sends⟩
  | _ => exact stepIo_keeps leased sends _ (by simp) loses_nothing

/-! ## Runs -/

theorem Leased.wantedSymbols (want : SymbolInterest) :
    session.wantedSymbols want = session.adapter.subscriptions want := by
  unfold MarketSession.wantedSymbols
  refine (sorted_extendSymbols sorted_nil _).ext (leased.sorted want) fun sym => ?_
  rw [get?_extendSymbols, leased.kept want sym]
  rfl

theorem Leased.wantedChart (cht : String) :
    session.wantedChart cht = (get? cht session.adapter.charts).map
      fun ch => buildChartMessage ch false := by
  unfold MarketSession.wantedChart
  rw [leased.charts cht, leased.keptCharts cht]
  cases got : get? cht session.interests.charts with
  | none => rfl
  | some want =>
    obtain ⟨more, same⟩ := Nat.exists_eq_succ_of_ne_zero (leased.keyed _ _ got).1.ne'
    dsimp only
    rw [same, replicate_succ]
    rfl

/-- A server at the adapter's sets has what the open leases hold. -/
theorem Leased.subscribedAt {server : MarketServer} (same : server.part = session.adapter.part) :
    session.SubscribedAt server where
  quotes := by
    rw [leased.wantedSymbols]
    exact MarketValue.list.inj (congrFun same .quotes)
  tradingStatus := by
    rw [leased.wantedSymbols]
    exact MarketValue.list.inj (congrFun same .tradingStatus)
  charts chartId := by
    rw [leased.wantedChart]
    exact MarketValue.chart.inj (congrFun same (.chart chartId))

theorem Delivering.subscribed (sends : session.Delivering) :
    session.Subscribed := by
  intro server alive quiet
  have silent : ∀ req ∈ session.queued, req.writes = none := by
    intro req mem
    have here := all_eq_true.mp quiet req mem
    cases req with
    | other => rfl
    | market msg => cases here
  have dels := sends.delivers
  refine leased.subscribedAt ?_
  unfold connected at alive
  unfold queued at silent
  cases here : session.phase with
  | idle =>
    rw [here] at dels alive silent
    dsimp only at dels alive silent
    rw [alive] at dels
    exact dels.of_silent silent
  | flushing rest recovers =>
    rw [here] at dels alive silent
    dsimp only at dels alive silent
    rw [alive] at dels
    exact dels.of_silent silent
  | recovering drop flush =>
    rw [here] at alive
    cases alive
  | resubmitting rest flush =>
    rw [here] at alive
    cases alive

end

theorem leased_init : MarketSession.Leased {} where
  counted interest symbol := by cases interest <;> rfl
  kept interest symbol := by cases interest <;> rfl
  sorted interest := by cases interest <;> exact sorted_nil
  charts chartId := rfl
  keyed chartId interest stored := by cases stored
  keptCharts chartId := rfl
  sortedCharts := sorted_nil
  valid chartId chart stored := by cases stored

theorem delivering_init : MarketSession.Delivering {} where
  offline _ := rfl
  agrees := Agrees.nil
  delivers part := by cases part <;> rfl

theorem MeetsAll.keeps {evs : List MarketSessionEvent} (leased : session.Leased)
    (delivering : session.Delivering) (meets : session.MeetsAll evs) :
    (session.run evs).Leased ∧ (session.run evs).Delivering := by
  unfold MarketSession.run
  induction evs generalizing session with
  | nil => exact ⟨leased, delivering⟩
  | cons ev evs ih =>
    obtain ⟨leased', delivering'⟩ := step_keeps leased delivering ev meets.1
    exact ih leased' delivering' meets.2

/-- In every run that loses no request and resurrects nothing, the connected server has exactly
what the open leases hold as soon as no market request is queued. -/
theorem run_subscribed (events : List MarketSessionEvent)
    (meets : MarketSession.MeetsAll {} events) : (MarketSession.run {} events).Subscribed := by
  obtain ⟨leased, sends⟩ := meets.keeps leased_init delivering_init
  exact sends.subscribed leased

/-- A flush recovers while a lease is taken, and symbols are released after it. -/
def recoveryRun : List MarketSessionEvent :=
  [.establish, .ensureQuotes ["SHFE.au2602", "SHFE.au2602", "DCE.m2605"], .flushOutbound true,
    .refused true, .connects, .ensureQuotes ["DCE.m2609"], .resubmit, .recovered, .sent, .sent,
    .sent, .sent, .flushed, .releaseSymbols 0 ["SHFE.au2602"], .flushOutbound false, .sent, .sent,
    .flushed]

theorem run_subscribed_recovery :
    (MarketSession.run {} recoveryRun).connected.map MarketServer.quotes =
        some "DCE.m2605,DCE.m2609" ∧
      (MarketSession.run {} recoveryRun).Subscribed :=
  ⟨by decide +kernel, run_subscribed _ (by decide +kernel)⟩

/-- A request of another domain that no route takes fails the flush; the subscription drained
with it is never sent, and the session stays connected. -/
theorem not_run_subscribed :
    ¬ (MarketSession.run {} [.establish, .submitOther 1, .ensureQuotes ["SHFE.au2602"],
      .flushOutbound true, .refused false]).Subscribed := by
  intro subd
  have lost := (subd {} (by decide) (by decide)).quotes
  revert lost
  decide

end MarketSession

end Tqsdk
