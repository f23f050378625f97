import Tqsdk.Lib.Result
import Tqsdk.Task.PublishedQuotes

/-!
# What a strategy sees of the quotes

After a step of a backtest the state shows, for each symbol of the step, the fields the last
quote of the simulated exchange has a value for; a field without one keeps what it showed.
This needs that no quote event of the step wrote another value into a field that the last quote
repeats from the quote published before, which is exactly when leaving out unchanged fields
makes no difference.
-/

namespace Tqsdk

open List

open Value

/-! ## The mutations of one event -/

/-- A market mutation of an event of the symbol: it writes the symbol's quote or a series. -/
structure NormalizedMutation.OfEvent (symbol : Symbol) (mutation : NormalizedMutation) : Prop where
  writes : mutation.WritesQuote
  source : mutation.source = .marketDiff
  root : ∃ root rest, mutation.path = root :: rest ∧
    MutationSource.marketDiff.allowsRoot root = true
  own : ∀ other, mutation.path = ["quotes", other] → other = symbol

section Events

variable {symbol : Symbol}

theorem ofEvent_series {root : PathSegment} (ser : root ∈ ["charts", "klines", "ticks"])
    {rest : List PathSegment} {obj : Option ObjectKey} {flds : List FieldMutation} :
    ∀ m ∈ (marketMutation (root :: rest) obj flds).toList,
      m.OfEvent symbol := by
  intro m mem
  unfold marketMutation at mem
  split at mem
  · cases mem
  · rw [Option.toList_some, mem_singleton] at mem
    subst mem
    have away : (partitionPathSegments (root :: rest)).1 ≠ .quotes ∧ root ≠ "quotes" ∧
        MutationSource.marketDiff.allowsRoot root = true := by
      simp only [mem_cons, not_mem_nil, or_false] at ser
      rcases ser with rfl | rfl | rfl <;> exact ⟨nofun, by decide, by decide⟩
    exact
      { writes := .inl away.1
        source := rfl
        root := ⟨root, rest, rfl, away.2.2⟩
        own := fun alt path => absurd (List.cons.inj path).1 away.2.1 }

theorem ofEvent_quote {flds : List FieldMutation} (put : ∀ fld ∈ flds, fld.value.isNull = false) :
    ∀ m ∈ (replayQuoteMutation symbol flds).toList, m.OfEvent symbol := by
  intro m mem
  rw [replayQuoteMutation_toList] at mem
  split at mem
  · cases mem
  · rw [mem_singleton] at mem
    subst mem
    exact
      { writes := .inr ⟨symbol, rfl, rfl, fun fld mem =>
          put fld (mem_sortFieldMutations.mp mem)⟩
        source := rfl
        root := ⟨"quotes", [symbol], rfl, by decide⟩
        own := fun alt path => (quotePath_injective path).symm }

theorem isNull_pushField {key : String} {val : Option Value}
    (put : ∀ present, val = some present → present.isNull = false) :
    ∀ fld ∈ pushField key val, fld.value.isNull = false := by
  intro fld mem
  cases val with
  | none => cases mem
  | some present =>
    rw [pushField, Option.map_some, Option.toList_some, mem_singleton] at mem
    subst mem
    exact put present rfl

theorem isNull_quoteFields (q : ReplayQuote) (underlyingSymbol : Option Symbol) :
    ∀ fld ∈ quoteFields q underlyingSymbol, fld.value.isNull = false := by
  unfold quoteFields pushStringIfPresent pushF64IfFinite pushI64IfNonzero
  simp only [forall_mem_append]
  refine ⟨⟨⟨⟨⟨⟨?_, ?_⟩, ?_⟩, ?_⟩, ?_⟩, ?_⟩, ?_⟩
  all_goals apply isNull_pushField; intro present val
  · exact isNull_presentJson val
  · exact isNull_toJson val
  · exact isNull_toJson val
  · exact isNull_nonzeroJson val
  · exact isNull_toJson val
  · exact isNull_nonzeroJson val
  · exact isNull_presentJson val

theorem ofEvent_underlying (underlyingSymbol : Option Symbol) :
    ∀ m ∈ pushUnderlyingSymbolMutation symbol underlyingSymbol,
      m.OfEvent symbol := by
  unfold pushUnderlyingSymbolMutation
  split
  · exact forall_mem_nil _
  · apply ofEvent_quote
    intro fld mem
    rw [mem_singleton] at mem
    subst mem
    rfl

theorem ofEvent_chartBounds (ch : ChartId) (leftId rightId : Int) :
    ∀ m ∈ pushChartBoundsMutation ch leftId rightId, m.OfEvent symbol :=
  ofEvent_series (by decide)

theorem ofEvent_backtestMarketMutations (ev : ReplayMarketEvent)
    (klines : List ReplayKlineSpec) (subs : TickSubscriptions) :
    ∀ m ∈ (backtestMarketMutations ev klines subs).2,
      m.OfEvent ev.symbol := by
  unfold backtestMarketMutations
  cases ev.payload with
  | quote quote => exact ofEvent_quote (isNull_quoteFields quote _)
  | kline dur row =>
    dsimp only
    unfold klineMutations
    simp only [forall_mem_append, forall_mem_flatMap]
    exact ⟨⟨fun _ _ => ofEvent_chartBounds _ _ _, ofEvent_series (by decide)⟩,
      ofEvent_underlying _⟩
  | tick tick =>
    dsimp only
    cases OrdMap.get? ev.symbol subs with
    | none => exact forall_mem_nil _
    | some sub =>
      dsimp only
      unfold backtestTickMutations
      simp only [forall_mem_append, forall_mem_flatMap]
      exact ⟨⟨⟨fun _ _ => ofEvent_chartBounds _ _ _, ofEvent_underlying _⟩,
        ofEvent_series (by decide)⟩, ofEvent_series (by decide)⟩

end Events

/-! ## Collecting a step -/

theorem Table.keys_upsert {α : Type} (key : String) (row : α) (chg : α → α)
    {tbl : List (String × α)} (nd : (tbl.map Prod.fst).Nodup) :
    ((Table.upsert key row chg tbl).map Prod.fst).Nodup := by
  unfold Table.upsert
  cases got : Table.get? key tbl with
  | none =>
    dsimp only
    rw [Table.insert, map_append, map_singleton, nodup_append_comm]
    exact nodup_cons.mpr ⟨Table.get?_eq_none_iff.mp got, nd⟩
  | some old =>
    dsimp only
    rw [Table.keys_modify]
    exact nd

namespace StrategyBacktest

/-- A batch that some events have been added to. -/
structure BatchOf (events : List ReplayMarketEvent)
    (batch : ReplayStepBatch) : Prop where
  market : ∀ mutation ∈ batch.marketMutations, ∃ event ∈ events,
    mutation.OfEvent event.symbol
  replay : ∀ mutation ∈ batch.replayMutations, ∃ universeBatch : ReplayUniverseBatch,
    mutation = universeBatch.intoNormalizedMutation
  distinct : (batch.latestQuotes.map Prod.fst).Nodup

/-- The contract that the quotes of an event name as their underlying. -/
def eventUnderlying (event : ReplayMarketEvent) : Symbol :=
  match event.payload with
  | .quote quote => (quoteWithReplayUnderlying quote event.underlyingSymbol).underlyingSymbol
  | _ => event.underlyingSymbol.getD ""

/-- Orders of the symbol `other` are executed in `symbol`: the simulated exchange knows so, or an
event names it. -/
def ExecutesIn (backtest : StrategyBacktest) (events : List ReplayMarketEvent)
    (other symbol : Symbol) : Prop :=
  OrdMap.get? other backtest.sim.executionSymbolByStrategySymbol = some symbol ∨
    ∃ event ∈ events, event.symbol = other ∧
      String.ofList (OrderLifecycle.trim (eventUnderlying event).toList) = symbol

/-- The simulated exchange matches the symbol against the quote, unless an event of another symbol
that is executed in it came after the last event of the symbol. -/
def MatchesAgainst (start backtest : StrategyBacktest) (events : List ReplayMarketEvent)
    (symbol : Symbol) (quote : Quote) : Prop :=
  OrdMap.get? symbol backtest.sim.quotes = some quote ∨
    ∃ earlier event later, events = earlier ++ event :: later ∧
      (∀ other ∈ event :: later, other.symbol ≠ symbol) ∧
      start.ExecutesIn events event.symbol symbol

/-- What holds of the batch while the quotes of an event are taken in. -/
structure TakingIn (start : StrategyBacktest) (events : List ReplayMarketEvent)
    (backtest : StrategyBacktest) (batch : ReplayStepBatch) : Prop
    extends BatchOf events batch where
  store : backtest.store = start.store
  last : backtest.lastReplayQuotes = start.lastReplayQuotes
  aliases : ∀ other symbol,
    OrdMap.get? other backtest.sim.executionSymbolByStrategySymbol = some symbol →
      start.ExecutesIn events other symbol

/-- The batch of a step on its way, collected from the backtest `start` out of some events. -/
structure Collecting (start : StrategyBacktest) (events : List ReplayMarketEvent)
    (backtest : StrategyBacktest) (batch : ReplayStepBatch) : Prop
    extends TakingIn start events backtest batch where
  given : ∀ symbol quote, Table.get? symbol batch.latestQuotes = some quote →
    start.MatchesAgainst backtest events symbol quote.quote.toQuote

/-- Nothing of the state and of the published quotes has changed. -/
def SameShown (start backtest : StrategyBacktest) : Prop :=
  backtest.store = start.store ∧ backtest.lastReplayQuotes = start.lastReplayQuotes

variable (backtest : StrategyBacktest)

theorem rememberQuoteMetadata_kept (symbol : Symbol) (q : ReplayQuote) :
    SameShown backtest (backtest.rememberQuoteMetadata symbol q) ∧
      (backtest.rememberQuoteMetadata symbol q).sim = backtest.sim := by
  unfold rememberQuoteMetadata
  split <;> exact ⟨⟨rfl, rfl⟩, rfl⟩

theorem get?_ingestQuote (backtest : StrategyBacktest) (symbol alt : Symbol)
    (batch : ReplayStepBatch) (q : ReplayStepQuote) :
    Table.get? alt (backtest.ingestQuote symbol batch q).2.latestQuotes =
      if alt = symbol then some q else Table.get? alt batch.latestQuotes := by
  unfold ingestQuote
  dsimp only
  rw [Table.get?_upsert]
  cases Table.get? symbol batch.latestQuotes <;> rfl

/-- A quote is recorded under its symbol and the one it is executed in, which the exchange knew or
the quote names. -/
theorem quoted_spec (sim : TqSim) (symbol : Symbol) (quote : Quote) :
    (∀ other, OrdMap.get? other (sim.quoted symbol quote).1.quotes =
      if other = symbol ∨ (sim.quoted symbol quote).2 = some other then some quote
      else OrdMap.get? other sim.quotes) ∧
    (∀ other target,
      OrdMap.get? other (sim.quoted symbol quote).1.executionSymbolByStrategySymbol = some target →
        OrdMap.get? other sim.executionSymbolByStrategySymbol = some target ∨ other = symbol ∧
          String.ofList (OrderLifecycle.trim quote.underlyingSymbol.toList) = target) ∧
    ∀ target, (sim.quoted symbol quote).2 = some target →
      OrdMap.get? symbol sim.executionSymbolByStrategySymbol = some target ∨
        String.ofList (OrderLifecycle.trim quote.underlyingSymbol.toList) = target := by
  unfold TqSim.quoted TqSim.updateExecutionSymbolAliasFromQuote
  dsimp only
  split_ifs with none own
  · cases known : OrdMap.get? symbol sim.executionSymbolByStrategySymbol with
    | none => exact ⟨fun other => by simp [TqSim.recordQuote, TqSim.applyQuoteMetadata,
        OrdMap.get?_insert], fun _ _ same => .inl same, nofun⟩
    | some target =>
      refine ⟨fun other => ?_, fun _ _ same => .inl same, fun _ same => .inl same⟩
      simp only [TqSim.recordQuote, TqSim.applyQuoteMetadata, OrdMap.get?_insert,
        Option.some.injEq]
      grind
  · refine ⟨fun other => by simp [TqSim.recordQuote, TqSim.applyQuoteMetadata,
      OrdMap.get?_insert], fun other target same => .inl ?_, nofun⟩
    simp only [TqSim.recordQuote, TqSim.applyQuoteMetadata, OrdMap.get?_erase] at same
    split_ifs at same
    exact same
  · refine ⟨fun other => ?_, fun other target same => ?_, fun _ same => .inr (Option.some.inj same)⟩
    · simp only [TqSim.recordQuote, TqSim.applyQuoteMetadata, OrdMap.get?_insert,
        Option.some.injEq]
      grind
    · simp only [TqSim.recordQuote, TqSim.applyQuoteMetadata, OrdMap.get?_insert] at same
      split_ifs at same with here
      · exact .inr ⟨here, Option.some.inj same⟩
      · exact .inl same

section Collecting

variable {start backtest : StrategyBacktest} {events : List ReplayMarketEvent}
  {batch : ReplayStepBatch}

theorem sim_ingestQuote (symbol : Symbol) (q : ReplayStepQuote) :
    (backtest.ingestQuote symbol batch q).1.sim =
      (backtest.sim.quoted symbol q.quote.toQuote).1 := by
  unfold StrategyBacktest.ingestQuote
  dsimp only
  rw [(rememberQuoteMetadata_kept backtest symbol q.quote).2]

theorem TakingIn.ingestQuote (takingIn : TakingIn start events backtest batch)
    {event : ReplayMarketEvent} (mem : event ∈ events) {q : ReplayStepQuote}
    (underlying : q.quote.underlyingSymbol = eventUnderlying event) :
    TakingIn start events (backtest.ingestQuote event.symbol batch q).1
      (backtest.ingestQuote event.symbol batch q).2 := by
  obtain ⟨⟨sto, last⟩, -⟩ := rememberQuoteMetadata_kept backtest event.symbol q.quote
  refine ⟨⟨takingIn.market, takingIn.replay, Table.keys_upsert _ _ _ takingIn.distinct⟩,
    sto.trans takingIn.store, last.trans takingIn.last, fun other target known => ?_⟩
  rw [sim_ingestQuote] at known
  rcases (quoted_spec backtest.sim event.symbol q.quote.toQuote).2.1 other target known with
    known | ⟨rfl, same⟩
  · exact takingIn.aliases other target known
  · exact .inr ⟨event, mem, rfl, underlying ▸ same⟩

/-- After the quotes of the last event its symbol is matched against them, and another symbol
against its own last quote unless the event is executed in it. -/
theorem TakingIn.ingestQuotes {event : ReplayMarketEvent} {qs : List ReplayStepQuote}
    (takingIn : TakingIn start (events ++ [event]) backtest batch)
    (underlying : ∀ q ∈ qs, q.quote.underlyingSymbol = eventUnderlying event)
    (given : ∀ symbol quote, symbol ≠ event.symbol ∨ qs = [] →
      Table.get? symbol batch.latestQuotes = some quote →
        start.MatchesAgainst backtest (events ++ [event]) symbol quote.quote.toQuote) :
    Collecting start (events ++ [event]) (backtest.ingestQuotes event.symbol batch qs).1
      (backtest.ingestQuotes event.symbol batch qs).2 := by
  have mem : event ∈ events ++ [event] := by simp
  unfold StrategyBacktest.ingestQuotes
  induction qs generalizing backtest batch with
  | nil => exact ⟨takingIn, fun symbol quote => given symbol quote (.inr rfl)⟩
  | cons q qs ih =>
    rw [foldl_cons]
    obtain ⟨quotes, -, execution⟩ := quoted_spec backtest.sim event.symbol q.quote.toQuote
    refine @ih (backtest.ingestQuote event.symbol batch q).1
      (backtest.ingestQuote event.symbol batch q).2
      (takingIn.ingestQuote mem (underlying q mem_cons_self))
      (fun other later => underlying other (mem_cons_of_mem _ later)) fun symbol latest _ hit => ?_
    rw [get?_ingestQuote] at hit
    rw [MatchesAgainst, sim_ingestQuote, quotes]
    by_cases here : symbol = event.symbol
    · rw [if_pos here] at hit
      cases hit
      exact .inl (if_pos (.inl here))
    · rw [if_neg here] at hit
      by_cases also : (backtest.sim.quoted event.symbol q.quote.toQuote).2 = some symbol
      · -- the quote of the event takes the place of the symbol's own
        refine .inr ⟨events, event, [], rfl, forall_mem_singleton.mpr (Ne.symm here),
          (execution symbol also).elim (takingIn.aliases event.symbol symbol) fun same => ?_⟩
        exact .inr ⟨event, mem, rfl, underlying q mem_cons_self ▸ same⟩
      · rw [if_neg (not_or.mpr ⟨here, also⟩)]
        exact given symbol latest (.inl here) hit

/-- A symbol that has a quote keeps one, and the symbol of the quotes gets one. -/
theorem present_ingestQuotes (symbol alt : Symbol) {qs : List ReplayStepQuote}
    (present : Table.get? alt batch.latestQuotes ≠ none ∨ alt = symbol ∧ qs ≠ []) :
    Table.get? alt (backtest.ingestQuotes symbol batch qs).2.latestQuotes ≠ none := by
  unfold StrategyBacktest.ingestQuotes
  induction qs generalizing backtest batch with
  | nil => exact present.resolve_right fun no => no.2 rfl
  | cons q qs ih =>
    rw [foldl_cons]
    refine @ih (backtest.ingestQuote symbol batch q).1 (backtest.ingestQuote symbol batch q).2 ?_
    rw [get?_ingestQuote]
    by_cases here : alt = symbol
    · rw [if_pos here]
      exact .inl (Option.some_ne_none q)
    · rw [if_neg here]
      exact .inl (present.resolve_right fun no => here no.1)

/-- What an event adds to the batch of its step. -/
structure Ingested (start : StrategyBacktest) (events : List ReplayMarketEvent)
    (out : StrategyBacktest × Except BacktestError ReplayStepBatch) : Prop where
  sameShown : SameShown start out.1
  collecting : ∀ batch, out.2 = .ok batch → Collecting start events out.1 batch
  present : ∀ batch, out.2 = .ok batch → ∀ event ∈ events,
    Table.get? event.symbol batch.latestQuotes ≠ none

theorem Collecting.sameShown (collecting : Collecting start events backtest batch) :
    SameShown start backtest :=
  ⟨collecting.store, collecting.last⟩

theorem TakingIn.ingested {event : ReplayMarketEvent} {quotes : List ReplayStepQuote}
    (takingIn : TakingIn start (events ++ [event]) backtest batch)
    (given : ∀ symbol quote, symbol ≠ event.symbol →
      Table.get? symbol batch.latestQuotes = some quote →
        start.MatchesAgainst backtest (events ++ [event]) symbol quote.quote.toQuote)
    (present : ∀ earlier ∈ events, Table.get? earlier.symbol batch.latestQuotes ≠ none)
    (some : quotes ≠ [])
    (underlying : ∀ q ∈ quotes, q.quote.underlyingSymbol = eventUnderlying event) :
    Ingested start (events ++ [event])
      ((backtest.ingestQuotes event.symbol batch quotes).1,
        .ok (backtest.ingestQuotes event.symbol batch quotes).2) := by
  have taken := takingIn.ingestQuotes underlying fun symbol quote other =>
    given symbol quote (other.resolve_right some)
  refine ⟨taken.sameShown, ?_, ?_⟩
  · rintro _ ⟨⟩
    exact taken
  · rintro _ ⟨⟩ other mem
    apply present_ingestQuotes
    rcases mem_append.mp mem with pre | here
    · exact .inl (present other pre)
    · rw [mem_singleton] at here
      exact .inr ⟨congrArg _ here, some⟩

theorem Collecting.ingestReplayEvent (collecting : Collecting start events backtest batch)
    (present : ∀ ev ∈ events, Table.get? ev.symbol batch.latestQuotes ≠ none)
    (arith : F64Arith) (ev : ReplayMarketEvent) :
    Ingested start (events ++ [ev]) (backtest.ingestReplayEvent arith ev batch) := by
  unfold StrategyBacktest.ingestReplayEvent
  dsimp only
  have more (other symbol : Symbol) (executes : start.ExecutesIn events other symbol) :
      start.ExecutesIn (events ++ [ev]) other symbol :=
    executes.imp_right fun ⟨event, mem, names⟩ => ⟨event, mem_append_left _ mem, names⟩
  -- the mutations of the event are in the batch before its quotes are
  have plus : TakingIn start (events ++ [ev])
      { backtest with tickSubscriptions :=
        (backtestMarketMutations ev backtest.klines backtest.tickSubscriptions).1 }
      { batch with marketMutations := batch.marketMutations ++
        (backtestMarketMutations ev backtest.klines backtest.tickSubscriptions).2 } := by
    refine ⟨⟨?_, collecting.replay, collecting.distinct⟩, collecting.store, collecting.last,
      fun other symbol known => more _ _ (collecting.aliases other symbol known)⟩
    intro m mem
    rcases mem_append.mp mem with pre | here
    · obtain ⟨prior, earlierMember, ofEvent⟩ := collecting.market m pre
      exact ⟨prior, mem_append_left _ earlierMember, ofEvent⟩
    · exact ⟨ev, by simp, ofEvent_backtestMarketMutations ev _ _ m here⟩
  have given (symbol : Symbol) (quote : ReplayStepQuote) (other : symbol ≠ ev.symbol)
      (hit : Table.get? symbol batch.latestQuotes = some quote) :
      start.MatchesAgainst backtest (events ++ [ev]) symbol quote.quote.toQuote := by
    refine (collecting.given symbol quote hit).imp_right ?_
    rintro ⟨earlier, event, later, isSplit, apart, executes⟩
    refine ⟨earlier, event, later ++ [ev], by simp [isSplit], ?_, more _ _ executes⟩
    rw [← cons_append, forall_mem_append]
    exact ⟨apart, forall_mem_singleton.mpr (Ne.symm other)⟩
  have ingest {quotes : List ReplayStepQuote} :=
    @TakingIn.ingested start _ events _ ev quotes plus given present
  have plain (quote : ReplayQuote) (empty : quote.underlyingSymbol = "") :
      (quoteWithReplayUnderlying quote ev.underlyingSymbol).underlyingSymbol =
        ev.underlyingSymbol.getD "" := by
    unfold quoteWithReplayUnderlying
    cases ev.underlyingSymbol with
    | none => exact empty
    | some underlying => simp [empty]
  cases payload : ev.payload with
  | quote quote =>
    refine ingest (cons_ne_nil _ _) fun q mem => ?_
    rw [mem_singleton.mp mem, eventUnderlying, payload]
  | tick tick =>
    refine ingest (cons_ne_nil _ _) fun q mem => ?_
    rw [mem_singleton.mp mem, eventUnderlying, payload]
    exact plain _ rfl
  | kline dur row =>
    dsimp only
    split
    · exact ⟨⟨plus.store, plus.last⟩, nofun, nofun⟩
    · refine ingest (cons_ne_nil _ _) fun q mem => ?_
      obtain ⟨checkpoint, inside, rfl⟩ := mem_map.mp mem
      obtain ⟨price, -, rfl⟩ := mem_map.mp inside
      rw [eventUnderlying, payload]
      exact plain _ rfl

/-! ## The events of a step -/

/-- The events of the stream up to the first one of another time. -/
def eventsAt (eventTimeNs : Int) :
    List (Except BacktestError ReplayMarketEvent) → List ReplayMarketEvent
  | .ok event :: replay =>
    if event.eventTimeNs ≠ eventTimeNs then [] else event :: eventsAt eventTimeNs replay
  | _ => []

/-- The events of the next step. -/
def stepEvents (backtest : StrategyBacktest) : List ReplayMarketEvent :=
  match backtest.pendingEvent, backtest.replay with
  | some event, replay => event :: eventsAt event.eventTimeNs replay
  | none, .ok event :: replay => event :: eventsAt event.eventTimeNs replay
  | none, _ => []

section

variable (collecting : Collecting start events backtest batch)
  (present : ∀ event ∈ events, Table.get? event.symbol batch.latestQuotes ≠ none)

include collecting present

/-- The loop of `next` ends: the stream is at its end, or an event is put aside. -/
theorem Collecting.stopped (rpl : List (Except BacktestError ReplayMarketEvent))
    (pendingEvent : Option ReplayMarketEvent) :
    Ingested start (events ++ [])
      ({ backtest with replay := rpl, pendingEvent := pendingEvent }, .ok batch) := by
  rw [append_nil]
  refine ⟨collecting.sameShown, ?_, ?_⟩
  · rintro _ ⟨⟩
    exact ⟨⟨collecting.toBatchOf, collecting.store, collecting.last, collecting.aliases⟩,
      collecting.given⟩
  · rintro _ ⟨⟩
    exact present

theorem Collecting.ingestEventsAt (arith : F64Arith) (time : Int)
    (rpl : List (Except BacktestError ReplayMarketEvent)) :
    Ingested start (events ++ eventsAt time rpl)
      (StrategyBacktest.ingestEventsAt arith time backtest rpl batch) := by
  induction rpl generalizing events backtest batch with
  | nil => exact collecting.stopped present [] backtest.pendingEvent
  | cons item rpl ih =>
    cases item with
    | error error => exact ⟨collecting.sameShown, nofun, nofun⟩
    | ok ev =>
      rw [StrategyBacktest.ingestEventsAt, eventsAt]
      by_cases alt : ev.eventTimeNs ≠ time
      · rw [if_pos alt, if_pos alt]
        exact collecting.stopped present rpl (some ev)
      · rw [if_neg alt, if_neg alt]
        have ing := collecting.ingestReplayEvent present arith ev
        split
        · rename_i stop error same
          rw [same] at ing
          exact ⟨ing.sameShown, nofun, nofun⟩
        · rename_i next nextBatch same
          rw [same] at ing
          have post := ih (ing.collecting _ rfl) (ing.present _ rfl)
          rw [append_assoc] at post
          exact post

end

/-- What `next` has done before the commit of its step. -/
structure Collected (start : StrategyBacktest)
    (out : StrategyBacktest × Except BacktestError (Option ReplayStepBatch)) : Prop where
  sameShown : SameShown start out.1
  collecting : ∀ batch, out.2 = .ok (some batch) →
    Collecting start start.stepEvents out.1 batch
  present : ∀ batch, out.2 = .ok (some batch) → ∀ event ∈ start.stepEvents,
    Table.get? event.symbol batch.latestQuotes ≠ none

/-- The event a step starts with, and the stream behind it. -/
theorem nextReplayEvent_spec (start : StrategyBacktest) :
    SameShown start start.nextReplayEvent.1 ∧
      start.nextReplayEvent.1.sim = start.sim ∧
      ∀ ev, start.nextReplayEvent.2 = .ok (some ev) → start.stepEvents =
        ev :: eventsAt ev.eventTimeNs start.nextReplayEvent.1.replay := by
  obtain ⟨rpl, pendingEvent, _, _, _, _, _, _, _, _⟩ := start
  cases pendingEvent with
  | some ev =>
    refine ⟨⟨rfl, rfl⟩, rfl, fun hd same => ?_⟩
    cases same
    rfl
  | none =>
    cases rpl with
    | nil => exact ⟨⟨rfl, rfl⟩, rfl, fun hd same => by cases same⟩
    | cons item rpl =>
      cases item with
      | error error => exact ⟨⟨rfl, rfl⟩, rfl, fun hd same => by cases same⟩
      | ok ev =>
        refine ⟨⟨rfl, rfl⟩, rfl, fun hd same => ?_⟩
        cases same
        rfl

theorem collectStep_spec (start : StrategyBacktest) (arith : F64Arith)
    (universeAt : Int → Except BacktestError (List ReplayUniverseBatch)) :
    Collected start (start.collectStep arith universeAt) := by
  obtain ⟨hd, sim, events⟩ := nextReplayEvent_spec start
  unfold collectStep
  split
  · rename_i backtest err same
    rw [same] at hd
    exact ⟨hd, nofun, nofun⟩
  · rename_i backtest same
    rw [same] at hd
    exact ⟨hd, nofun, nofun⟩
  · rename_i backtest ev same
    rw [same] at hd sim events
    split
    · exact ⟨hd, nofun, nofun⟩
    · rename_i bts acc
      have new : Collecting start [] backtest
          { replayMutations := bts.map ReplayUniverseBatch.intoNormalizedMutation } := by
        refine ⟨⟨⟨forall_mem_nil _, ?_, nodup_nil⟩, hd.1, hd.2,
          fun _ _ known => .inl (sim ▸ known)⟩, fun _ _ hit => by cases hit⟩
        intro m mem
        obtain ⟨universeBatch, -, rfl⟩ := mem_map.mp mem
        exact ⟨universeBatch, rfl⟩
      have ing := new.ingestReplayEvent (forall_mem_nil _) arith ev
      dsimp only
      split
      · rename_i stop err fin
        rw [fin] at ing
        exact ⟨ing.sameShown, nofun, nofun⟩
      · rename_i next nextBatch fin
        rw [fin] at ing
        have post := (ing.collecting _ rfl).ingestEventsAt (ing.present _ rfl) arith
          ev.eventTimeNs backtest.replay
        rw [nil_append, singleton_append, ← events ev rfl] at post
        refine ⟨post.sameShown, fun batch done => ?_, fun batch done => ?_⟩
        · obtain ⟨coll, fin, same⟩ := Result.map_eq_ok.mp done
          cases same
          exact post.collecting _ fin
        · obtain ⟨coll, fin, same⟩ := Result.map_eq_ok.mp done
          cases same
          exact post.present _ fin

end Collecting

end StrategyBacktest

/-! ## The commit of a step -/

/-- A replay step may hand the mutation to the commit. -/
structure NormalizedMutation.OfStep (mutation : NormalizedMutation) : Prop where
  writes : mutation.WritesQuote
  source : mutation.source ≠ .tradeReply
  root : ∃ root rest, mutation.path = root :: rest ∧ mutation.source.allowsRoot root = true

theorem NormalizedMutation.OfEvent.ofStep {symbol : Symbol} {m : NormalizedMutation}
    (ofEvent : m.OfEvent symbol) : m.OfStep where
  writes := ofEvent.writes
  source := ofEvent.source ▸ nofun
  root := ofEvent.source ▸ ofEvent.root

theorem ReplayUniverseBatch.ofStep (batch : ReplayUniverseBatch) :
    batch.intoNormalizedMutation.OfStep where
  writes := .inl nofun
  source := nofun
  root := ⟨"replay", [batch.sessionId, "universe"], rfl, rfl⟩

theorem applyUnderCommitGate_ofStep {mus : List NormalizedMutation} (ofStep : ∀ m ∈ mus, m.OfStep)
    (sto : StateStore) (doms : List ProtocolDomain) :
    RuntimeHandle.applyUnderCommitGate sto mus doms [] .replayStep =
      .ok (CommitEngine.apply sto mus doms [] .replayStep) := by
  have noOrders : mus.any isTradeOrderMutation = false := by
    rw [any_eq_false]
    intro m mem
    simp [isTradeOrderMutation, tradeOrderKey, (ofStep m mem).source]
  have norm : RuntimeHandle.normalizeMutations sto doms mus = .ok mus := by
    unfold RuntimeHandle.normalizeMutations normalizeOrderLifecycleMutations
    rw [noOrders]
    split <;> rfl
  have fine : validateMutationDomains mus = .ok () :=
    validateMutationDomains_ok_iff.mpr fun m mem => (ofStep m mem).root
  unfold RuntimeHandle.applyUnderCommitGate
  rw [norm, Result.ok_bind, fine, Result.ok_bind]
  rfl

theorem ingestPresorted_ofStep {marketMutations replayMutations : List NormalizedMutation}
    {quoteFields : QuoteFields} (ofStep : ∀ m ∈ replayMutations ++
      (marketMutations ++ quoteFieldMutations quoteFields), m.OfStep) (sto : StateStore) :
    ∃ post com, ingestPresortedReplayMarketMutations sto marketMutations replayMutations
        quoteFields = .ok (post, com) ∧
      post.partitions = runTurns sto.partitions
        (replayMutations ++ (marketMutations ++ quoteFieldMutations quoteFields)) := by
  have app (mutations : List NormalizedMutation) (domains : List ProtocolDomain) :
      ∃ post com, Except.ok (CommitEngine.apply sto mutations domains [] .replayStep) =
          (Except.ok (post, com) : Except ContractError _) ∧
        post.partitions = runTurns sto.partitions mutations := by
    refine ⟨(CommitEngine.apply sto mutations domains [] .replayStep).1,
      (CommitEngine.apply sto mutations domains [] .replayStep).2, rfl, ?_⟩
    rw [CommitEngine.apply_partitions, applyLoop_partitions]
  unfold ingestPresortedReplayMarketMutations
  dsimp only
  split
  · rename_i emp
    rw [Bool.and_eq_true, List.isEmpty_iff, List.isEmpty_iff] at emp
    rw [emp.1, emp.2]
    exact ⟨sto, none, rfl, rfl⟩
  · split
    · rename_i marketOnly
      rw [List.isEmpty_iff] at marketOnly
      subst marketOnly
      rw [nil_append] at ofStep ⊢
      rw [applyUnderCommitGate_ofStep ofStep]
      exact app _ _
    · rw [applyUnderCommitGate_ofStep ofStep]
      exact app _ _

theorem mem_quoteFieldMutations {quoteFields : QuoteFields} :
    ∀ m ∈ quoteFieldMutations quoteFields, ∃ ent ∈ quoteFields,
      m ∈ (replayQuoteMutation ent.1 ent.2).toList := by
  have last : ∀ (ents last : QuoteFields),
      ∀ ent ∈ ents.foldl (fun last ent =>
          if ent.2.isEmpty then last else OrdMap.insert ent.1 ent.2 last) last,
        ent ∈ last ∨ ent ∈ ents := by
    intro ents
    induction ents with
    | nil => exact fun last ent mem => .inl mem
    | cons hd ents ih =>
      intro last ent mem
      rw [foldl_cons] at mem
      rcases ih _ ent mem with before | later
      · split at before
        · exact .inl before
        · rcases OrdMap.mem_insert before with rfl | before
          · exact .inr mem_cons_self
          · exact .inl before
      · exact .inr (mem_cons_of_mem _ later)
  intro m mem
  unfold quoteFieldMutations at mem
  split at mem
  · cases mem
  · exact ⟨_, mem_singleton_self _, mem⟩
  · obtain ⟨ent, eMem, put⟩ := mem_filterMap.mp mem
    have seen := (last quoteFields [] ent eMem).resolve_left not_mem_nil
    exact ⟨ent, seen, by rw [put]; exact mem_singleton_self _⟩

namespace StrategyBacktest

theorem mem_quoteFieldsForReplayBatch {last qs : List (Symbol × ReplayStepQuote)} :
    ∀ ent ∈ (quoteFieldsForReplayBatch last qs).2, ∃ prev q,
      ent.2 = quoteStateFieldsSince prev q := by
  induction qs generalizing last with
  | nil => exact forall_mem_nil _
  | cons hd qs ih =>
    obtain ⟨symbol, q⟩ := hd
    intro ent mem
    rw [quoteFieldsForReplayBatch] at mem
    dsimp only at mem
    split at mem
    · exact ih ent mem
    · rcases mem_cons.mp mem with rfl | later
      · exact ⟨_, q, rfl⟩
      · exact ih ent later

/-- The fields a step publishes of a symbol. -/
def publishedFields (last : List (Symbol × ReplayStepQuote)) (batch : ReplayStepBatch)
    (symbol : Symbol) : List FieldMutation :=
  match Table.get? symbol batch.latestQuotes with
  | none => []
  | some quote => quoteStateFieldsSince (OrdMap.get? symbol last) quote

/-- The commit of a step succeeds, and each quote sees the writes of its events first, then
the published fields. -/
theorem BatchOf.ingestReplayBatch {events : List ReplayMarketEvent} {batch : ReplayStepBatch}
    (batchOf : BatchOf events batch) (backtest : StrategyBacktest) :
    ∃ sto, backtest.ingestReplayBatch batch =
        ({ backtest with
          lastReplayQuotes :=
            (quoteFieldsForReplayBatch backtest.lastReplayQuotes batch.latestQuotes).1
          store := sto }, .ok ()) ∧
      ∀ symbol, sto.partitions.quote symbol =
        publishQuote symbol
          (quoteAfter symbol (backtest.store.partitions.quote symbol) batch.marketMutations)
          (publishedFields backtest.lastReplayQuotes batch symbol) := by
  have ofStep : ∀ m ∈ batch.replayMutations ++ (batch.marketMutations ++
      quoteFieldMutations
        (quoteFieldsForReplayBatch backtest.lastReplayQuotes batch.latestQuotes).2),
      m.OfStep := by
    simp only [forall_mem_append]
    refine ⟨?_, ?_, ?_⟩
    · intro m mem
      obtain ⟨universeBatch, rfl⟩ := batchOf.replay m mem
      exact universeBatch.ofStep
    · intro m mem
      obtain ⟨ev, -, ofEvent⟩ := batchOf.market m mem
      exact ofEvent.ofStep
    · intro m mem
      obtain ⟨ent, eMem, put⟩ := mem_quoteFieldMutations m mem
      obtain ⟨prev, q, flds⟩ := mem_quoteFieldsForReplayBatch ent eMem
      rw [flds] at put
      exact (ofEvent_quote quoteStateFieldsSince_isNull m put).ofStep
  obtain ⟨sto, com, done, ps⟩ := ingestPresorted_ofStep ofStep backtest.store
  refine ⟨sto, ?_, ?_⟩
  · unfold StrategyBacktest.ingestReplayBatch
    dsimp only
    rw [done]
  · intro symbol
    have sep : ∀ m ∈ batch.replayMutations, m.path ≠ ["quotes", symbol] := by
      intro m mem path
      obtain ⟨universeBatch, rfl⟩ := batchOf.replay m mem
      exact absurd (List.cons.inj path).1 (by decide)
    have keys := (quoteFieldsForReplayBatch_keys backtest.lastReplayQuotes batch.latestQuotes).nodup
      batchOf.distinct
    rw [ps, runTurns_quote fun m mem => (ofStep m mem).writes, quoteAfter_append,
      quoteAfter_of_apart sep, quoteAfter_append, quoteAfter_quoteFieldMutations keys,
      get?_quoteFieldsForReplayBatch batchOf.distinct]
    rfl

end StrategyBacktest

end Tqsdk
