import Tqsdk.Relay.UpstreamPump

/-!
# What the upstream charts are when the pump is at rest

At rest no signal is pending or still to be sent, and none is taken and not yet acted on.  Then the
pump has observed the interests of the engine as they are, and the peer holds one chart for each
interest that is active, to be prewarmed or observed idle for less than the grace.
-/

namespace Tqsdk

open List OrdMap

namespace InterestRegistry

variable {registry : InterestRegistry}

/-- Some client subscribes to the symbol or charts it. -/
def Wants (registry : InterestRegistry) (symbol : String) : Prop :=
  ∃ clientId, symbol ∈ registry.quotesOf clientId ∨
    ∃ chartId source, registry.chartOf clientId chartId = some source ∧ symbol ∈ source.symbols

/-- Some client has a chart of the source, which is one symbol in a positive duration. -/
def WantsSource (registry : InterestRegistry) (source : SourceKey) : Prop :=
  (∃ clientId chartId, registry.chartOf clientId chartId = some source) ∧
    0 < source.durationNs ∧ source.symbols.length = 1

/-- The registry as operations make it. -/
structure Kept (registry : InterestRegistry) : Prop where
  indexed : registry.Indexed
  quotes : OrdMap.Sorted registry.clientQuotes

theorem kept_empty : Kept .empty := ⟨indexed_empty, sorted_nil⟩

theorem sorted_removeQuotes (srt : OrdMap.Sorted registry.clientQuotes)
    (cid : ClientId) : OrdMap.Sorted (registry.removeQuotes cid).clientQuotes := by
  unfold removeQuotes
  split
  · exact srt
  · exact srt.erase cid

theorem clientQuotes_removeChart (cid : ClientId) (cht : String) :
    (registry.removeChart cid cht).clientQuotes = registry.clientQuotes := by
  unfold removeChart
  split <;> rfl

theorem clientQuotes_removeClient (cid : ClientId) :
    (registry.removeClient cid).clientQuotes = (registry.removeQuotes cid).clientQuotes := by
  have kept : ∀ (chts : List ((ClientId ×ₗ String) × SourceKey)) (lo : InterestRegistry),
      (chts.foldl (fun registry ent =>
        registry.unmapChart cid (ofLex ent.1).2 ent.2) lo).clientQuotes = lo.clientQuotes := by
    intro chts
    induction chts with
    | nil => exact fun _ => rfl
    | cons ent chts ih => exact fun lo => ih _
  exact kept _ _

section

variable (kept : Kept registry)

include kept

theorem Kept.removeClient (cid : ClientId) :
    Kept (registry.removeClient cid) := by
  refine ⟨kept.indexed.removeClient cid, ?_⟩
  rw [clientQuotes_removeClient]
  exact sorted_removeQuotes kept.quotes cid

theorem Kept.interestsAfter (cid : ClientId) (cmd : DownstreamCommand) :
    Kept (RelayEngine.interestsAfter registry (.command cid cmd)) := by
  refine ⟨RelayEngine.indexed_interestsAfter kept.indexed _, ?_⟩
  cases cmd with
  | subscribeQuote syms => exact (sorted_removeQuotes kept.quotes cid).insert _ _
  | peekMessage => exact kept.quotes
  | setChart cmd =>
    rcases RelayEngine.interestsAfter_setChart registry cid cmd with
      ⟨-, after⟩ | ⟨-, after⟩ | ⟨-, after⟩
    · rw [after, clientQuotes_removeChart]
      exact kept.quotes
    · rw [after]
      exact kept.quotes
    · rw [after]
      exact (clientQuotes_removeChart cid cmd.chartId).symm ▸ kept.quotes

theorem Kept.removeClients (clientIds : List ClientId) :
    Kept (clientIds.foldl InterestRegistry.removeClient registry) := by
  induction clientIds generalizing registry with
  | nil => exact kept
  | cons hd clientIds ih => exact ih (kept.removeClient hd)

theorem Kept.mem_desiredSymbols {sym : String} :
    sym ∈ registry.desiredUpstreamTickChartSymbols ↔ registry.Wants sym := by
  simp only [desiredUpstreamTickChartSymbols, chartSymbols, subscribedSymbols, mem_sortDedup,
    mem_append, mem_flatMap]
  have chts : (∃ ent ∈ registry.chartMappings, sym ∈ ent.2.symbols) ↔
      ∃ cid cht src, registry.chartOf cid cht = some src ∧ sym ∈ src.symbols := by
    constructor
    · rintro ⟨ent, mem, inn⟩
      exact ⟨(ofLex ent.1).1, (ofLex ent.1).2, ent.2, kept.indexed.sorted.get?_of_mem mem, inn⟩
    · rintro ⟨cid, cht, src, mp, inn⟩
      exact ⟨_, mem_of_get? mp, inn⟩
  have qs : (∃ ent ∈ registry.clientQuotes, sym ∈ ent.2) ↔
      ∃ cid, sym ∈ registry.quotesOf cid := by
    constructor
    · rintro ⟨ent, mem, inn⟩
      refine ⟨ent.1, ?_⟩
      rw [quotesOf, kept.quotes.get?_of_mem (k := ent.1) mem]
      exact inn
    · rintro ⟨cid, inn⟩
      rw [quotesOf] at inn
      cases got : get? cid registry.clientQuotes with
      | none =>
        rw [got] at inn
        cases inn
      | some syms =>
        rw [got] at inn
        exact ⟨_, mem_of_get? got, inn⟩
  rw [chts, qs, Wants]
  constructor
  · rintro (⟨cid, chart⟩ | ⟨cid, quoted⟩ | ⟨cid, chart⟩)
    · exact ⟨cid, .inr chart⟩
    · exact ⟨cid, .inl quoted⟩
    · exact ⟨cid, .inr chart⟩
  · rintro ⟨cid, quoted | chart⟩
    · exact .inr (.inl ⟨cid, quoted⟩)
    · exact .inl ⟨cid, chart⟩

theorem Kept.mem_desiredSources {src : SourceKey} :
    src ∈ registry.desiredUpstreamKlineSources ↔ registry.WantsSource src := by
  rw [desiredUpstreamKlineSources, mem_filter, kept.indexed.mem_sources, Bool.and_eq_true,
    decide_eq_true_eq, decide_eq_true_eq, WantsSource]

end

end InterestRegistry

namespace UpstreamPump

variable {config : RelayRuntimeConfig} {pump : UpstreamPump} {κ : Type}
  {active : InterestRegistry → List κ}

/-! ## The history of observations and sweeps -/

/-- What a step adds to the history, where `active` is what an observation looks at. -/
def events (active : InterestRegistry → List κ) (now : Nat) (pump : UpstreamPump) :
    PumpInput → List (Deadlines.Event κ)
  | .observe => if pump.taken then [.observed (active pump.registry) now] else []
  | .sweep => if pump.taken then [] else [.swept now]
  | _ => []

def history (active : InterestRegistry → List κ) (config : RelayRuntimeConfig) :
    UpstreamPump → List (Nat × PumpInput) → List (Deadlines.Event κ)
  | _, [] => []
  | pump, input :: inputs =>
    events active input.1 pump input.2 ++
      match step config input.1 pump input.2 with
      | .ok after => history active config after inputs
      | .error _ => []

theorem history_snoc {hd : UpstreamPump} {ins : List (Nat × PumpInput)}
    {inp : Nat × PumpInput} (ok : run config hd ins = .ok pump) :
    history active config hd (ins ++ [inp]) =
      history active config hd ins ++ events active inp.1 pump inp.2 := by
  induction ins generalizing hd with
  | nil =>
    cases ok
    rw [nil_append, history, history, nil_append]
    cases step config inp.1 pump inp.2 <;> simp [history]
  | cons pre ins ih =>
    obtain ⟨next, stepped, rest⟩ := Result.of_bind ok
    have stepped : step config pre.1 hd pre.2 = .ok next := stepped
    rw [cons_append, history, history, stepped]
    dsimp only
    rw [ih rest, append_assoc]

/-- The history of the symbols. -/
def symbolHistory (config : RelayRuntimeConfig) (pump : UpstreamPump)
    (inputs : List (Nat × PumpInput)) : List (Deadlines.Event String) :=
  history InterestRegistry.desiredUpstreamTickChartSymbols config pump inputs

/-- The history of the K-line sources. -/
def sourceHistory (config : RelayRuntimeConfig) (pump : UpstreamPump)
    (inputs : List (Nat × PumpInput)) : List (Deadlines.Event SourceKey) :=
  history InterestRegistry.desiredUpstreamKlineSources config pump inputs

/-! ## The invariant -/

/-- A signal is pending or still to be sent, or one is taken and not yet acted on. -/
def Pending (pump : UpstreamPump) : Prop :=
  pump.signal = true ∨ 0 < pump.owed ∨ pump.taken = true

/-- The last observation found what is active now, and the peer holds the charts made since. -/
structure Settled (config : RelayRuntimeConfig) (symbols : List (Deadlines.Event String))
    (sources : List (Deadlines.Event SourceKey)) (pump : UpstreamPump) : Prop where
  symbols : ∀ symbol, Deadlines.Active symbol symbols ↔ pump.registry.Wants symbol
  sources : ∀ source, Deadlines.Active source sources ↔ pump.registry.WantsSource source
  charts : ∃ charts, pump.idle.charts config = .ok charts ∧ pump.link.Converged charts

/-- The idle interests are what the histories of symbols and of sources leave. -/
structure Tracks (config : RelayRuntimeConfig) (ofSymbols : List (Deadlines.Event String))
    (ofSources : List (Deadlines.Event SourceKey)) (pump : UpstreamPump) : Prop where
  registry : pump.registry.Kept
  baseline : pump.idle.baselineSymbols = []
  symbols : pump.idle.symbols = Deadlines.after upstreamIdleUnsubscribeAfter ofSymbols
  sources : pump.idle.klineSources = Deadlines.after upstreamIdleUnsubscribeAfter ofSources
  inStep : pump.link.InStep
  keyed : UpstreamSource.Keyed pump.link.source.tickCharts
  settled : ¬pump.Pending → Settled config ofSymbols ofSources pump

/-- A reconciliation leaves source and peer in step, with the charts of the interests. -/
theorem reconcile_converged {after : UpstreamPump} (inStep : pump.link.InStep)
    (key : UpstreamSource.Keyed pump.link.source.tickCharts)
    (ok : pump.reconcile config = .ok after) :
    after.registry = pump.registry ∧ after.idle = pump.idle ∧
    (after.Pending ↔ pump.Pending) ∧ after.link.InStep ∧
    UpstreamSource.Keyed after.link.source.tickCharts ∧
    ∃ chts, after.idle.charts config = .ok chts ∧ after.link.Converged chts := by
  obtain ⟨chts, made, sent, rfl⟩ := reconcile_ok ok
  obtain ⟨conv, inStepAfter⟩ := inStep.converged key sent
  exact ⟨rfl, rfl, Iff.rfl, inStepAfter, UpstreamLink.keyed_after _ _ key, chts, made, conv⟩

theorem connectUpstream_inStep {link : UpstreamLink} (ok : config.connectUpstream = .ok link) :
    link.InStep ∧ UpstreamSource.Keyed link.source.tickCharts ∧ link.source.tickCharts = [] := by
  have key : UpstreamSource.Keyed UpstreamLink.connected.source.tickCharts := ⟨sorted_nil, nofun⟩
  obtain ⟨chts, -, ok⟩ := Result.of_bind ok
  split at ok
  · cases ok
    exact ⟨UpstreamLink.inStep_connected, key, rfl⟩
  · obtain ⟨_, sent, same⟩ := Result.of_bind ok
    obtain rfl := Except.ok.inj same
    refine ⟨(UpstreamLink.inStep_connected.converged key sent).2,
      UpstreamLink.keyed_after _ _ key, ?_⟩
    obtain ⟨want, -, made, -, -, -, -, -, note⟩ := UpstreamLink.after_ok key sent
    cases made
    refine eq_nil_iff_forall_not_mem.mpr fun ent mem => ?_
    exact get?_ne_none_of_mem mem (note ent.1)

theorem tracks_start {link : UpstreamLink} (ok : config.connectUpstream = .ok link) :
    Tracks config [] [] (start link) := by
  obtain ⟨inStep, key, none⟩ := connectUpstream_inStep ok
  refine ⟨InterestRegistry.kept_empty, ?_, rfl, rfl, inStep, key,
    fun rest => absurd (.inl rfl) rest⟩
  rw [start, none]
  rfl

section Steps

variable {ofSymbols : List (Deadlines.Event String)} {ofSources : List (Deadlines.Event SourceKey)}

variable {after : UpstreamPump} {now : Nat}

/-- A step that leaves the interests of the pump and its link alone, and a signal pending. -/
theorem Tracks.pending (trk : Tracks config ofSymbols ofSources pump)
    (registry : after.registry.Kept) (idle : after.idle = pump.idle) (link : after.link = pump.link)
    (pend : after.Pending) :
    Tracks config ofSymbols ofSources after :=
  ⟨registry, idle ▸ trk.baseline, idle ▸ trk.symbols, idle ▸ trk.sources,
    link ▸ trk.inStep, link ▸ trk.keyed, fun rest => absurd pend rest⟩

theorem Tracks.observe (tracks : Tracks config ofSymbols ofSources pump) {now : Nat}
    {after : UpstreamPump}
    (ok : ({ pump with taken := false, idle := pump.observed now } : UpstreamPump).reconcile config =
      .ok after) :
    Tracks config
      (ofSymbols ++ [.observed pump.registry.desiredUpstreamTickChartSymbols now])
      (ofSources ++ [.observed pump.registry.desiredUpstreamKlineSources now]) after := by
  obtain ⟨registry, idle, -, inStep, keyed, converged⟩ :=
    @reconcile_converged config { pump with taken := false, idle := pump.observed now } _
      tracks.inStep tracks.keyed ok
  refine ⟨registry ▸ tracks.registry, ?_, ?_, ?_, inStep, keyed,
    fun _ => ⟨fun sym => ?_, fun src => ?_, converged⟩⟩
  · rw [idle]
    exact tracks.baseline
  · rw [idle, Deadlines.after, foldl_append]
    dsimp only [observed, IdleUpstreamInterests.observeActive]
    rw [tracks.baseline, tracks.symbols, append_nil]
    rfl
  · rw [idle, Deadlines.after, foldl_append]
    dsimp only [observed, IdleUpstreamInterests.observeActive]
    rw [tracks.sources]
    rfl
  · rw [Deadlines.active_observed, registry]
    exact tracks.registry.mem_desiredSymbols
  · rw [Deadlines.active_observed, registry]
    exact tracks.registry.mem_desiredSources

theorem expire_unchanged {idle : IdleUpstreamInterests} (unchanged : (idle.expire now).2 = false) :
    (idle.expire now).1 = idle := by
  unfold IdleUpstreamInterests.expire at unchanged ⊢
  simp only [decide_eq_false_iff_not, not_or, not_not] at unchanged
  have same : ∀ {κ : Type} {ents : List (κ × Option Nat)},
      (Deadlines.expire now ents).length = ents.length → Deadlines.expire now ents = ents :=
    fun {κ} {ents} equal => filter_sublist.eq_of_length equal
  rw [same unchanged.1, same unchanged.2]

theorem Tracks.sweep (trk : Tracks config ofSymbols ofSources pump) (free : pump.taken = false)
    (ok : step config now pump .sweep = .ok after) :
    Tracks config (ofSymbols ++ [.swept now]) (ofSources ++ [.swept now]) after := by
  have syms : (pump.idle.expire now).1.symbols =
      Deadlines.after upstreamIdleUnsubscribeAfter (ofSymbols ++ [.swept now]) := by
    rw [Deadlines.after, foldl_append]
    exact congrArg (Deadlines.expire now) trk.symbols
  have srcs : (pump.idle.expire now).1.klineSources =
      Deadlines.after upstreamIdleUnsubscribeAfter (ofSources ++ [.swept now]) := by
    rw [Deadlines.after, foldl_append]
    exact congrArg (Deadlines.expire now) trk.sources
  rw [step, if_neg (by rw [free]; exact Bool.false_ne_true)] at ok
  split at ok
  · obtain ⟨registry, idle, pend, inStep, key, conv⟩ :=
      @reconcile_converged config { pump with idle := (pump.idle.expire now).1 } _ trk.inStep
        trk.keyed ok
    refine ⟨registry ▸ trk.registry, ?_, ?_, ?_, inStep, key, fun rest => ?_⟩
    · rw [idle]
      exact trk.baseline
    · rw [idle]
      exact syms
    · rw [idle]
      exact srcs
    · have done := trk.settled fun held => rest (pend.mpr held)
      refine ⟨fun sym => ?_, fun src => ?_, conv⟩
      · rw [Deadlines.active_swept, registry]
        exact done.symbols sym
      · rw [Deadlines.active_swept, registry]
        exact done.sources src
  · rename_i same
    cases ok
    refine ⟨trk.registry, trk.baseline, syms, srcs, trk.inStep, trk.keyed, fun rest => ?_⟩
    have done := trk.settled rest
    refine ⟨fun sym => ?_, fun src => ?_, ?_⟩
    · rw [Deadlines.active_swept]
      exact done.symbols sym
    · rw [Deadlines.active_swept]
      exact done.sources src
    · dsimp only
      rw [expire_unchanged (Bool.eq_false_iff.mpr same)]
      exact done.charts

theorem Tracks.refresh (trk : Tracks config ofSymbols ofSources pump)
    (ok : step config now pump .refresh = .ok after) :
    Tracks config ofSymbols ofSources after := by
  rw [step] at ok
  split at ok
  · cases ok
    exact trk
  · split at ok
    · cases ok
      exact trk
    · rename_i link connected
      obtain ⟨inStep, key, -⟩ := connectUpstream_inStep connected
      obtain ⟨registry, idle, pend, inStepAfter, keyedAfter, conv⟩ :=
        @reconcile_converged config { pump with link } _ inStep key ok
      refine ⟨registry ▸ trk.registry, ?_, ?_, ?_, inStepAfter, keyedAfter, fun rest => ?_⟩
      · rw [idle]
        exact trk.baseline
      · rw [idle]
        exact trk.symbols
      · rw [idle]
        exact trk.sources
      · have done := trk.settled fun held => rest (pend.mpr held)
        refine ⟨fun sym => ?_, fun src => ?_, conv⟩
        · rw [registry]
          exact done.symbols sym
        · rw [registry]
          exact done.sources src

theorem Tracks.silent {inp : PumpInput} {pre : UpstreamPump}
    (silent : ∀ {κ : Type} (active : InterestRegistry → List κ), events active now pre inp = [])
    (trk : Tracks config ofSymbols ofSources after) :
    Tracks config
      (ofSymbols ++ events InterestRegistry.desiredUpstreamTickChartSymbols now pre inp)
      (ofSources ++ events InterestRegistry.desiredUpstreamKlineSources now pre inp)
      after := by
  rw [silent, silent, append_nil, append_nil]
  exact trk

/-- A command that does not signal changes no interest. -/
theorem interestsAfter_of_silent {registry : InterestRegistry} {cid : ClientId}
    {cmd : DownstreamCommand} (silent : signals cmd = false) :
    RelayEngine.interestsAfter registry (.command cid cmd) = registry := by
  cases cmd with
  | subscribeQuote syms => cases silent
  | peekMessage => rfl
  | setChart cmd =>
    have no : RelayEngine.RefusesChart cmd := by
      rw [signals, Bool.not_eq_false'] at silent
      exact of_decide_eq_true silent
    rcases RelayEngine.interestsAfter_setChart registry cid cmd with
      ⟨empty, -⟩ | ⟨-, after⟩ | ⟨⟨-, accepted⟩, -⟩
    · exact absurd empty no.1
    · exact after
    · exact absurd no accepted

theorem Tracks.step {inp : PumpInput} (trk : Tracks config ofSymbols ofSources pump)
    (ok : UpstreamPump.step config now pump inp = .ok after) :
    Tracks config
      (ofSymbols ++ events InterestRegistry.desiredUpstreamTickChartSymbols now pump inp)
      (ofSources ++ events InterestRegistry.desiredUpstreamKlineSources now pump inp) after := by
  cases inp with
  | command cid command =>
    cases ok
    refine Tracks.silent (fun _ => rfl) ?_
    cases signalled : signals command with
    | true =>
      exact trk.pending (trk.registry.interestsAfter cid command) rfl rfl
        (.inr (.inl (Nat.succ_pos _)))
    | false =>
      rw [interestsAfter_of_silent signalled]
      exact trk
  | removeClients clientIds =>
    cases ok
    exact Tracks.silent (fun _ => rfl) (trk.pending
      (trk.registry.removeClients clientIds) rfl rfl (.inr (.inl (Nat.succ_pos _))))
  | request =>
    cases ok
    exact Tracks.silent (fun _ => rfl)
      (trk.pending trk.registry rfl rfl (.inr (.inl (Nat.succ_pos _))))
  | sendSignal =>
    cases ok
    refine Tracks.silent (fun _ => rfl) ?_
    split
    · exact trk
    · exact trk.pending trk.registry rfl rfl (.inl rfl)
  | takeSignal =>
    cases ok
    refine Tracks.silent (fun _ => rfl) ?_
    split
    · exact trk.pending trk.registry rfl rfl (.inr (.inr rfl))
    · exact trk
  | observe =>
    rw [UpstreamPump.step] at ok
    split at ok
    · rename_i took
      rw [events, events, if_pos took, if_pos took]
      exact trk.observe ok
    · rename_i free
      cases ok
      exact Tracks.silent (fun _ => if_neg free) trk
  | sweep =>
    cases took : pump.taken with
    | true =>
      rw [UpstreamPump.step, if_pos took] at ok
      cases ok
      exact Tracks.silent (fun _ => if_pos took) trk
    | false =>
      rw [events, events, took, if_neg Bool.false_ne_true, if_neg Bool.false_ne_true]
      exact trk.sweep took ok
  | refresh => exact Tracks.silent (fun _ => rfl) (trk.refresh ok)

theorem tracks_run {link : UpstreamLink} (connected : config.connectUpstream = .ok link)
    {ins : List (Nat × PumpInput)} (ok : run config (start link) ins = .ok pump) :
    Tracks config (symbolHistory config (start link) ins)
      (sourceHistory config (start link) ins) pump := by
  induction ins using List.reverseRecOn generalizing pump with
  | nil =>
    cases ok
    exact tracks_start connected
  | append_singleton ins inp ih =>
    obtain ⟨pre, prior, stepped⟩ := run_snoc.mp ok
    rw [symbolHistory, sourceHistory, history_snoc prior, history_snoc prior]
    exact (ih prior).step stepped

end Steps

/-! ## At rest -/

/-- The symbol is to be prewarmed, some client wants it, or the pump has observed that none does
and no sweep has come as late as the grace since. -/
def KeepsSymbol (config : RelayRuntimeConfig) (events : List (Deadlines.Event String))
    (pump : UpstreamPump) (symbol : String) : Prop :=
  symbol ≠ "" ∧ ∃ raw, trimmed raw = symbol ∧ (raw ∈ config.prewarmSymbols ∨
    pump.registry.Wants raw ∨
      ∃ ended, Deadlines.Lingers upstreamIdleUnsubscribeAfter raw events ended)

/-- Likewise for a source of one symbol and a positive duration. -/
def KeepsSource (events : List (Deadlines.Event SourceKey)) (pump : UpstreamPump)
    (source : SourceKey) : Prop :=
  pump.registry.WantsSource source ∨
    ∃ ended, Deadlines.Lingers upstreamIdleUnsubscribeAfter source events ended

/-- After any run of updates, signals and pump steps: when the pump is at rest, the upstream
charts are exactly those of the kept symbols and sources, and no sweep ever drops what the last
observation found. -/
theorem charts_at_rest {link : UpstreamLink} (connected : config.connectUpstream = .ok link)
    {inputs : List (Nat × PumpInput)} (ok : run config (start link) inputs = .ok pump) :
    (¬pump.Pending → ∀ id shown, pump.link.peer.charts id = some shown ↔
      (∃ symbol, KeepsSymbol config (symbolHistory config (start link) inputs) pump symbol ∧
        id = upstreamTickChartId symbol config.relay.upstreamTickViewWidth ∧
        shown = ⟨symbol, 0, config.relay.upstreamTickViewWidth⟩) ∨
      ∃ source, KeepsSource (sourceHistory config (start link) inputs) pump source ∧
        id = upstreamKlineChartId (source.symbols.headD "") source.durationNs source.viewWidth ∧
        shown = ⟨trimmed (source.symbols.headD ""), source.durationNs, source.viewWidth⟩) ∧
    ∀ now,
      (∀ symbol, Deadlines.Active symbol (symbolHistory config (start link) inputs) →
        symbol ∈ (pump.idle.expire now).1.symbols.map Prod.fst) ∧
      ∀ source, Deadlines.Active source (sourceHistory config (start link) inputs) →
        source ∈ (pump.idle.expire now).1.klineSources.map Prod.fst := by
  have trk := tracks_run connected ok
  refine ⟨fun rest id shown => ?_, fun now => ⟨fun symbol hit => ?_, fun source hit => ?_⟩⟩
  · have done := trk.settled rest
    obtain ⟨charts, made, conv⟩ := done.charts
    have keptSymbol : ∀ symbol, symbol ∈ pump.idle.tickChartSymbols config ↔
        KeepsSymbol config (symbolHistory config (start link) inputs) pump symbol := by
      intro symbol
      rw [IdleUpstreamInterests.tickChartSymbols, RelayRuntimeConfig.mem_tickChartSymbols,
        trk.symbols, KeepsSymbol, and_comm]
      refine and_congr_right fun _ => exists_congr fun raw => ?_
      rw [Deadlines.mem_after_iff, done.symbols]
      tauto
    have keptSource : ∀ source, source ∈ pump.idle.sources ↔
        KeepsSource (sourceHistory config (start link) inputs) pump source := by
      intro source
      rw [IdleUpstreamInterests.sources, trk.sources, Deadlines.mem_after_iff,
        done.sources, KeepsSource]
    rw [conv.charts]
    simp only [IdleUpstreamInterests.mem_charts made, keptSymbol, keptSource]
    constructor
    · rintro ⟨ch, ⟨symbol, kept, is_chart⟩ | ⟨source, kept, is_chart⟩, rfl, rfl⟩
      · exact .inl ⟨symbol, kept, is_chart.chartId, is_chart.peerChart⟩
      · exact .inr ⟨source, kept, is_chart.chartId, is_chart.peerChart⟩
    · rintro (⟨symbol, kept, rfl, rfl⟩ | ⟨source, kept, rfl, rfl⟩)
      · obtain ⟨ch, -, is_chart⟩ :=
          IdleUpstreamInterests.exists_tickChart made ((keptSymbol symbol).mpr kept)
        exact ⟨ch, .inl ⟨symbol, kept, is_chart⟩, is_chart.chartId,
          is_chart.peerChart⟩
      · obtain ⟨ch, -, is_chart⟩ :=
          IdleUpstreamInterests.exists_klineChart made ((keptSource source).mpr kept)
        exact ⟨ch, .inr ⟨source, kept, is_chart⟩, is_chart.chartId,
          is_chart.peerChart⟩
  · refine mem_map.mpr ⟨(symbol, none), mem_of_get? ?_, rfl⟩
    dsimp only [IdleUpstreamInterests.expire]
    rw [trk.symbols]
    exact Deadlines.expire_keeps_active hit now
  · refine mem_map.mpr ⟨(source, none), mem_of_get? ?_, rfl⟩
    dsimp only [IdleUpstreamInterests.expire]
    rw [trk.sources]
    exact Deadlines.expire_keeps_active hit now

/-- A client subscribes to one symbol, the pump observes it, the client unsubscribes and the pump
observes that one second later. -/
def subscribedOnce : List (Nat × PumpInput) :=
  [(0, .takeSignal), (0, .observe), (0, .command 1 (.subscribeQuote ["SHFE.au2602"])),
    (0, .sendSignal), (0, .takeSignal), (0, .observe),
    (seconds 1, .command 1 (.subscribeQuote [])), (seconds 1, .sendSignal),
    (seconds 1, .takeSignal), (seconds 1, .observe)]

theorem charts_at_rest_subscribed_once : ∃ pump,
    run defaultRuntimeConfig (start .connected) subscribedOnce = .ok pump ∧
    pump.link.peer.charts (upstreamTickChartId "SHFE.au2602" 10000) =
      some ⟨"SHFE.au2602", 0, 10000⟩ ∧
    ∃ symbol, KeepsSymbol defaultRuntimeConfig
      (symbolHistory defaultRuntimeConfig (start .connected) subscribedOnce) pump symbol := by
  have done : (run defaultRuntimeConfig (start .connected) subscribedOnce).map
      (fun pump => (pump.signal, pump.owed, pump.taken, pump.link.peer.charts
        (upstreamTickChartId "SHFE.au2602" 10000))) =
      .ok (false, 0, false, some ⟨"SHFE.au2602", 0, 10000⟩) := by
    decide +kernel
  cases rch : run defaultRuntimeConfig (start .connected) subscribedOnce with
  | error error =>
    rw [rch] at done
    cases done
  | ok pump =>
    rw [rch] at done
    have shown := Except.ok.inj done
    rw [Prod.mk.injEq, Prod.mk.injEq, Prod.mk.injEq] at shown
    obtain ⟨signal, owed, took, ch⟩ := shown
    have rest : ¬pump.Pending := by
      rw [Pending, signal, owed, took]
      decide
    refine ⟨pump, rfl, ch, ?_⟩
    rcases ((charts_at_rest rfl rch).1 rest _ _).mp ch with
      ⟨symbol, kept, -⟩ | ⟨source, -, same, -⟩
    · exact ⟨symbol, kept⟩
    · exact absurd same (upstreamTickChartId_ne_kline _ _ _ _ _)

/-- At 590 seconds the client subscribes and unsubscribes again before the pump takes the signal,
and the next idle sweep comes at 601 seconds. -/
def coalescedInterest : List (Nat × PumpInput) :=
  subscribedOnce ++
    [(seconds 590, .command 1 (.subscribeQuote ["SHFE.au2602"])), (seconds 590, .sendSignal),
      (seconds 590, .command 1 (.subscribeQuote [])), (seconds 590, .sendSignal),
      (seconds 590, .takeSignal), (seconds 590, .observe), (seconds 601, .sweep)]

/-- At 600 seconds the client subscribes again. -/
def signalledInterest : List (Nat × PumpInput) :=
  subscribedOnce ++
    [(seconds 600, .command 1 (.subscribeQuote ["SHFE.au2602"])), (seconds 600, .sendSignal)]

/-- The first pump is at rest eleven seconds after the interest in the symbol ended, without its
chart; the sweep of the second drops the symbol while a client subscribes to it. -/
theorem coalesced_interest_is_dropped :
    (run defaultRuntimeConfig (start .connected) coalescedInterest).map (fun pump =>
      (pump.signal, pump.owed, pump.taken,
        pump.link.peer.charts (upstreamTickChartId "SHFE.au2602" 10000))) =
      .ok (false, 0, false, none) ∧
    (run defaultRuntimeConfig (start .connected) signalledInterest).map (fun pump =>
      (pump.registry.quotesOf 1, pump.idle.symbols.map Prod.fst,
        (pump.idle.expire (seconds 601)).1.symbols.map Prod.fst)) =
      .ok (["SHFE.au2602"], ["SHFE.au2602"], []) := by
  refine ⟨by decide +kernel, by decide +kernel⟩

end UpstreamPump

end Tqsdk
