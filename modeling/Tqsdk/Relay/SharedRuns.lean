import Tqsdk.Relay.SharedSynthesis

/-!
# Charts along a run of ticks

Whenever a chart is set, the replay and the live frames after it bring the bars that one
synthesizer fed with all ticks completes.
-/

namespace Tqsdk

open List

def tickOf (symbol : String) : RelayInput → Option RelayTickRow
  | .tick other row => if other = symbol then some row else none
  | _ => none

/-- The ticks of a symbol among the inputs. -/
def ticksOf (symbol : String) (inputs : List RelayInput) : List RelayTickRow :=
  inputs.filterMap (tickOf symbol)

/-- Neither a quote nor an official row, and nothing restored. -/
def onlyTicks : RelayInput → Bool
  | .command _ _ => true
  | .tick _ _ => true
  | .removeClient _ => true
  | _ => false

/-- A tick among the inputs evicts nothing from the cache. -/
def FitsInput (cache : MarketCache) : RelayInput → Prop
  | .tick symbol row => cache.FitsTick symbol row
  | _ => True

/-- The bars that a new chart asks for fit in the rings. -/
def FitsBars (capacity : Nat) (inputs : List RelayInput) : RelayInput → Prop
  | .command _ (.setChart command) => 0 < command.durationNs → ∀ symbol ∈ command.symbols,
      (completedBars command.durationNs (ticksOf symbol inputs)).length < capacity
  | _ => True

namespace RelayEngine

variable {calendar : String → Option Int} {engine : RelayEngine}
  {ticks : String → List RelayTickRow}

def RunFits (calendar : String → Option Int) (engine : RelayEngine) : List RelayInput → Prop
  | [] => True
  | input :: inputs =>
    FitsInput engine.cache input ∧ RunFits calendar (engine.step calendar input).1 inputs

variable {inputs : List RelayInput} {input : RelayInput}

theorem runFits_snoc :
    RunFits calendar engine (inputs ++ [input]) ↔
      RunFits calendar engine inputs ∧ FitsInput (run calendar engine inputs).1.cache input := by
  induction inputs generalizing engine with
  | nil => simp [RunFits, run]
  | cons hd inputs ih => rw [cons_append, RunFits, ih, RunFits, run, and_assoc]

/-- Ticks with growing ids that stay within the limits, and no other market data. -/
structure TickFeed (calendar : String → Option Int) (engine : RelayEngine)
    (inputs : List RelayInput) : Prop where
  kinds : ∀ input ∈ inputs, onlyTicks input = true
  ids : ∀ symbol, (ticksOf symbol inputs).Pairwise fun earlier later => earlier.id < later.id
  fewTicks : ∀ symbol, (ticksOf symbol inputs).length < engine.cache.tickCapacity
  fewBars : ∀ input ∈ inputs, FitsBars engine.cache.klineCapacity inputs input
  fits : RunFits calendar engine inputs

theorem ticksOf_append (sym : String) (pre post : List RelayInput) :
    ticksOf sym (pre ++ post) = ticksOf sym pre ++ ticksOf sym post :=
  filterMap_append

theorem completedBars_append (dur : Int) (pre post : List RelayTickRow) :
    completedBars dur pre <+: completedBars dur (pre ++ post) := by
  rw [completedBars, completedBars, KlineSynthesis.pushTicks_append]
  exact prefix_append _ _

theorem TickFeed.init (feed : TickFeed calendar engine (inputs ++ [input])) :
    TickFeed calendar engine inputs := by
  refine ⟨fun pre mem => feed.kinds pre (mem_append_left _ mem),
    fun sym => ?_, fun sym => ?_, fun pre mem => ?_, (runFits_snoc.mp feed.fits).1⟩
  · have ids := feed.ids sym
    rw [ticksOf_append, pairwise_append] at ids
    exact ids.1
  · have few := feed.fewTicks sym
    rw [ticksOf_append, length_append] at few
    omega
  · have few := feed.fewBars pre (mem_append_left _ mem)
    cases pre with
    | command cid command =>
      cases command with
      | setChart command =>
        intro pos sym seen
        have fewer := few pos sym seen
        have shorter := (completedBars_append command.durationNs (ticksOf sym inputs)
          (ticksOf sym [input])).length_le
        rw [ticksOf_append] at fewer
        omega
      | subscribeQuote syms => trivial
      | peekMessage => trivial
    | tick sym row => trivial
    | quote sym quote => trivial
    | officialKline sym dur row => trivial
    | restoreTicks sym rows => trivial
    | restoreOfficialKlines sym dur rows => trivial
    | removeClient cid => trivial

/-! ## One input -/

/-- The ticks after one more input. -/
def ticksAfter (ticks : String → List RelayTickRow) : RelayInput → String → List RelayTickRow
  | .tick symbol row => withTick ticks symbol row
  | _ => ticks

theorem ticksOf_snoc (inputs : List RelayInput) (input : RelayInput) :
    (fun sym => ticksOf sym (inputs ++ [input])) =
      ticksAfter (fun sym => ticksOf sym inputs) input := by
  funext other
  rw [ticksOf_append]
  cases input with
  | tick sym row =>
    dsimp only [ticksAfter, withTick]
    by_cases same : sym = other
    · rw [if_pos same.symm]
      simp [ticksOf, tickOf, same]
    · rw [if_neg (Ne.symm same)]
      simp [ticksOf, tickOf, same]
  | command cid command => exact append_nil _
  | quote sym quote => exact append_nil _
  | officialKline sym dur row => exact append_nil _
  | restoreTicks sym rows => exact append_nil _
  | restoreOfficialKlines sym dur rows => exact append_nil _
  | removeClient cid => exact append_nil _

/-- An input sends rows of the completed bars only, to clients that show them, and all that it
completes to every client that shows them. -/
structure SendsBars (engine : RelayEngine) (ticks after : String → List RelayTickRow)
    (stepped : RelayEngine × List DownstreamFrame) : Prop where
  sound : ∀ clientId key bar, SendsRow stepped.2 clientId key bar →
    stepped.1.interests.Shows clientId key ∧ bar ∈ completedBars key.durationNs (after key.symbol)
  complete : ∀ clientId key bar, 0 < key.durationNs → engine.interests.Shows clientId key →
    bar ∈ completedBars key.durationNs (after key.symbol) →
      bar ∈ completedBars key.durationNs (ticks key.symbol) ∨ SendsRow stepped.2 clientId key bar

theorem SendsBars.of_silent {step : RelayEngine × List DownstreamFrame}
    (silent : ∀ cid key bar, ¬SendsRow step.2 cid key bar) :
    SendsBars engine ticks ticks step :=
  ⟨fun cid key bar sent => absurd sent (silent cid key bar), fun _ _ _ _ _ mem => .inl mem⟩

theorem Shared.sendsBars_tick (both : Shared engine ticks) (sym : String) (row : RelayTickRow) :
    SendsBars engine ticks (withTick ticks sym row) (engine.ingestTick sym row) := by
  have wants : (engine.ingestTick sym row).1.interests = engine.interests :=
    @interests_step (fun _ => none) engine both.indexed (.tick sym row)
  refine ⟨fun cid key bar sent => ?_, fun cid key bar pos shown mem => ?_⟩
  · obtain ⟨rfl, pos, shown, done⟩ := (sendsRow_ingestTick both sym row cid key bar).mp sent
    rw [wants, withTick, if_pos rfl, completedBars_snoc]
    exact ⟨shown, mem_append_right _ done⟩
  · rw [withTick] at mem
    split at mem
    · rename_i here
      rw [completedBars_snoc] at mem
      rcases mem_append.mp mem with old | new
      · exact .inl old
      · exact .inr ((sendsRow_ingestTick both sym row cid key bar).mpr ⟨here, pos, shown, new⟩)
    · exact .inl mem

theorem Shared.step {input : RelayInput} (shared : Shared engine ticks)
    (kind : onlyTicks input = true) (fits : FitsInput engine.cache input)
    (newer : ∀ sym row, input = .tick sym row →
      (∀ last ∈ ticks sym, last.id < row.id) ∧ (ticks sym).length < engine.cache.tickCapacity)
    (few : BarsFit (interestsAfter engine.interests input) engine.cache.klineCapacity
      (ticksAfter ticks input)) :
    Shared (engine.step calendar input).1 (ticksAfter ticks input) ∧
    engine.cache.SameCapacity (engine.step calendar input).1.cache ∧
    SendsBars engine ticks (ticksAfter ticks input) (engine.step calendar input) := by
  cases input with
  | tick sym row =>
    obtain ⟨newer, room⟩ := newer sym row rfl
    obtain ⟨shared', cap⟩ := shared.ingestTick fits newer room few
    exact ⟨shared', cap, shared.sendsBars_tick sym row⟩
  | command cid command =>
    cases command with
    | subscribeQuote syms =>
      exact ⟨shared.setQuotes cid syms, ⟨rfl, rfl⟩,
        .of_silent fun alt key bar => silent_cachedQuoteFrames⟩
    | peekMessage => exact ⟨shared, ⟨rfl, rfl⟩, .of_silent fun alt key bar => sendsRow_nil⟩
    | setChart command =>
      obtain ⟨shared', c, sent⟩ := @Shared.setChart calendar _ _ shared cid command few
      refine ⟨shared', c ▸ ⟨rfl, rfl⟩, fun alt key bar told => ?_, fun _ _ _ _ _ mem => .inl mem⟩
      obtain ⟨⟨rfl, syms, same, seen⟩, pos, mem⟩ := (sent alt key bar).mp told
      refine ⟨⟨command.chartId, InterestRegistry.sourceOf command, ?_, same.symm, seen⟩, mem⟩
      rw [interests_step shared.indexed]
      rcases interestsAfter_setChart engine.interests cid command with
        ⟨empty, -⟩ | ⟨refused, -⟩ | ⟨-, after⟩
      · exact absurd empty syms
      · have := refused.2.1
        omega
      · rw [after, InterestRegistry.chartOf_setChart, if_pos ⟨rfl, rfl⟩]
  | removeClient cid =>
    refine ⟨shared.prune (shared.indexed.removeClient cid) fun key _ => ?_, ⟨rfl, rfl⟩,
      .of_silent fun alt key bar => sendsRow_nil⟩
    rintro ⟨own, ch, src, mapped, shown⟩
    rw [shared.indexed.chartOf_removeClient] at mapped
    split at mapped
    · cases mapped
    · exact ⟨own, ch, src, mapped, shown⟩
  | quote sym quote => cases kind
  | officialKline sym dur row => cases kind
  | restoreTicks sym rows => cases kind
  | restoreOfficialKlines sym dur rows => cases kind

/-! ## Whole runs -/

/-- The engine has no chart, no row and no tick. -/
structure Fresh (engine : RelayEngine) : Prop where
  interests : engine.interests = .empty
  ticks : engine.cache.ticks = []
  klines : engine.klines = []
  completed : engine.completedKlines = []
  persisted : engine.persistedOfficialKlines = []
  official : engine.officialKlineSources = []

theorem fresh_newMemoryOnly (sizes : EntrySizes) (cap kcap : Nat) (lims : MarketCacheLimits) :
    Fresh (newMemoryOnly sizes cap kcap lims) :=
  ⟨rfl, rfl, rfl, rfl, rfl, rfl⟩

section

variable (fresh : Fresh engine)

include fresh

theorem Fresh.indexed : engine.interests.Indexed :=
  fresh.interests ▸ InterestRegistry.indexed_empty

theorem Fresh.chartOf (cid : ClientId) (ch : String) :
    engine.interests.chartOf cid ch = none := by
  rw [fresh.interests]
  rfl

theorem Fresh.shared : Shared engine fun sym => ticksOf sym [] := by
  refine ⟨fresh.indexed, fun sym => ?_, fresh.persisted, fresh.official, fun key => .inr ⟨?_, ?_⟩⟩
  · rw [MarketCache.tickRing, fresh.ticks]
    rfl
  · exact fun synth => synth.2.2 rfl
  · rw [viewAt, fresh.klines, fresh.completed]
    rfl

/-- A chart of a key was asked for by a command of the run. -/
theorem exists_request {key : KlineSourceKey}
    (act : (run calendar engine inputs).1.interests.Active key) :
    ∃ cid cmd, RelayInput.command cid (.setChart cmd) ∈ inputs ∧
      cmd.durationNs = key.durationNs ∧ key.symbol ∈ cmd.symbols := by
  obtain ⟨cid, ch, src, mp, same, seen⟩ := act
  obtain ⟨pre, cmd, post, rfl, -, -, -, rfl, -⟩ := exists_lastSet fresh.indexed fresh.chartOf mp
  refine ⟨cid, cmd, by simp, same, ?_⟩
  rw [InterestRegistry.sourceOf, mem_sortDedup, mem_preserveSymbolOrder] at seen
  exact seen

theorem TickFeed.barsFit (feed : TickFeed calendar engine inputs) :
    BarsFit (run calendar engine inputs).1.interests engine.cache.klineCapacity
      fun sym => ticksOf sym inputs := by
  intro key pos act
  obtain ⟨cid, cmd, mem, same, seen⟩ := exists_request fresh act
  have few := feed.fewBars _ mem (same ▸ pos) key.symbol seen
  rw [same] at few
  exact few.le

/-- One more input of a tick feed, and the state before it. -/
theorem TickFeed.snoc (feed : TickFeed calendar engine (inputs ++ [input]))
    (both : Shared (run calendar engine inputs).1 fun sym => ticksOf sym inputs)
    (cap : engine.cache.SameCapacity (run calendar engine inputs).1.cache) :
    Shared ((run calendar engine inputs).1.step calendar input).1
      (fun sym => ticksOf sym (inputs ++ [input])) ∧
    (run calendar engine inputs).1.cache.SameCapacity
      ((run calendar engine inputs).1.step calendar input).1.cache ∧
    SendsBars (run calendar engine inputs).1 (fun sym => ticksOf sym inputs)
      (fun sym => ticksOf sym (inputs ++ [input]))
      ((run calendar engine inputs).1.step calendar input) := by
  have few := TickFeed.barsFit fresh feed
  rw [run_snoc] at few
  dsimp only at few
  rw [interests_step both.indexed, ticksOf_snoc, ← cap.2] at few
  have newer : ∀ sym row, input = .tick sym row →
      (∀ last ∈ ticksOf sym inputs, last.id < row.id) ∧
        (ticksOf sym inputs).length < (run calendar engine inputs).1.cache.tickCapacity := by
    intro sym row same
    have ids := feed.ids sym
    have fewTicks := feed.fewTicks sym
    have here : ticksOf sym [input] = [row] := by
      rw [same]
      simp [ticksOf, tickOf]
    rw [ticksOf_append, here] at ids fewTicks
    rw [pairwise_append] at ids
    rw [length_append, length_singleton] at fewTicks
    refine ⟨fun last mem => ids.2.2 last mem row (mem_singleton_self row), ?_⟩
    rw [cap.1]
    omega
  rw [ticksOf_snoc]
  exact both.step (feed.kinds input (mem_append_right _ (mem_singleton_self input)))
    (runFits_snoc.mp feed.fits).2 newer few

theorem TickFeed.shared (feed : TickFeed calendar engine inputs) :
    Shared (run calendar engine inputs).1 (fun sym => ticksOf sym inputs) ∧
      engine.cache.SameCapacity (run calendar engine inputs).1.cache := by
  induction inputs using List.reverseRecOn with
  | nil => exact ⟨fresh.shared, rfl, rfl⟩
  | append_singleton inputs input ih =>
    obtain ⟨shared, capacity⟩ := ih feed.init
    obtain ⟨shared', capacity', -⟩ := feed.snoc fresh shared capacity
    rw [run_snoc]
    exact ⟨shared', capacity'.1.trans capacity.1, capacity'.2.trans capacity.2⟩

theorem TickFeed.sendsBars (feed : TickFeed calendar engine (inputs ++ [input])) :
    SendsBars (run calendar engine inputs).1 (fun sym => ticksOf sym inputs)
      (fun sym => ticksOf sym (inputs ++ [input]))
      ((run calendar engine inputs).1.step calendar input) := by
  obtain ⟨both, cap⟩ := feed.init.shared fresh
  exact (feed.snoc fresh both cap).2.2

end

theorem TickFeed.of_append {pre post : List RelayInput}
    (feed : TickFeed calendar engine (pre ++ post)) : TickFeed calendar engine pre := by
  induction post using List.reverseRecOn with
  | nil => rwa [append_nil] at feed
  | append_singleton post input ih =>
    rw [← append_assoc] at feed
    exact ih feed.init

/-- From a chart on, its client gets the bars of the whole run, as long as the chart stays. -/
theorem sendsRow_since (fresh : Fresh engine) {before post : List RelayInput} {cid : ClientId}
    {cmd : SetChartCommand}
    (feed : TickFeed calendar engine (before ++ .command cid (.setChart cmd) :: post))
    (syms : cmd.symbols ≠ []) (kept : ∀ input ∈ post, ¬Replaces cid cmd.chartId input)
    {key : KlineSourceKey} (pos : 0 < key.durationNs) (same : key.durationNs = cmd.durationNs)
    (inLeft : key.symbol ∈ (InterestRegistry.sourceOf cmd).symbols) (bar : RelayKlineRow) :
    SendsRow (run calendar (run calendar engine before).1
        (.command cid (.setChart cmd) :: post)).2 cid key bar ↔
      bar ∈ completedBars key.durationNs
        (ticksOf key.symbol (before ++ .command cid (.setChart cmd) :: post)) := by
  induction post using List.reverseRecOn with
  | nil =>
    obtain ⟨both, cap⟩ := feed.init.shared fresh
    have few := TickFeed.barsFit fresh feed
    rw [run_snoc] at few
    dsimp only at few
    rw [interests_step both.indexed, ticksOf_snoc, ← cap.2] at few
    obtain ⟨-, -, sent⟩ := @Shared.setChart calendar _ _ both cid cmd few
    have ticks := congrFun (ticksOf_snoc before (.command cid (.setChart cmd))) key.symbol
    rw [ticks, run, run, sendsRow_append, sent]
    constructor
    · rintro (⟨-, -, mem⟩ | never)
      · exact mem
      · exact absurd never sendsRow_nil
    · exact fun mem => .inl ⟨⟨rfl, syms, same, inLeft⟩, pos, mem⟩
  | append_singleton post input ih =>
    rw [← cons_append, ← append_assoc] at feed ⊢
    have pre := ih feed.init fun alt mem => kept alt (mem_append_left _ mem)
    have sends := feed.sendsBars fresh
    rw [run_append] at sends
    dsimp only at sends
    have shown : (run calendar (run calendar engine before).1
        (.command cid (.setChart cmd) :: post)).1.interests.Shows cid key := by
      refine ⟨cmd.chartId, InterestRegistry.sourceOf cmd, ?_, same.symm, inLeft⟩
      have indexed := @indexed_run calendar engine before fresh.indexed
      rw [run]
      dsimp only
      rw [chartOf_run_of_not_replaces (by
        rw [interests_step indexed]
        exact indexed_interestsAfter indexed _)
        fun alt mem => kept alt (mem_append_left _ mem), interests_step indexed]
      rcases interestsAfter_setChart (run calendar engine before).1.interests cid cmd with
        ⟨empty, -⟩ | ⟨refused, -⟩ | ⟨-, set⟩
      · exact absurd empty syms
      · have := refused.2.1
        omega
      · rw [set, InterestRegistry.chartOf_setChart, if_pos ⟨rfl, rfl⟩]
    rw [run_snoc, sendsRow_append, pre]
    constructor
    · rintro (old | new)
      · rw [ticksOf_append]
        exact (completedBars_append _ _ _).subset old
      · exact (sends.sound cid key bar new).2
    · exact sends.complete cid key bar pos shown

/-- However charts come and go while ticks arrive, every chart there is at the end has brought its
client exactly the bars that one synthesizer fed with all ticks completes, from the command that
set it on; and a bar is only ever sent to a client that has a chart for it. -/
theorem bars_independent_of_subscription {sizes : EntrySizes} {tickCapacity klineCapacity : Nat}
    {limits : MarketCacheLimits} {inputs : List RelayInput}
    (feed : TickFeed calendar (newMemoryOnly sizes tickCapacity klineCapacity limits) inputs) :
    (∀ clientId chartId source,
      (run calendar (newMemoryOnly sizes tickCapacity klineCapacity limits)
        inputs).1.interests.chartOf clientId chartId = some source → 0 < source.durationNs →
      ∃ before command after,
        inputs = before ++ .command clientId (.setChart command) :: after ∧
        command.chartId = chartId ∧ InterestRegistry.sourceOf command = source ∧
        (∀ input ∈ after, ¬Replaces clientId chartId input) ∧
        ∀ symbol ∈ command.symbols, ∀ bar,
          SendsRow (run calendar
              (run calendar (newMemoryOnly sizes tickCapacity klineCapacity limits) before).1
              (.command clientId (.setChart command) :: after)).2
            clientId ⟨source.durationNs, symbol⟩ bar ↔
          bar ∈ completedBars source.durationNs (ticksOf symbol inputs)) ∧
    ∀ before input after, inputs = before ++ input :: after → ∀ clientId key bar,
      SendsRow ((run calendar (newMemoryOnly sizes tickCapacity klineCapacity limits)
        before).1.step calendar input).2 clientId key bar →
      (run calendar (newMemoryOnly sizes tickCapacity klineCapacity limits)
        (before ++ [input])).1.interests.Shows clientId key := by
  have fresh := fresh_newMemoryOnly sizes tickCapacity klineCapacity limits
  constructor
  · intro clientId chartId source mp pos
    obtain ⟨before, command, after, rfl, symbols, -, rfl, rfl, kept⟩ :=
      exists_lastSet fresh.indexed fresh.chartOf mp
    refine ⟨before, command, after, rfl, rfl, rfl, kept, fun symbol seen bar => ?_⟩
    refine sendsRow_since fresh feed symbols kept pos rfl ?_ bar
    rw [InterestRegistry.sourceOf, mem_sortDedup, mem_preserveSymbolOrder]
    exact seen
  · rintro before input after rfl clientId key bar sent
    rw [← singleton_append, ← append_assoc] at feed
    rw [run_snoc]
    exact ((feed.of_append.sendsBars fresh).sound clientId key bar sent).1

/-- The second client sets its chart after the first bar, and the first client leaves. -/
def lateChartRun : List RelayInput :=
  [.command 1 (.setChart ⟨"first", ["a"], 60, 8⟩),
    .tick "a" ⟨1, 10, .finite 5, 0, 0⟩,
    .tick "a" ⟨2, 70, .finite 7, 3, 0⟩,
    .command 2 (.setChart ⟨"second", ["a"], 60, 20⟩),
    .removeClient 1,
    .tick "a" ⟨3, 130, .finite 6, 4, 0⟩]

theorem tickFeed_lateChartRun : TickFeed (fun _ => none)
    (newMemoryOnly ⟨24, 300, 32, 48⟩ 8 8 ⟨4, 100000⟩) lateChartRun := by
  have ticks : ∀ sym, sym ≠ "a" → ticksOf sym lateChartRun = [] := by
    intro sym alt
    simp [ticksOf, lateChartRun, tickOf, Ne.symm alt]
  refine ⟨by decide, fun sym => ?_, fun sym => ?_, fun input mem => ?_,
    ⟨trivial, ⟨by decide +kernel, by decide +kernel⟩, ⟨by decide +kernel, by decide +kernel⟩,
      trivial, trivial, ⟨by decide +kernel, by decide +kernel⟩, trivial⟩⟩
  · by_cases same : sym = "a"
    · subst same
      decide
    · rw [ticks sym same]
      exact .nil
  · by_cases same : sym = "a"
    · subst same
      decide
    · rw [ticks sym same]
      decide
  · simp only [lateChartRun, mem_cons, not_mem_nil, or_false] at mem
    rcases mem with rfl | rfl | rfl | rfl | rfl | rfl
    · exact fun _ => by decide +kernel
    · trivial
    · trivial
    · exact fun _ => by decide +kernel
    · trivial
    · trivial

theorem bars_independent_of_subscription_late :
    (run (fun _ => none) (newMemoryOnly ⟨24, 300, 32, 48⟩ 8 8 ⟨4, 100000⟩)
      lateChartRun).1.interests.chartOf 2 "second" = some ⟨["a"], 60, 20⟩ ∧
    (completedBars 60 (ticksOf "a" lateChartRun)).length = 2 ∧
    ∃ before command after,
      lateChartRun = before ++ .command 2 (.setChart command) :: after ∧
      command.chartId = "second" ∧ InterestRegistry.sourceOf command = ⟨["a"], 60, 20⟩ ∧
      (∀ input ∈ after, ¬Replaces 2 "second" input) ∧
      ∀ symbol ∈ command.symbols, ∀ bar,
        SendsRow (run (fun _ => none) (run (fun _ => none)
            (newMemoryOnly ⟨24, 300, 32, 48⟩ 8 8 ⟨4, 100000⟩) before).1
            (.command 2 (.setChart command) :: after)).2 2 ⟨60, symbol⟩ bar ↔
          bar ∈ completedBars 60 (ticksOf symbol lateChartRun) :=
  ⟨by decide +kernel, by decide +kernel,
    (bars_independent_of_subscription tickFeed_lateChartRun).1 2 "second" ⟨["a"], 60, 20⟩
      (by decide +kernel) (by decide)⟩

end RelayEngine

end Tqsdk
