import Tqsdk.Relay.KlineFanOut

/-!
# Runs of the relay engine

An input is one call of the engine; a call that is refused changes nothing and sends nothing.
-/

namespace Tqsdk

open List

inductive RelayInput
  | command (clientId : ClientId) (command : DownstreamCommand)
  | tick (symbol : String) (row : RelayTickRow)
  | quote (symbol : String) (quote : RelayQuote)
  | officialKline (symbol : String) (durationNs : Int) (row : RelayKlineRow)
  | restoreTicks (symbol : String) (rows : List RelayTickRow)
  | restoreOfficialKlines (symbol : String) (durationNs : Int) (rows : List RelayKlineRow)
  | removeClient (clientId : ClientId)

namespace RelayEngine

variable {calendar : String → Option Int}

variable (engine : RelayEngine)

/-- What a call leaves and sends, given that `engine` is kept when it is refused. -/
def orRefused :
    RelayResult (RelayEngine × List DownstreamFrame) → RelayEngine × List DownstreamFrame
  | .ok done => done
  | .error _ => (engine, [])

def step (calendar : String → Option Int) (engine : RelayEngine) :
    RelayInput → RelayEngine × List DownstreamFrame
  | .command clientId command => engine.orRefused (engine.handleCommand clientId command)
  | .tick symbol row => engine.ingestTick symbol row
  | .quote symbol quote => ingestQuote calendar engine symbol quote
  | .officialKline symbol durationNs row =>
    engine.orRefused (engine.ingestOfficialKline symbol durationNs row)
  | .restoreTicks symbol rows => (engine.restoreRollingTicks symbol rows, [])
  | .restoreOfficialKlines symbol durationNs rows =>
    engine.orRefused
      ((engine.restoreOfficialRollingKlines symbol durationNs rows).map fun after => (after, []))
  | .removeClient clientId => (engine.removeClient clientId, [])

/-- The last engine of a run, and all frames it sends. -/
def run (calendar : String → Option Int) (engine : RelayEngine) :
    List RelayInput → RelayEngine × List DownstreamFrame
  | [] => (engine, [])
  | input :: inputs =>
    let stepped := engine.step calendar input
    let later := run calendar stepped.1 inputs
    (later.1, stepped.2 ++ later.2)

theorem run_append (pre post : List RelayInput) :
    run calendar engine (pre ++ post) =
      ((run calendar (run calendar engine pre).1 post).1,
        (run calendar engine pre).2 ++
          (run calendar (run calendar engine pre).1 post).2) := by
  induction pre generalizing engine with
  | nil => rfl
  | cons inp pre ih =>
    rw [cons_append, run, ih]
    simp [run]

theorem run_snoc (ins : List RelayInput) (inp : RelayInput) :
    run calendar engine (ins ++ [inp]) =
      (((run calendar engine ins).1.step calendar inp).1,
        (run calendar engine ins).2 ++
          ((run calendar engine ins).1.step calendar inp).2) := by
  rw [run_append]
  simp [run]

/-! ## The registry along a run -/

variable {engine : RelayEngine}

variable {clientId : ClientId} {chartId : String} {src : SourceKey} {registry : InterestRegistry}

theorem replayCachedKlineFrames_interests (sub : ChartSubscription) (nd : src.symbols.Nodup) :
    (engine.replayCachedKlineFrames sub src).1.interests = engine.interests := by
  by_cases pos : 0 < src.durationNs
  · exact (replayCachedKlineFrames_spec sub nd pos).2.1
  · unfold replayCachedKlineFrames
    rw [if_pos (by omega)]

theorem nodup_sourceOf (cmd : SetChartCommand) :
    (InterestRegistry.sourceOf cmd).symbols.Nodup := nodup_sortDedup _

theorem foldl_ingestOfficialFor_interests (key : KlineSourceKey) (row : RelayKlineRow)
    (srcs : List SourceKey) (st : RelayEngine × List DownstreamFrame) :
    (srcs.foldl (ingestOfficialFor key row) st).1.interests = st.1.interests := by
  induction srcs generalizing st with
  | nil => rfl
  | cons src srcs ih => exact ih _

theorem foldl_recordPersisted_interests (key : KlineSourceKey) (rows : List RelayKlineRow)
    (engine : RelayEngine) : (rows.foldl (fun engine row =>
      engine.recordPersistedOfficialKline key row) engine).interests = engine.interests := by
  induction rows generalizing engine with
  | nil => rfl
  | cons row rows ih => exact ih _

/-- The registry after one input. -/
def interestsAfter (registry : InterestRegistry) : RelayInput → InterestRegistry
  | .command clientId (.subscribeQuote symbols) => registry.setQuotes clientId symbols
  | .command clientId (.setChart command) =>
    if command.symbols = [] then registry.removeChart clientId command.chartId
    else if command.durationNs = 0 ∧ command.symbols.length ≠ 1 then registry
    else if command.durationNs = 0 ∧ maxDownstreamTickViewWidth < command.viewWidth then registry
    else registry.setChart clientId command
  | .removeClient clientId => registry.removeClient clientId
  | _ => registry

theorem interests_step (indexed : engine.interests.Indexed) (inp : RelayInput) :
    (engine.step calendar inp).1.interests = interestsAfter engine.interests inp := by
  cases inp with
  | command clientId command =>
    cases command with
    | subscribeQuote syms => rfl
    | peekMessage => rfl
    | setChart command =>
      dsimp only [step, handleCommand, interestsAfter, setChart]
      split
      · rfl
      · split
        · rfl
        · split
          · rfl
          · split
            · rfl
            · exact replayCachedKlineFrames_interests _ (nodup_sourceOf command)
  | tick sym row =>
    exact (@klineFrames_spec { engine with
      cache := (engine.cache.pushTick sym row).1 } indexed sym row).1.interests
  | quote sym quote =>
    dsimp only [step, ingestQuote]
    split
    · rfl
    · rename_i row _
      exact (@klineFrames_spec { engine with
        cache := (engine.cache.pushQuote sym quote).1 } indexed sym row).1.interests
  | officialKline sym dur row =>
    dsimp only [step, ingestOfficialKline, interestsAfter]
    split
    · rfl
    · exact foldl_ingestOfficialFor_interests _ _ _ _
  | restoreTicks sym rows => rfl
  | restoreOfficialKlines sym dur rows =>
    dsimp only [step, restoreOfficialRollingKlines, interestsAfter]
    split
    · rfl
    · exact foldl_recordPersisted_interests _ _ _
  | removeClient clientId => rfl

theorem indexed_interestsAfter (indexed : registry.Indexed) (inp : RelayInput) :
    (interestsAfter registry inp).Indexed := by
  unfold interestsAfter
  split
  · exact indexed.setQuotes _ _
  · split
    · exact indexed.removeChart _ _
    · split
      · exact indexed
      · split
        · exact indexed
        · exact indexed.setChart _ _
  · exact indexed.removeClient _
  · exact indexed

theorem indexed_run (ins : List RelayInput) (indexed : engine.interests.Indexed) :
    (run calendar engine ins).1.interests.Indexed := by
  induction ins generalizing engine with
  | nil => exact indexed
  | cons inp ins ih =>
    refine ih ?_
    rw [interests_step indexed]
    exact indexed_interestsAfter indexed inp

/-! ## The history of a chart -/

/-- A tick chart that the engine refuses. -/
def RefusesChart (command : SetChartCommand) : Prop :=
  command.symbols ≠ [] ∧ command.durationNs = 0 ∧
    (command.symbols.length ≠ 1 ∨ maxDownstreamTickViewWidth < command.viewWidth)

instance (command : SetChartCommand) : Decidable (RefusesChart command) :=
  inferInstanceAs (Decidable (_ ∧ _ ∧ _))

/-- The input sets or deletes the chart of the client. -/
def Replaces (clientId : ClientId) (chartId : String) : RelayInput → Prop
  | .command other (.setChart command) =>
    other = clientId ∧ command.chartId = chartId ∧ ¬RefusesChart command
  | .removeClient other => other = clientId
  | _ => False

theorem setChart_cases (clientId : ClientId) (cmd : SetChartCommand) :
    (cmd.symbols = [] ∧ engine.setChart clientId cmd =
      .ok ({ engine with
          interests := engine.interests.removeChart clientId cmd.chartId }.pruneInactiveKlineState,
        [⟨clientId, [.chartDeleted cmd.chartId]⟩])) ∨
    (RefusesChart cmd ∧ ∃ ref, engine.setChart clientId cmd = .error ref) ∨
    ((cmd.symbols ≠ [] ∧ ¬RefusesChart cmd) ∧ ∃ sub : ChartSubscription,
      sub.clientId = clientId ∧
      (cmd.durationNs ≤ 0 → ∃ frms, engine.setChart clientId cmd =
          .ok ({ engine with
            interests := engine.interests.setChart clientId cmd }.pruneInactiveKlineState,
            frms) ∧ ∀ alt key row, ¬SendsRow frms alt key row) ∧
      (0 < cmd.durationNs → engine.setChart clientId cmd =
        .ok ({ engine with
            interests := engine.interests.setChart clientId
              cmd }.pruneInactiveKlineState.replayCachedKlineFrames sub
                (InterestRegistry.sourceOf cmd)))) := by
  unfold setChart RefusesChart
  dsimp only
  by_cases dels : cmd.symbols = []
  · rw [if_pos dels]
    exact .inl ⟨dels, rfl⟩
  · rw [if_neg dels]
    by_cases several : cmd.durationNs = 0 ∧ cmd.symbols.length ≠ 1
    · rw [if_pos several]
      exact .inr (.inl ⟨⟨dels, several.1, .inl several.2⟩, _, rfl⟩)
    · rw [if_neg several]
      by_cases wide : cmd.durationNs = 0 ∧ maxDownstreamTickViewWidth < cmd.viewWidth
      · rw [if_pos wide]
        exact .inr (.inl ⟨⟨dels, wide.1, .inr wide.2⟩, _, rfl⟩)
      · rw [if_neg wide]
        refine .inr (.inr ⟨⟨dels, ?_⟩, ⟨clientId, cmd.chartId, preserveSymbolOrder cmd.symbols⟩,
          rfl, fun unsynthesized => ?_, fun pos => ?_⟩)
        · rintro ⟨-, tick, many | more⟩
          · exact several ⟨tick, many⟩
          · exact wide ⟨tick, more⟩
        · have unsynthesized : (InterestRegistry.sourceOf cmd).durationNs ≤ 0 := unsynthesized
          by_cases tick : (InterestRegistry.sourceOf cmd).durationNs = 0
          · rw [if_pos tick]
            refine ⟨_, rfl, fun alt key row => ?_⟩
            rintro ⟨frm, mem, -, car⟩
            rcases mem_append.mp mem with rows | chart
            · obtain ⟨sym, -, rfl⟩ := mem_map.mp rows
              obtain same := mem_singleton.mp car
              unfold tickRowsUpdate at same
              dsimp only at same
              split at same <;> cases same
            · obtain rfl := mem_singleton.mp chart
              obtain same := mem_singleton.mp car
              cases same
          · rw [if_neg tick, replayCachedKlineFrames, if_pos unsynthesized]
            exact ⟨[], rfl, fun alt key row => sendsRow_nil⟩
        · have synth : (InterestRegistry.sourceOf cmd).durationNs ≠ 0 := pos.ne'
          rw [if_neg synth]

theorem interestsAfter_setChart (registry : InterestRegistry) (clientId : ClientId)
    (cmd : SetChartCommand) :
    (cmd.symbols = [] ∧ interestsAfter registry (.command clientId (.setChart cmd)) =
      registry.removeChart clientId cmd.chartId) ∨
    (RefusesChart cmd ∧ interestsAfter registry (.command clientId (.setChart cmd)) = registry) ∨
    ((cmd.symbols ≠ [] ∧ ¬RefusesChart cmd) ∧
      interestsAfter registry (.command clientId (.setChart cmd)) =
        registry.setChart clientId cmd) := by
  unfold interestsAfter RefusesChart
  dsimp only
  by_cases dels : cmd.symbols = []
  · rw [if_pos dels]
    exact .inl ⟨dels, rfl⟩
  · rw [if_neg dels]
    by_cases several : cmd.durationNs = 0 ∧ cmd.symbols.length ≠ 1
    · rw [if_pos several]
      exact .inr (.inl ⟨⟨dels, several.1, .inl several.2⟩, rfl⟩)
    · rw [if_neg several]
      by_cases wide : cmd.durationNs = 0 ∧ maxDownstreamTickViewWidth < cmd.viewWidth
      · rw [if_pos wide]
        exact .inr (.inl ⟨⟨dels, wide.1, .inr wide.2⟩, rfl⟩)
      · rw [if_neg wide]
        refine .inr (.inr ⟨⟨dels, ?_⟩, rfl⟩)
        rintro ⟨-, tick, many | more⟩
        · exact several ⟨tick, many⟩
        · exact wide ⟨tick, more⟩

theorem chartOf_interestsAfter (indexed : registry.Indexed) {inp : RelayInput}
    (alt : ¬Replaces clientId chartId inp) :
    (interestsAfter registry inp).chartOf clientId chartId = registry.chartOf clientId chartId := by
  cases inp with
  | command own command =>
    cases command with
    | subscribeQuote syms => exact InterestRegistry.chartOf_setQuotes syms _ _
    | peekMessage => rfl
    | setChart command =>
      rcases interestsAfter_setChart registry own command with
        ⟨empty, after⟩ | ⟨-, after⟩ | ⟨⟨-, accepted⟩, after⟩
      · rw [after, InterestRegistry.chartOf_removeChart, if_neg]
        exact fun same => alt ⟨same.1.symm, same.2.symm, fun no => no.1 empty⟩
      · rw [after]
      · rw [after, InterestRegistry.chartOf_setChart, if_neg]
        exact fun same => alt ⟨same.1.symm, same.2.symm, accepted⟩
  | removeClient own =>
    rw [interestsAfter, indexed.chartOf_removeClient, if_neg fun same => alt same.symm]
  | tick sym row => rfl
  | quote sym quote => rfl
  | officialKline sym dur row => rfl
  | restoreTicks sym rows => rfl
  | restoreOfficialKlines sym dur rows => rfl

/-- A chart that an input leaves was set by it, if the input replaces the chart. -/
theorem Replaces.sets (indexed : registry.Indexed) {inp : RelayInput}
    (reps : Replaces clientId chartId inp)
    (mapped : (interestsAfter registry inp).chartOf clientId chartId = some source) :
    ∃ command, inp = .command clientId (.setChart command) ∧ command.symbols ≠ [] ∧
      ¬RefusesChart command ∧ command.chartId = chartId ∧
      InterestRegistry.sourceOf command = source := by
  cases inp with
  | command own command =>
    cases command with
    | subscribeQuote syms => exact reps.elim
    | peekMessage => exact reps.elim
    | setChart command =>
      obtain ⟨rfl, rfl, acc⟩ := reps
      rcases interestsAfter_setChart registry own command with
        ⟨-, after⟩ | ⟨refused, -⟩ | ⟨⟨some, -⟩, after⟩
      · rw [after, InterestRegistry.chartOf_removeChart, if_pos ⟨rfl, rfl⟩] at mapped
        cases mapped
      · exact absurd refused acc
      · rw [after, InterestRegistry.chartOf_setChart, if_pos ⟨rfl, rfl⟩] at mapped
        exact ⟨command, rfl, some, acc, rfl, Option.some.inj mapped⟩
  | removeClient own =>
    rw [interestsAfter, indexed.chartOf_removeClient, if_pos reps.symm] at mapped
    cases mapped
  | tick sym row => exact reps.elim
  | quote sym quote => exact reps.elim
  | officialKline sym dur row => exact reps.elim
  | restoreTicks sym rows => exact reps.elim
  | restoreOfficialKlines sym dur rows => exact reps.elim

/-- Every chart there is was set by the last input that replaces it. -/
theorem exists_lastSet (indexed : engine.interests.Indexed)
    (fresh : ∀ clientId chartId, engine.interests.chartOf clientId chartId = none)
    {ins : List RelayInput}
    (mapped : (run calendar engine ins).1.interests.chartOf clientId chartId = some source) :
    ∃ before cmd after, ins = before ++ .command clientId (.setChart cmd) :: after ∧
      cmd.symbols ≠ [] ∧ ¬RefusesChart cmd ∧ cmd.chartId = chartId ∧
      InterestRegistry.sourceOf cmd = source ∧
      ∀ inp ∈ after, ¬Replaces clientId chartId inp := by
  induction ins using List.reverseRecOn with
  | nil => cases (fresh clientId chartId).symm.trans mapped
  | append_singleton ins inp ih =>
    have before := @indexed_run calendar engine ins indexed
    rw [run_snoc] at mapped
    dsimp only at mapped
    rw [interests_step before] at mapped
    by_cases reps : Replaces clientId chartId inp
    · obtain ⟨cmd, rfl, acc⟩ := reps.sets before mapped
      exact ⟨ins, cmd, [], rfl, acc.1, acc.2.1, acc.2.2.1, acc.2.2.2, by simp⟩
    · rw [chartOf_interestsAfter before reps] at mapped
      obtain ⟨pre, cmd, after, rfl, some, acc, nm, same, kept⟩ := ih mapped
      refine ⟨pre, cmd, after ++ [inp], by simp, some, acc, nm, same,
        fun post mem => ?_⟩
      rcases mem_append.mp mem with old | new
      · exact kept post old
      · obtain rfl := mem_singleton.mp new
        exact reps

theorem chartOf_run_of_not_replaces (indexed : engine.interests.Indexed) {ins : List RelayInput}
    (kept : ∀ inp ∈ ins, ¬Replaces clientId chartId inp) :
    (run calendar engine ins).1.interests.chartOf clientId chartId =
      engine.interests.chartOf clientId chartId := by
  induction ins using List.reverseRecOn with
  | nil => rfl
  | append_singleton ins inp ih =>
    have pre := @indexed_run calendar engine ins indexed
    rw [run_snoc]
    dsimp only
    rw [interests_step pre, chartOf_interestsAfter pre
      (kept inp (mem_append_right _ (mem_singleton_self inp)))]
    exact ih fun prior mem => kept prior (mem_append_left _ mem)

end RelayEngine

end Tqsdk
