import Tqsdk.Relay.EngineRuns
import Tqsdk.Relay.IdleInterests

/-!
# The upstream pump

Client tasks change the interests of the engine and then signal; the pump takes a signal, observes
what is active and reconciles the upstream charts.  The signal is one slot that says nothing but
that something may have changed.
-/

namespace Tqsdk

open List Result

/-- `taken` is set between taking a signal and observing the engine, and `owed` counts the updates
whose signal is still to be sent. -/
structure UpstreamPump where
  registry : InterestRegistry
  owed : Nat
  signal : Bool
  taken : Bool
  idle : IdleUpstreamInterests
  link : UpstreamLink

inductive PumpInput
  | command (clientId : ClientId) (command : DownstreamCommand)
  | removeClients (clientIds : List ClientId)
  | request
  | sendSignal
  | takeSignal
  | observe
  | sweep
  | refresh

/-- A new source, with the quotes of the symbols to prewarm and no chart. -/
def RelayRuntimeConfig.connectUpstream (config : RelayRuntimeConfig) :
    RelayResult UpstreamLink := do
  let charts ← config.upstreamTickChartsForSymbols []
  if charts = [] then .ok .connected
  else
    let call : UpstreamCall := .subscribeQuoteSymbols (charts.flatMap UpstreamTickChart.symbols)
    UpstreamLink.connected.result (fun _ => .arrives) call
    pure (UpstreamLink.connected.after (fun _ => .arrives) call)

namespace UpstreamPump

/-- The command is accepted and is not a `peek_message`. -/
def signals : DownstreamCommand → Bool
  | .subscribeQuote _ => true
  | .setChart command => !decide (RelayEngine.RefusesChart command)
  | .peekMessage => false

def observed (pump : UpstreamPump) (now : Nat) : IdleUpstreamInterests :=
  pump.idle.observeActive pump.registry.desiredUpstreamTickChartSymbols
    pump.registry.desiredUpstreamKlineSources now

/-- Reconcile the upstream charts with the interests; every send arrives. -/
def reconcile (config : RelayRuntimeConfig) (pump : UpstreamPump) : RelayResult UpstreamPump := do
  let charts ← pump.idle.charts config
  pump.link.result (fun _ => .arrives) (.reconcileTickCharts charts)
  pure { pump with link := pump.link.after (fun _ => .arrives) (.reconcileTickCharts charts) }

/-- One step; it fails where the pump exits with an error.  An input that is not possible changes
nothing. -/
def step (config : RelayRuntimeConfig) (now : Nat) (pump : UpstreamPump) :
    PumpInput → RelayResult UpstreamPump
  | .command clientId command =>
    .ok { pump with
      registry := RelayEngine.interestsAfter pump.registry (.command clientId command)
      owed := pump.owed + (signals command).toNat }
  | .removeClients clientIds =>
    .ok { pump with
      registry := clientIds.foldl InterestRegistry.removeClient pump.registry
      owed := pump.owed + 1 }
  | .request => .ok { pump with owed := pump.owed + 1 }
  | .sendSignal =>
    .ok (if pump.owed = 0 then pump else { pump with owed := pump.owed - 1, signal := true })
  | .takeSignal =>
    .ok (if pump.signal && !pump.taken then { pump with signal := false, taken := true }
      else pump)
  | .observe =>
    if pump.taken then
      ({ pump with taken := false, idle := pump.observed now } : UpstreamPump).reconcile config
    else .ok pump
  | .sweep =>
    if pump.taken then .ok pump
    else if (pump.idle.expire now).2 then
      ({ pump with idle := (pump.idle.expire now).1 } : UpstreamPump).reconcile config
    else .ok { pump with idle := (pump.idle.expire now).1 }
  | .refresh =>
    if pump.taken then .ok pump
    else
      match config.connectUpstream with
      | .error _ => .ok pump
      | .ok link => ({ pump with link } : UpstreamPump).reconcile config

/-- The pump has a source and owes itself a first observation. -/
def start (link : UpstreamLink) : UpstreamPump where
  registry := .empty
  owed := 0
  signal := true
  taken := false
  idle := .withBaseline (link.source.tickCharts.flatMap fun entry => entry.2.symbols)
  link

/-- A run of steps, each at its time. -/
def run (config : RelayRuntimeConfig) (pump : UpstreamPump) (inputs : List (Nat × PumpInput)) :
    RelayResult UpstreamPump :=
  inputs.foldlM (fun pump input => step config input.1 pump input.2) pump

variable {now : Nat} {after : UpstreamPump} {input : PumpInput}

theorem run_snoc {config : RelayRuntimeConfig} {hd : UpstreamPump}
    {ins : List (Nat × PumpInput)} {input : Nat × PumpInput} :
    run config hd (ins ++ [input]) = .ok after ↔
      ∃ pump, run config hd ins = .ok pump ∧ step config input.1 pump input.2 = .ok after := by
  unfold run
  rw [foldlM_append, bind_eq_ok]
  refine exists_congr fun pump => and_congr_right fun _ => ?_
  rw [foldlM_cons, bind_eq_ok]
  constructor
  · rintro ⟨last, stepped, same⟩
    rw [stepped]
    exact same
  · exact fun stepped => ⟨after, stepped, rfl⟩

variable {config : RelayRuntimeConfig} {pump : UpstreamPump}

/-! ## What a step reconciles -/

/-- The interests that a step reconciles the upstream charts with. -/
def reconciled (config : RelayRuntimeConfig) (now : Nat) (pump : UpstreamPump) :
    PumpInput → Option IdleUpstreamInterests
  | .observe => if pump.taken then some (pump.observed now) else none
  | .sweep =>
    if !pump.taken && (pump.idle.expire now).2 then some (pump.idle.expire now).1 else none
  | .refresh =>
    if pump.taken then none
    else
      match config.connectUpstream with
      | .error _ => none
      | .ok _ => some pump.idle
  | _ => none

theorem reconcile_ok_iff :
    (∃ after, pump.reconcile config = .ok after) ↔
      ∃ want, pump.idle.desiredCharts config = .ok want := by
  unfold reconcile IdleUpstreamInterests.desiredCharts
  cases made : pump.idle.charts config with
  | error error =>
    constructor
    · rintro ⟨after, ok⟩
      cases ok
    · rintro ⟨want, ok⟩
      cases ok
  | ok chts =>
    rw [ok_bind, ok_bind]
    rw [← @UpstreamSource.reconcileTickCharts_arrives pump.link.source chts pump.link.peer]
    constructor
    · rintro ⟨after, ok⟩
      obtain ⟨_, sent, -⟩ := of_bind ok
      exact sent
    · intro sent
      have sent : pump.link.result (fun _ => .arrives) (.reconcileTickCharts chts) = .ok () := sent
      rw [sent, ok_bind]
      exact ⟨_, rfl⟩

/-- The pump goes on if and only if the charts that the step reconciles can be made and do not
conflict. -/
theorem step_ok_iff :
    (∃ after, step config now pump input = .ok after) ↔
      ∀ idle, pump.reconciled config now input = some idle →
        ∃ want, idle.desiredCharts config = .ok want := by
  have free : ∀ {after : UpstreamPump}, (∃ other, (.ok after : RelayResult UpstreamPump) =
      .ok other) ↔ ∀ idle, (none : Option IdleUpstreamInterests) = some idle →
        ∃ want, idle.desiredCharts config = .ok want :=
    fun {after} => ⟨fun _ _ none => absurd none (Option.some_ne_none _).symm, fun _ => ⟨after, rfl⟩⟩
  have bnd : ∀ {after : UpstreamPump}, (∃ other, after.reconcile config = .ok other) ↔
      ∀ idle, some after.idle = some idle → ∃ want, idle.desiredCharts config = .ok want := by
    intro after
    rw [reconcile_ok_iff]
    exact ⟨fun made idle same => Option.some.inj same ▸ made, fun every => every _ rfl⟩
  cases input with
  | command cid command => exact free
  | removeClients clientIds => exact free
  | request => exact free
  | sendSignal => exact free
  | takeSignal => exact free
  | observe =>
    rw [step, reconciled]
    split
    · exact bnd
    · exact free
  | sweep =>
    rw [step, reconciled]
    cases pump.taken with
    | true => exact free
    | false =>
      cases (pump.idle.expire now).2 with
      | true => exact bnd
      | false => exact free
  | refresh =>
    rw [step, reconciled]
    split
    · exact free
    · cases config.connectUpstream with
      | error error => exact free
      | ok link => exact bnd

/-! ## Observed interests -/

theorem observed_observed (obs : pump.idle.Observed) :
    (pump.observed now).Observed := by
  intro src seen
  obtain ⟨ent, mem, rfl⟩ := mem_map.mp seen
  have got := OrdMap.get?_ne_none_of_mem mem
  rw [UpstreamPump.observed, IdleUpstreamInterests.observeActive] at got
  dsimp only at got
  rw [Deadlines.get?_observe] at got
  split at got
  · rename_i act
    have want := (mem_filter.mp act).2
    rw [Bool.and_eq_true, decide_eq_true_eq, decide_eq_true_eq] at want
    exact want
  · have held : OrdMap.get? ent.1 pump.idle.klineSources ≠ none := by
      intro none
      rw [none] at got
      exact got rfl
    obtain ⟨due, old⟩ := Option.ne_none_iff_exists'.mp held
    exact obs ent.1 (mem_map.mpr ⟨_, OrdMap.mem_of_get? old, rfl⟩)

theorem observed_expire (obs : pump.idle.Observed) :
    (pump.idle.expire now).1.Observed := by
  intro src seen
  obtain ⟨ent, mem, rfl⟩ := mem_map.mp seen
  exact obs ent.1 (mem_map_of_mem (mem_of_mem_filter mem))

theorem reconcile_ok (ok : pump.reconcile config = .ok after) :
    ∃ chts, pump.idle.charts config = .ok chts ∧
      pump.link.result (fun _ => .arrives) (.reconcileTickCharts chts) = .ok () ∧
      after = { pump with
        link := pump.link.after (fun _ => .arrives) (.reconcileTickCharts chts) } := by
  obtain ⟨chts, made, ok⟩ := of_bind ok
  obtain ⟨_, sent, same⟩ := of_bind ok
  exact ⟨chts, made, sent, (Except.ok.inj same).symm⟩

theorem idle_reconcile (ok : pump.reconcile config = .ok after) :
    after.idle = pump.idle := by
  obtain ⟨chts, -, -, rfl⟩ := reconcile_ok ok
  rfl

theorem observed_step {now : Nat} {input : PumpInput} {after : UpstreamPump}
    (obs : pump.idle.Observed) (ok : step config now pump input = .ok after) :
    after.idle.Observed := by
  cases input with
  | command cid command =>
    cases ok
    exact obs
  | removeClients clientIds =>
    cases ok
    exact obs
  | request =>
    cases ok
    exact obs
  | sendSignal =>
    cases ok
    split <;> exact obs
  | takeSignal =>
    cases ok
    split <;> exact obs
  | observe =>
    rw [step] at ok
    split at ok
    · rw [idle_reconcile ok]
      exact observed_observed obs
    · cases ok
      exact obs
  | sweep =>
    rw [step] at ok
    split at ok
    · cases ok
      exact obs
    · split at ok
      · rw [idle_reconcile ok]
        exact observed_expire obs
      · cases ok
        exact observed_expire obs
  | refresh =>
    rw [step] at ok
    split at ok
    · cases ok
      exact obs
    · split at ok
      · cases ok
        exact obs
      · rw [idle_reconcile ok]
        exact obs

theorem observed_run {link : UpstreamLink} {ins : List (Nat × PumpInput)}
    (ok : run config (start link) ins = .ok pump) : pump.idle.Observed := by
  induction ins using List.reverseRecOn generalizing pump with
  | nil =>
    cases ok
    exact nofun
  | append_singleton ins input ih =>
    obtain ⟨pre, prior, step⟩ := run_snoc.mp ok
    exact observed_step (ih prior) step

theorem reconciled_observed {idle : IdleUpstreamInterests} (obs : pump.idle.Observed)
    (same : pump.reconciled config now input = some idle) :
    idle.Observed := by
  unfold reconciled at same
  split at same
  · split at same
    · cases same
      exact observed_observed obs
    · cases same
  · split at same
    · cases same
      exact observed_expire obs
    · cases same
  · split at same
    · cases same
    · split at same
      · cases same
      · cases same
        exact obs
  · cases same

/-- Wherever a run of accepted commands, signals and pump steps has led, the next step lets the
pump go on if and only if the interests it reconciles show something and are told apart by the
letters and digits of their symbols. -/
theorem pump_goes_on_iff {sizes : EntrySizes} (valid : config.validate sizes = .ok ())
    (unlimited : config.relay.upstreamInsListLimits.maxChars = none) {link : UpstreamLink}
    {inputs : List (Nat × PumpInput)} (reached : run config (start link) inputs = .ok pump) (now : Nat) (input : PumpInput) :
    (∃ after, step config now pump input = .ok after) ↔
      ∀ idle, pump.reconciled config now input = some idle → idle.Separate config := by
  rw [step_ok_iff]
  refine forall_congr' fun idle => forall_congr' fun same => ?_
  exact IdleUpstreamInterests.desiredCharts_iff (RelayRuntimeConfig.width_of_validate valid)
    unlimited (reconciled_observed (observed_run reached) same)

/-- The default configuration, with nothing to prewarm. -/
def defaultRuntimeConfig : RelayRuntimeConfig where
  relay := {
    upstreamMarketUrl := "wss://openmd.shinnytech.com/t/md/front/mobile"
    downstreamListen := "127.0.0.1:7788"
    metricsListen := "127.0.0.1:7789"
    futuresMetadataBatchSize := 500
    upstreamInsListLimits := ⟨some 32000, none⟩
    upstreamTickViewWidth := 10000
    tickRingCapacity := 200000
    klineRingCapacity := 10000
    outboundChannelCapacity := 1024
    bootstrap := ⟨4, 250000000, 30000000000⟩ }
  resourceLimits := ⟨8388608, ⟨512, 536870912⟩⟩
  snapshotUniverse := true
  prewarmSymbols := []
  rollingCache := .ok ()

/-- One client subscribes to two symbols that differ in a dot only. -/
def lookalikeSymbols : List (Nat × PumpInput) :=
  [(0, .command 1 (.subscribeQuote ["SHFE.au2602", "SHFE_au2602"])), (0, .sendSignal),
    (0, .takeSignal)]

theorem pump_goes_on_iff_lookalike : ∃ pump,
    run defaultRuntimeConfig (start .connected) lookalikeSymbols = .ok pump ∧
      ((∃ after, step defaultRuntimeConfig 0 pump .observe = .ok after) ↔
        ∀ idle, pump.reconciled defaultRuntimeConfig 0 .observe = some idle →
          idle.Separate defaultRuntimeConfig) := by
  have done : (run defaultRuntimeConfig (start .connected) lookalikeSymbols).isOk = true := by
    decide +kernel
  cases rch : run defaultRuntimeConfig (start .connected) lookalikeSymbols with
  | error error =>
    rw [rch] at done
    cases done
  | ok pump =>
    have fine : defaultRuntimeConfig.validate ⟨24, 300, 32, 48⟩ = .ok () := by decide +kernel
    exact ⟨pump, rfl, pump_goes_on_iff fine rfl rch 0 .observe⟩

/-- One client sets a K-line chart that shows nothing. -/
def hiddenChart : List (Nat × PumpInput) :=
  [(0, .command 1 (.setChart ⟨"chart", ["SHFE.au2602"], 60000000000, 0⟩)), (0, .sendSignal),
    (0, .takeSignal)]

theorem commands_stop_pump :
    defaultRuntimeConfig.validate ⟨24, 300, 32, 48⟩ = .ok () ∧
    defaultRuntimeConfig.relay.upstreamInsListLimits.maxChars = none ∧
    (run defaultRuntimeConfig (start .connected) lookalikeSymbols).bind
      (fun pump => (step defaultRuntimeConfig 0 pump .observe).map fun _ => ()) =
        .error (UpstreamSource.conflicting "relay-upstream-tick-SHFE_au2602-10000") ∧
    (run defaultRuntimeConfig (start .connected) hiddenChart).bind
      (fun pump => (step defaultRuntimeConfig 0 pump .observe).map fun _ => ()) =
        .error (.invalidConfig
          "upstream chart duration must be nonnegative and view_width must be greater than zero") := by
  refine ⟨by decide +kernel, rfl, by decide +kernel, by decide +kernel⟩

end UpstreamPump

end Tqsdk
