import Mathlib.Data.List.TakeWhile
import Tqsdk.Lib.Numbered
import Tqsdk.Relay.MarketCache
import Tqsdk.Relay.UpstreamSource

/-!
# Configuration of the relay

What a configuration must meet to be accepted, and the tick charts it makes for a set of symbols:
one chart for each trimmed symbol, under an id made of the symbol's letters and digits.
-/

namespace Tqsdk

open List Result

structure UpstreamInsListLimits where
  warnChars : Option Nat
  maxChars : Option Nat
  deriving DecidableEq

structure BootstrapConfig where
  maxConcurrentRemoteCharts : Nat
  minRemoteRequestInterval : Nat
  perSeriesCooldown : Nat

structure RelayConfig where
  upstreamMarketUrl : String
  downstreamListen : String
  metricsListen : String
  futuresMetadataBatchSize : Nat
  upstreamInsListLimits : UpstreamInsListLimits
  upstreamTickViewWidth : Nat
  tickRingCapacity : Nat
  klineRingCapacity : Nat
  outboundChannelCapacity : Nat
  bootstrap : BootstrapConfig

structure RelayResourceLimits where
  outboundByteCapacity : Nat
  marketCache : MarketCacheLimits

/-- `snapshotUniverse` tells whether there is no universe or its mode is the snapshot mode, and
`rollingCache` is the outcome of the checks of a rolling cache directory. -/
structure RelayRuntimeConfig where
  relay : RelayConfig
  resourceLimits : RelayResourceLimits
  snapshotUniverse : Bool
  prewarmSymbols : List String
  rollingCache : RelayResult Unit

/-! ## Validation -/

namespace RelayConfig

/-- One check of a configuration. -/
def require (holds : Bool) (message : String) : RelayResult Unit :=
  if holds then .ok () else .error (.invalidConfig message)

theorem require_ok {hld : Bool} {msg : String} {res : Unit} :
    require hld msg = .ok res ↔ hld = true := by
  cases hld <;> simp [require]

end RelayConfig

def UpstreamInsListLimits.validate (limits : UpstreamInsListLimits) : RelayResult Unit := do
  RelayConfig.require (limits.warnChars ≠ some 0)
    "upstream_ins_list_limits.warn_chars must be greater than zero"
  RelayConfig.require (limits.maxChars ≠ some 0)
    "upstream_ins_list_limits.max_chars must be greater than zero"

def UpstreamInsListLimits.validateInsListChars (limits : UpstreamInsListLimits) (chars : Nat) :
    RelayResult Unit :=
  match limits.maxChars with
  | some maxChars =>
    if maxChars < chars then
      .error (.invalidConfig ("upstream subscription ins_list length " ++ toString chars ++
        " exceeds hard limit " ++ toString maxChars ++ " chars"))
    else .ok ()
  | none => .ok ()

namespace RelayConfig

def validate (config : RelayConfig) : RelayResult Unit := do
  require (trimmed config.upstreamMarketUrl ≠ "") "upstream_market_url must not be empty"
  require (trimmed config.downstreamListen ≠ "") "downstream_listen must not be empty"
  require (trimmed config.metricsListen ≠ "") "metrics_listen must not be empty"
  config.upstreamInsListLimits.validate
  require (config.futuresMetadataBatchSize ≠ 0)
    "futures_metadata_batch_size must be greater than zero"
  require (config.upstreamTickViewWidth ≠ 0)
    "upstream_tick_view_width must be greater than zero"
  require (config.tickRingCapacity ≠ 0) "tick_ring_capacity must be greater than zero"
  require (config.klineRingCapacity ≠ 0) "kline_ring_capacity must be greater than zero"
  require (config.outboundChannelCapacity ≠ 0)
    "outbound_channel_capacity must be greater than zero"
  require (config.bootstrap.maxConcurrentRemoteCharts ≠ 0)
    "bootstrap.max_concurrent_remote_charts must be greater than zero"
  require (config.bootstrap.minRemoteRequestInterval ≠ 0)
    "bootstrap.min_remote_request_interval must be greater than zero"
  require (config.bootstrap.perSeriesCooldown ≠ 0)
    "bootstrap.per_series_cooldown must be greater than zero"

theorem width_of_validate {config : RelayConfig} (fine : config.validate = .ok ()) :
    0 < config.upstreamTickViewWidth := by
  simp only [validate, bind_eq_ok, require_ok] at fine
  obtain ⟨_, _, _, _, _, _, _, _, _, _, _, wid, _⟩ := fine
  exact Nat.pos_of_ne_zero (of_decide_eq_true wid)

end RelayConfig

def RelayResourceLimits.validate (limits : RelayResourceLimits) (sizes : EntrySizes)
    (tickCapacity : Nat) : RelayResult Unit := do
  RelayConfig.require (limits.outboundByteCapacity ≠ 0)
    "outbound_byte_capacity must be greater than zero"
  RelayConfig.require (limits.marketCache.maxSymbols ≠ 0)
    "market_cache.max_symbols must be greater than zero"
  RelayConfig.require
    (MarketCache.entryReservation sizes tickCapacity "" true ≤ limits.marketCache.maxRetainedBytes)
    ("market_cache.max_retained_bytes must fit one tick ring (" ++
      toString (MarketCache.entryReservation sizes tickCapacity "" true) ++ " bytes)")

namespace RelayRuntimeConfig

def validate (config : RelayRuntimeConfig) (sizes : EntrySizes) : RelayResult Unit := do
  config.relay.validate
  config.resourceLimits.validate sizes config.relay.tickRingCapacity
  RelayConfig.require config.snapshotUniverse
    "futures universe spec is a snapshot-only entry point"
  config.rollingCache

theorem width_of_validate {config : RelayRuntimeConfig} {sizes : EntrySizes}
    (fine : config.validate sizes = .ok ()) : 0 < config.relay.upstreamTickViewWidth := by
  rw [validate, bind_eq_ok] at fine
  obtain ⟨_, relay, _⟩ := fine
  exact RelayConfig.width_of_validate relay

end RelayRuntimeConfig

/-! ## Charts and their ids -/

def RelayConfig.sanitizeChartToken (value : String) : String :=
  String.ofList (value.toList.map fun character =>
    if character.isAlphanum then character else '_')

open RelayConfig (sanitizeChartToken)

def upstreamTickChartId (symbol : String) (viewWidth : Nat) : String :=
  "relay-upstream-tick-" ++ sanitizeChartToken symbol ++ "-" ++ toString viewWidth

def upstreamKlineChartId (symbol : String) (durationNs : Int) (viewWidth : Nat) : String :=
  "relay-upstream-kline-" ++ sanitizeChartToken symbol ++ "-" ++ toString durationNs ++ "-" ++
    toString viewWidth

def upstreamSubscriptionInsListChars (charts : List UpstreamTickChart) : Nat :=
  max ((charts.map UpstreamTickChart.insListChars).foldl max 0)
    (",".intercalate (sortDedup (charts.flatMap UpstreamTickChart.symbols))).utf8ByteSize

namespace RelayRuntimeConfig

/-- The symbols that get a tick chart: those given and those to prewarm. -/
def tickChartSymbols (config : RelayRuntimeConfig) (symbols : List String) : List String :=
  sortDedup (trimmedSymbols (symbols ++ config.prewarmSymbols))

def upstreamTickChartsForSymbols (config : RelayRuntimeConfig) (symbols : List String) :
    RelayResult (List UpstreamTickChart) :=
  if config.tickChartSymbols symbols = [] then .ok []
  else do
    let charts ← (config.tickChartSymbols symbols).mapM fun symbol =>
      UpstreamTickChart.new (upstreamTickChartId symbol config.relay.upstreamTickViewWidth)
        [symbol] config.relay.upstreamTickViewWidth
    config.relay.upstreamInsListLimits.validateInsListChars
      (upstreamSubscriptionInsListChars charts)
    pure charts

end RelayRuntimeConfig

/-! ### Ids tell apart what their parts tell apart -/

theorem dash_not_mem_sanitizeChartToken (val : String) :
    '-' ∉ (sanitizeChartToken val).toList := by
  rw [sanitizeChartToken, String.toList_ofList, mem_map]
  rintro ⟨character, -, same⟩
  split at same
  · rename_i letter
    rw [same] at letter
    exact absurd letter (by decide)
  · exact absurd same (by decide)

variable (symbol : String)

theorem toList_upstreamTickChartId (view : Nat) :
    (upstreamTickChartId symbol view).toList =
      "relay-upstream-tick-".toList ++ ((sanitizeChartToken symbol).toList ++
        ("-".toList ++ (toString view).toList)) := by
  unfold upstreamTickChartId
  rw [String.toList_append, String.toList_append, String.toList_append, append_assoc, append_assoc]

theorem upstreamTickChartId_inj {symbol symbol' : String} {view : Nat} :
    upstreamTickChartId symbol view = upstreamTickChartId symbol' view ↔
      sanitizeChartToken symbol = sanitizeChartToken symbol' := by
  constructor
  · intro same
    have text := congrArg String.toList same
    rw [toList_upstreamTickChartId, toList_upstreamTickChartId] at text
    exact String.toList_inj.mp (append_cancel_right (append_cancel_left text))
  · intro same
    unfold upstreamTickChartId
    rw [same]

theorem dash_not_mem_toString {num : Int} (nn : 0 ≤ num) :
    '-' ∉ (toString num).toList := by
  obtain ⟨num, rfl⟩ := Int.eq_ofNat_of_zero_le nn
  intro mem
  have digits : '-' ∈ Nat.toDigits 10 num := Nat.toList_repr (n := num) ▸ mem
  have digit : '-'.isDigit = true := Nat.isDigit_of_mem_toDigits (by decide) (by decide) digits
  exact absurd digit (by decide)

theorem toList_upstreamKlineChartId (dur : Int) (view : Nat) :
    (upstreamKlineChartId symbol dur view).toList =
      "relay-upstream-kline-".toList ++ ((sanitizeChartToken symbol).toList ++
        '-' :: ((toString dur).toList ++ '-' :: (toString view).toList)) := by
  have dash : "-".toList = ['-'] := rfl
  unfold upstreamKlineChartId
  rw [String.toList_append, String.toList_append, String.toList_append, String.toList_append,
    String.toList_append, dash, append_assoc, append_assoc, append_assoc,
    append_assoc, singleton_append, singleton_append]

theorem upstreamKlineChartId_inj {symbol symbol' : String} {dur durationNs' : Int}
    (nonneg : 0 ≤ dur) (nonneg' : 0 ≤ durationNs') {viewWidth viewWidth' : Nat} :
    upstreamKlineChartId symbol dur viewWidth =
        upstreamKlineChartId symbol' durationNs' viewWidth' ↔
      sanitizeChartToken symbol = sanitizeChartToken symbol' ∧ dur = durationNs' ∧
        viewWidth = viewWidth' := by
  constructor
  · intro same
    have text := congrArg String.toList same
    rw [toList_upstreamKlineChartId, toList_upstreamKlineChartId] at text
    obtain ⟨symbols, rest⟩ := Numbered.append_cons_injective (dash_not_mem_sanitizeChartToken
      symbol) (dash_not_mem_sanitizeChartToken symbol') (append_cancel_left text)
    obtain ⟨durs, widths⟩ := Numbered.append_cons_injective
      (dash_not_mem_toString nonneg) (dash_not_mem_toString nonneg') rest
    exact ⟨String.toList_inj.mp symbols, Numbered.toString_int_injective (String.toList_inj.mp
      durs), Numbered.toString_injective (String.toList_inj.mp widths)⟩
  · rintro ⟨symbols, durs, widths⟩
    unfold upstreamKlineChartId
    rw [symbols, durs, widths]

/-- Both begin with their kind. -/
theorem upstreamTickChartId_ne_kline (symbol symbol' : String) (dur : Int)
    (viewWidth viewWidth' : Nat) :
    upstreamTickChartId symbol viewWidth ≠
      upstreamKlineChartId symbol' dur viewWidth' := by
  intro same
  have text := congrArg (List.take 20) (congrArg String.toList same)
  rw [toList_upstreamTickChartId, toList_upstreamKlineChartId,
    take_append_of_le_length (by decide),
    take_append_of_le_length (by decide)] at text
  exact absurd text (by decide)

theorem trimmed_ne_empty {text : String} {hd : Char} {rest : List Char}
    (begs : text.toList = hd :: rest) (vis : OrderLifecycle.isWhitespace hd = false) :
    trimmed text ≠ "" := by
  intro blank
  have chars := congrArg String.toList blank
  rw [trimmed, String.toList_ofList, begs, OrderLifecycle.trim, dropWhile_cons_of_neg (by
    rw [vis]
    exact Bool.false_ne_true)] at chars
  have none : (List.dropWhile OrderLifecycle.isWhitespace (hd :: rest).reverse) = [] :=
    reverse_eq_nil_iff.mp chars
  have hid := dropWhile_eq_nil_iff.mp none hd (by simp)
  rw [vis] at hid
  cases hid

theorem named_upstreamTickChartId (view : Nat) : trimmed (upstreamTickChartId symbol view) ≠ "" :=
  trimmed_ne_empty (toList_upstreamTickChartId symbol view) (by decide)

theorem named_upstreamKlineChartId (dur : Int) (view : Nat) :
    trimmed (upstreamKlineChartId symbol dur view) ≠ "" :=
  trimmed_ne_empty (toList_upstreamKlineChartId symbol dur view) (by decide)

/-! ### The tick charts -/

namespace RelayRuntimeConfig

variable {config : RelayRuntimeConfig} {symbols : List String} {symbol : String}

theorem mem_tickChartSymbols : symbol ∈ config.tickChartSymbols symbols ↔
    (∃ raw, (raw ∈ symbols ∨ raw ∈ config.prewarmSymbols) ∧ trimmed raw = symbol) ∧
      symbol ≠ "" := by
  rw [tickChartSymbols, mem_sortDedup, mem_trimmedSymbols]
  simp only [mem_append]

theorem new_tickChart (vis : 0 < config.relay.upstreamTickViewWidth)
    (mem : symbol ∈ config.tickChartSymbols symbols) : ∃ ch,
      UpstreamTickChart.new (upstreamTickChartId symbol config.relay.upstreamTickViewWidth) [symbol]
        config.relay.upstreamTickViewWidth = .ok ch := by
  obtain ⟨⟨raw, -, rfl⟩, some_text⟩ := mem_tickChartSymbols.mp mem
  rcases UpstreamTickChart.newWithDuration_singleton
      (upstreamTickChartId (trimmed raw) config.relay.upstreamTickViewWidth) (trimmed raw) 0
      config.relay.upstreamTickViewWidth (named_upstreamTickChartId _ _) with
    ⟨ch, made, -⟩ | ⟨error, -, refused⟩
  · exact ⟨ch, made⟩
  · rw [trimmed_trimmed] at refused
    exact absurd ⟨le_refl 0, vis, some_text⟩ refused

theorem is_tickChart {ch : UpstreamTickChart} (mem : symbol ∈ config.tickChartSymbols symbols)
    (made : UpstreamTickChart.new (upstreamTickChartId symbol config.relay.upstreamTickViewWidth)
      [symbol] config.relay.upstreamTickViewWidth = .ok ch) :
    UpstreamTickChart.Is (upstreamTickChartId symbol config.relay.upstreamTickViewWidth) symbol 0
      config.relay.upstreamTickViewWidth ch := by
  obtain ⟨⟨raw, -, rfl⟩, -⟩ := mem_tickChartSymbols.mp mem
  rcases UpstreamTickChart.newWithDuration_singleton
      (upstreamTickChartId (trimmed raw) config.relay.upstreamTickViewWidth) (trimmed raw) 0
      config.relay.upstreamTickViewWidth (named_upstreamTickChartId _ _) with
    ⟨other, made', is_chart, -⟩ | ⟨error, failed, -⟩
  · cases made'.symm.trans made
    rw [trimmed_trimmed] at is_chart
    exact is_chart
  · cases failed.symm.trans made

section

variable {charts : List UpstreamTickChart}
  (ok : config.upstreamTickChartsForSymbols symbols = .ok charts)

include ok

theorem exists_upstreamTickChart (inLeft : symbol ∈ config.tickChartSymbols symbols) :
    ∃ ch ∈ charts,
      UpstreamTickChart.Is (upstreamTickChartId symbol config.relay.upstreamTickViewWidth) symbol 0
        config.relay.upstreamTickViewWidth ch := by
  unfold upstreamTickChartsForSymbols at ok
  split at ok
  · rename_i none
    rw [none] at inLeft
    cases inLeft
  · obtain ⟨made, trav, ok⟩ := of_bind ok
    obtain ⟨_, -, same⟩ := of_bind ok
    obtain rfl : made = charts := Except.ok.inj same
    obtain ⟨ch, mem, new⟩ := mem_of_mapM trav inLeft
    exact ⟨ch, mem, is_tickChart inLeft new⟩

theorem mem_upstreamTickCharts {ch : UpstreamTickChart} :
    ch ∈ charts ↔ ∃ symbol ∈ config.tickChartSymbols symbols,
      UpstreamTickChart.Is (upstreamTickChartId symbol config.relay.upstreamTickViewWidth) symbol 0
        config.relay.upstreamTickViewWidth ch := by
  constructor
  · intro mem
    unfold upstreamTickChartsForSymbols at ok
    split at ok
    · cases ok
      cases mem
    · obtain ⟨made, trav, ok⟩ := of_bind ok
      obtain ⟨_, -, same⟩ := of_bind ok
      obtain rfl : made = charts := Except.ok.inj same
      obtain ⟨symbol, seen, new⟩ := of_mem_mapM trav mem
      exact ⟨symbol, seen, is_tickChart seen new⟩
  · rintro ⟨symbol, seen, is_chart⟩
    obtain ⟨alt, mem, is_other⟩ := exists_upstreamTickChart ok seen
    rw [is_chart.eq is_other]
    exact mem

end

theorem exists_upstreamTickCharts (vis : 0 < config.relay.upstreamTickViewWidth)
    (unlimited : config.relay.upstreamInsListLimits.maxChars = none) (symbols : List String) :
    ∃ charts, config.upstreamTickChartsForSymbols symbols = .ok charts := by
  unfold upstreamTickChartsForSymbols
  split
  · exact ⟨[], rfl⟩
  · obtain ⟨charts, made⟩ := exists_mapM fun symbol mem =>
      @new_tickChart config symbols symbol vis mem
    rw [made, ok_bind, UpstreamInsListLimits.validateInsListChars, unlimited]
    exact ⟨charts, rfl⟩

end RelayRuntimeConfig

end Tqsdk
