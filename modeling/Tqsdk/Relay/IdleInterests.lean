import Tqsdk.Lib.Deadlines
import Tqsdk.Relay.Interests
import Tqsdk.Relay.RelayConfig

/-!
# Upstream charts for idle and active interests

The pump keeps the symbols and official K-line sources it has observed, each for a while after it
was last observed active, and makes one upstream chart for each.

* `IdleUpstreamInterests.desiredCharts_iff`: the charts can be made and do not conflict if and only
  if the sources show something and no two symbols share the id of their chart.
-/

namespace Tqsdk

open List Result

open RelayConfig (sanitizeChartToken)

/-- Seconds in nanoseconds. -/
def seconds (count : Nat) : Nat := count * 1000000000

def upstreamIdleUnsubscribeAfter : Nat := seconds 600

structure IdleUpstreamInterests where
  baselineSymbols : List String
  symbols : List (String × Option Nat)
  klineSources : List (SourceKey × Option Nat)

namespace IdleUpstreamInterests

def withBaseline (symbols : List String) : IdleUpstreamInterests := ⟨symbols, [], []⟩

def observeActive (interests : IdleUpstreamInterests) (symbols : List String)
    (klineSources : List SourceKey) (now : Nat) : IdleUpstreamInterests :=
  { interests with
    symbols := Deadlines.observe (symbols ++ interests.baselineSymbols)
      (now + upstreamIdleUnsubscribeAfter) interests.symbols
    klineSources := Deadlines.observe klineSources (now + upstreamIdleUnsubscribeAfter)
      interests.klineSources }

/-- Drop what has been idle long enough, and tell whether anything was. -/
def expire (interests : IdleUpstreamInterests) (now : Nat) : IdleUpstreamInterests × Bool :=
  let kept : IdleUpstreamInterests := { interests with
    symbols := Deadlines.expire now interests.symbols
    klineSources := Deadlines.expire now interests.klineSources }
  (kept, decide (kept.symbols.length ≠ interests.symbols.length ∨
    kept.klineSources.length ≠ interests.klineSources.length))

end IdleUpstreamInterests

namespace InterestRegistry

/-- Active symbols that want an upstream tick chart. -/
def desiredUpstreamTickChartSymbols (registry : InterestRegistry) : List String :=
  sortDedup (registry.chartSymbols ++ registry.subscribedSymbols)

/-- Active sources that want an official K-line chart. -/
def desiredUpstreamKlineSources (registry : InterestRegistry) : List SourceKey :=
  registry.sources.filter fun source =>
    decide (0 < source.durationNs) && decide (source.symbols.length = 1)

end InterestRegistry

/-- The chart of a source of one symbol. -/
def SourceKey.upstreamChart (source : SourceKey) : RelayResult UpstreamTickChart :=
  UpstreamTickChart.newWithDuration
    (upstreamKlineChartId (source.symbols.headD "") source.durationNs source.viewWidth)
    [source.symbols.headD ""] source.durationNs source.viewWidth

namespace IdleUpstreamInterests

/-- The charts that a reconciliation asks for. -/
def charts (interests : IdleUpstreamInterests) (config : RelayRuntimeConfig) :
    RelayResult (List UpstreamTickChart) := do
  let tickCharts ← config.upstreamTickChartsForSymbols (interests.symbols.map Prod.fst)
  let klineCharts ← interests.klineSources.mapM fun entry => entry.1.upstreamChart
  pure (tickCharts ++ klineCharts)

/-- The charts as reconciliation records them, under their ids. -/
def desiredCharts (interests : IdleUpstreamInterests) (config : RelayRuntimeConfig) :
    RelayResult ChartMap := do
  UpstreamSource.desiredCharts (← interests.charts config)

end IdleUpstreamInterests

/-! ## K-line charts -/

theorem SourceKey.exists_upstreamChart {src : SourceKey} (nn : 0 ≤ src.durationNs) :
    (∃ ch, src.upstreamChart = .ok ch) ↔
      0 < src.viewWidth ∧ trimmed (src.symbols.headD "") ≠ "" := by
  rcases UpstreamTickChart.newWithDuration_singleton
      (upstreamKlineChartId (src.symbols.headD "") src.durationNs src.viewWidth)
      (src.symbols.headD "") src.durationNs src.viewWidth
      (named_upstreamKlineChartId _ _ _) with
    ⟨ch, made, -, -, vis, some_text⟩ | ⟨error, failed, refused⟩
  · exact ⟨fun _ => ⟨vis, some_text⟩, fun _ => ⟨ch, made⟩⟩
  · constructor
    · rintro ⟨ch, made⟩
      cases failed.symm.trans made
    · exact fun vis => absurd ⟨nn, vis⟩ refused

theorem SourceKey.is_upstreamChart {src : SourceKey} {ch : UpstreamTickChart}
    (made : src.upstreamChart = .ok ch) :
    UpstreamTickChart.Is
      (upstreamKlineChartId (src.symbols.headD "") src.durationNs src.viewWidth)
      (trimmed (src.symbols.headD "")) src.durationNs src.viewWidth ch := by
  rcases UpstreamTickChart.newWithDuration_singleton
      (upstreamKlineChartId (src.symbols.headD "") src.durationNs src.viewWidth)
      (src.symbols.headD "") src.durationNs src.viewWidth
      (named_upstreamKlineChartId _ _ _) with
    ⟨other, made', is_chart, -⟩ | ⟨error, failed, -⟩
  · cases made'.symm.trans made
    exact is_chart
  · cases failed.symm.trans made

namespace IdleUpstreamInterests

variable {interests : IdleUpstreamInterests} {config : RelayRuntimeConfig}

/-- The symbols with a tick chart. -/
def tickChartSymbols (interests : IdleUpstreamInterests) (config : RelayRuntimeConfig) :
    List String :=
  config.tickChartSymbols (interests.symbols.map Prod.fst)

/-- The sources with an official chart. -/
def sources (interests : IdleUpstreamInterests) : List SourceKey :=
  interests.klineSources.map Prod.fst

variable {charts : List UpstreamTickChart}

theorem mem_charts (ok : interests.charts config = .ok charts) {ch : UpstreamTickChart} :
    ch ∈ charts ↔
      (∃ sym ∈ interests.tickChartSymbols config,
        UpstreamTickChart.Is (upstreamTickChartId sym config.relay.upstreamTickViewWidth)
          sym 0 config.relay.upstreamTickViewWidth ch) ∨
      ∃ src ∈ interests.sources, UpstreamTickChart.Is
        (upstreamKlineChartId (src.symbols.headD "") src.durationNs src.viewWidth)
        (trimmed (src.symbols.headD "")) src.durationNs src.viewWidth ch := by
  obtain ⟨tks, madeTicks, ok⟩ := of_bind ok
  obtain ⟨klines, madeKlines, same⟩ := of_bind ok
  obtain rfl : tks ++ klines = charts := Except.ok.inj same
  rw [mem_append, RelayRuntimeConfig.mem_upstreamTickCharts madeTicks]
  refine or_congr Iff.rfl ⟨fun mem => ?_, ?_⟩
  · obtain ⟨ent, seen, made⟩ := of_mem_mapM madeKlines mem
    exact ⟨ent.1, mem_map_of_mem seen, SourceKey.is_upstreamChart made⟩
  · rintro ⟨src, seen, is_chart⟩
    obtain ⟨ent, mem, rfl⟩ := mem_map.mp seen
    obtain ⟨alt, inn, made⟩ := mem_of_mapM madeKlines mem
    rw [is_chart.eq (SourceKey.is_upstreamChart made)]
    exact inn

/-- What the pump observes: sources of one symbol and a positive duration. -/
def Observed (interests : IdleUpstreamInterests) : Prop :=
  ∀ source ∈ interests.sources, 0 < source.durationNs ∧ source.symbols.length = 1

theorem exists_charts (vis : 0 < config.relay.upstreamTickViewWidth)
    (unlimited : config.relay.upstreamInsListLimits.maxChars = none) (obs : interests.Observed) :
    (∃ charts, interests.charts config = .ok charts) ↔
      ∀ src ∈ interests.sources,
        0 < src.viewWidth ∧ trimmed (src.symbols.headD "") ≠ "" := by
  have nn : ∀ src ∈ interests.sources, 0 ≤ src.durationNs := fun src seen => (obs src seen).1.le
  constructor
  · rintro ⟨charts, ok⟩ src seen
    obtain ⟨tks, -, ok⟩ := of_bind ok
    obtain ⟨klines, madeKlines, -⟩ := of_bind ok
    obtain ⟨ent, mem, rfl⟩ := mem_map.mp seen
    obtain ⟨ch, -, made⟩ := mem_of_mapM madeKlines mem
    exact (SourceKey.exists_upstreamChart (nn ent.1 seen)).mp ⟨ch, made⟩
  · intro showing
    obtain ⟨tks, madeTicks⟩ := RelayRuntimeConfig.exists_upstreamTickCharts vis unlimited
      (interests.symbols.map Prod.fst)
    obtain ⟨klines, madeKlines⟩ := exists_mapM fun (ent : SourceKey × Option Nat)
        (mem : ent ∈ interests.klineSources) =>
      (SourceKey.exists_upstreamChart (nn ent.1 (mem_map_of_mem mem))).mpr
        (showing ent.1 (mem_map_of_mem mem))
    exact ⟨tks ++ klines, by rw [charts, madeTicks, ok_bind, madeKlines]; rfl⟩

/-- Every source shows something, and no two interests share a chart id without sharing the
chart. -/
structure Separate (interests : IdleUpstreamInterests) (config : RelayRuntimeConfig) : Prop where
  visible : ∀ source ∈ interests.sources,
    0 < source.viewWidth ∧ trimmed (source.symbols.headD "") ≠ ""
  symbols : ∀ symbol ∈ interests.tickChartSymbols config,
    ∀ other ∈ interests.tickChartSymbols config,
      sanitizeChartToken symbol = sanitizeChartToken other → symbol = other
  sources : ∀ source ∈ interests.sources, ∀ other ∈ interests.sources,
    source.durationNs = other.durationNs → source.viewWidth = other.viewWidth →
    sanitizeChartToken (source.symbols.headD "") = sanitizeChartToken (other.symbols.headD "") →
    trimmed (source.symbols.headD "") = trimmed (other.symbols.headD "")

theorem exists_tickChart (ok : interests.charts config = .ok charts) {sym : String}
    (inLeft : sym ∈ interests.tickChartSymbols config) :
    ∃ ch ∈ charts, UpstreamTickChart.Is
      (upstreamTickChartId sym config.relay.upstreamTickViewWidth) sym 0
      config.relay.upstreamTickViewWidth ch := by
  obtain ⟨tks, madeTicks, ok⟩ := of_bind ok
  obtain ⟨klines, -, same⟩ := of_bind ok
  obtain rfl : tks ++ klines = charts := Except.ok.inj same
  obtain ⟨ch, mem, is_chart⟩ := RelayRuntimeConfig.exists_upstreamTickChart madeTicks inLeft
  exact ⟨ch, mem_append_left _ mem, is_chart⟩

theorem exists_klineChart (ok : interests.charts config = .ok charts) {src : SourceKey}
    (inLeft : src ∈ interests.sources) : ∃ ch ∈ charts, UpstreamTickChart.Is
      (upstreamKlineChartId (src.symbols.headD "") src.durationNs src.viewWidth)
      (trimmed (src.symbols.headD "")) src.durationNs src.viewWidth ch := by
  obtain ⟨tks, -, rest⟩ := of_bind ok
  obtain ⟨klines, madeKlines, same⟩ := of_bind rest
  obtain rfl : tks ++ klines = charts := Except.ok.inj same
  obtain ⟨ent, mem, rfl⟩ := mem_map.mp inLeft
  obtain ⟨ch, inn, made⟩ := mem_of_mapM madeKlines mem
  exact ⟨ch, mem_append_right _ inn, SourceKey.is_upstreamChart made⟩

/-- The charts of observed interests can be made and recorded if and only if the interests are
separate. -/
theorem desiredCharts_iff (vis : 0 < config.relay.upstreamTickViewWidth)
    (unlimited : config.relay.upstreamInsListLimits.maxChars = none) (obs : interests.Observed) :
    (∃ want, interests.desiredCharts config = .ok want) ↔ interests.Separate config := by
  have nn : ∀ src ∈ interests.sources, 0 ≤ src.durationNs := fun src listed => (obs src listed).1.le
  constructor
  · rintro ⟨want, ok⟩
    obtain ⟨charts, made, ok⟩ := of_bind ok
    have agr := UpstreamSource.exists_desiredCharts.mp ⟨want, ok⟩
    refine ⟨(exists_charts vis unlimited obs).mp ⟨charts, made⟩, fun sym listed alt listed' same =>
      ?_, fun src listed alt listed' durs widths same => ?_⟩
    · obtain ⟨chart, mem, is_chart⟩ := exists_tickChart made listed
      obtain ⟨chart', member', is_chart'⟩ := exists_tickChart made listed'
      have equal := agr chart mem chart' member' (by
        rw [is_chart.chartId, is_chart'.chartId]
        exact upstreamTickChartId_inj.mpr same)
      exact singleton_inj.mp (is_chart.symbols.symm.trans (equal ▸ is_chart'.symbols))
    · obtain ⟨chart, mem, is_chart⟩ := exists_klineChart made listed
      obtain ⟨chart', member', is_chart'⟩ := exists_klineChart made listed'
      have equal := agr chart mem chart' member' (by
        rw [is_chart.chartId, is_chart'.chartId]
        exact (upstreamKlineChartId_inj (nn src listed) (nn alt listed')).mpr ⟨same, durs, widths⟩)
      exact singleton_inj.mp (is_chart.symbols.symm.trans (equal ▸ is_chart'.symbols))
  · intro separate
    obtain ⟨charts, made⟩ := (exists_charts vis unlimited obs).mpr separate.visible
    have agr : ∀ chart ∈ charts, ∀ alt ∈ charts, chart.chartId = alt.chartId →
        chart = alt := by
      intro chart mem alt member' same
      rcases (mem_charts made).mp mem with ⟨sym, listed, left⟩ | ⟨src, listed, left⟩ <;>
      rcases (mem_charts made).mp member' with ⟨symbol', listed', right⟩ | ⟨source', listed', right⟩
      · rw [left.chartId, right.chartId, upstreamTickChartId_inj] at same
        obtain rfl := separate.symbols sym listed symbol' listed' same
        exact left.eq right
      · rw [left.chartId, right.chartId] at same
        exact absurd same (upstreamTickChartId_ne_kline _ _ _ _ _)
      · rw [left.chartId, right.chartId] at same
        exact absurd same.symm (upstreamTickChartId_ne_kline _ _ _ _ _)
      · rw [left.chartId, right.chartId,
          upstreamKlineChartId_inj (nn src listed) (nn source' listed')] at same
        obtain ⟨tokens, durs, widths⟩ := same
        have trimmedSame := separate.sources src listed source' listed' durs widths tokens
        refine left.eq ⟨right.chartId.trans ?_, ?_, ?_, ?_⟩
        · exact ((upstreamKlineChartId_inj (nn src listed) (nn source' listed')).mpr
            ⟨tokens, durs, widths⟩).symm
        · rw [trimmedSame]
          exact right.symbols
        · rw [durs]
          exact right.durationNs
        · rw [widths]
          exact right.viewWidth
    obtain ⟨want, note⟩ := UpstreamSource.exists_desiredCharts.mpr agr
    exact ⟨want, by rw [desiredCharts, made, ok_bind, note]⟩

end IdleUpstreamInterests

end Tqsdk
