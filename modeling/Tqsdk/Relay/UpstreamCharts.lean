import Mathlib.Data.List.Dedup
import Tqsdk.Runtime.OrderLifecycle

/-!
# Upstream charts of the relay

A chart the relay asks its market source for: one symbol, a duration (0 for ticks) and a view
width under a chart id.  `newWithDuration` is the only way to make one, so a chart carries that
its symbol is there.  The tick charts of a set of symbols are named after the symbols.
-/

namespace Tqsdk

inductive RelayError
  | invalidConfig (message : String)
  | invalidProtocol (message : String)
  | unsupportedCommand (aid : String)
  | capacity (message : String)
  | transport (message : String)
  | internal (message : String)
  deriving DecidableEq, Repr

abbrev RelayResult := Except RelayError

/-- `str::trim`. -/
def trimmed (text : String) : String := String.ofList (OrderLifecycle.trim text.toList)

/-- The trimmed symbols that are not empty. -/
def trimmedSymbols (symbols : List String) : List String :=
  (symbols.map trimmed).filter fun symbol => !symbol.isEmpty

/-- `sort` followed by `dedup`. -/
def sortDedup (symbols : List String) : List String :=
  (symbols.insertionSort fun left right => left ≤ right).dedup

@[simp] theorem mem_sortDedup {sym : String} {syms : List String} :
    sym ∈ sortDedup syms ↔ sym ∈ syms := by
  rw [sortDedup, List.mem_dedup, List.mem_insertionSort]

theorem nodup_sortDedup (syms : List String) : (sortDedup syms).Nodup :=
  List.nodup_dedup _

theorem trimmed_trimmed (text : String) : trimmed (trimmed text) = trimmed text := by
  rw [trimmed, trimmed, String.toList_ofList, OrderLifecycle.trim_trim]

theorem mem_trimmedSymbols {sym : String} {syms : List String} :
    sym ∈ trimmedSymbols syms ↔ (∃ raw ∈ syms, trimmed raw = sym) ∧ sym ≠ "" := by
  simp [trimmedSymbols]

/-! ## Charts -/

structure UpstreamTickChart where
  chartId : String
  symbols : List String
  durationNs : Int
  viewWidth : Nat
  named : trimmed chartId ≠ ""
  visible : 0 ≤ durationNs ∧ 0 < viewWidth
  single : ∃ symbol, symbols = [symbol] ∧ symbol ≠ ""
  deriving DecidableEq

namespace UpstreamTickChart

def newWithDuration (chartId : String) (symbols : List String) (durationNs : Int)
    (viewWidth : Nat) : RelayResult UpstreamTickChart :=
  if named : trimmed chartId = "" then
    .error (.invalidConfig "upstream tick chart_id must not be empty")
  else if hidden : durationNs < 0 ∨ viewWidth = 0 then
    .error (.invalidConfig "upstream chart duration must be nonnegative and view_width must be greater than zero")
  else
    match listed : sortDedup (trimmedSymbols symbols) with
    | [symbol] =>
      .ok {
        chartId, symbols := [symbol], durationNs, viewWidth, named
        visible := by omega
        single := ⟨symbol, rfl, (mem_trimmedSymbols.mp (mem_sortDedup.mp (by
          rw [listed]
          exact List.mem_singleton_self symbol))).2⟩ }
    | _ => .error (.invalidConfig "upstream tick chart requires exactly one symbol")

def new (chartId : String) (symbols : List String) (viewWidth : Nat) :
    RelayResult UpstreamTickChart :=
  newWithDuration chartId symbols 0 viewWidth

variable (chart : UpstreamTickChart)

def insList : String := ",".intercalate chart.symbols

def insListChars : Nat := chart.insList.utf8ByteSize

theorem insList_ne_empty : chart.insList ≠ "" := by
  obtain ⟨sym, seen, some_text⟩ := chart.single
  rw [insList, seen]
  exact some_text

/-- The chart shows one symbol under this id. -/
structure Is (chartId symbol : String) (durationNs : Int) (viewWidth : Nat)
    (chart : UpstreamTickChart) : Prop where
  chartId : chart.chartId = chartId
  symbols : chart.symbols = [symbol]
  durationNs : chart.durationNs = durationNs
  viewWidth : chart.viewWidth = viewWidth

theorem Is.eq {cht sym : String} {dur : Int} {view : Nat} {chart alt : UpstreamTickChart}
    (left : Is cht sym dur view chart) (right : Is cht sym dur view alt) : chart = alt := by
  cases chart
  cases alt
  obtain ⟨rfl, rfl, rfl, rfl⟩ := left
  obtain ⟨rfl, rfl, rfl, rfl⟩ := right
  rfl

theorem sortDedup_trimmedSymbols_singleton (sym : String) :
    sortDedup (trimmedSymbols [sym]) = if trimmed sym = "" then [] else [trimmed sym] := by
  by_cases blank : trimmed sym = ""
  · simp [sortDedup, trimmedSymbols, blank]
  · simp [sortDedup, trimmedSymbols, blank]

theorem newWithDuration_singleton (cht sym : String) (dur : Int) (view : Nat)
    (named : trimmed cht ≠ "") :
    (∃ chart, newWithDuration cht [sym] dur view = .ok chart ∧
      Is cht (trimmed sym) dur view chart ∧
      0 ≤ dur ∧ 0 < view ∧ trimmed sym ≠ "") ∨
    (∃ error, newWithDuration cht [sym] dur view = .error error ∧
      ¬(0 ≤ dur ∧ 0 < view ∧ trimmed sym ≠ "")) := by
  have seen := sortDedup_trimmedSymbols_singleton sym
  unfold newWithDuration
  rw [dif_neg named]
  by_cases hid : dur < 0 ∨ view = 0
  · rw [dif_pos hid]
    exact .inr ⟨_, rfl, by omega⟩
  · rw [dif_neg hid]
    by_cases blank : trimmed sym = ""
    · rw [if_pos blank] at seen
      refine .inr ⟨.invalidConfig "upstream tick chart requires exactly one symbol", ?_,
        fun vis => vis.2.2 blank⟩
      split
      · rename_i alt here
        rw [seen] at here
        cases here
      · rfl
    · rw [if_neg blank] at seen
      split
      · rename_i alt here
        rw [seen] at here
        cases here
        exact .inl ⟨_, rfl, ⟨rfl, rfl, rfl, rfl⟩, by omega, by omega, blank⟩
      · rename_i none_other
        exact absurd seen (none_other (trimmed sym))

end UpstreamTickChart

end Tqsdk
