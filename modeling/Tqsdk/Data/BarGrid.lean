import Tqsdk.Data.HistoryRequest
import Tqsdk.Data.Session

/-!
# The grid of derived bars

The bounds of a bar and of the source range it needs, in `backtest_history/planner.rs`.  Bars of
more than a minute lie on the grid of their trading day, others on that of their session window.
-/

namespace Tqsdk

def klineBarGridBounds (durationNs : Int) (position : KlineSessionPosition) : Int × Int :=
  if minuteKlineDurationNs < durationNs then (position.tradingDayStartNs, position.tradingDayEndNs)
  else (position.windowStartNs, position.windowEndNs)

def expandedBarStart (timestampNs durationNs : Int) (session : KlineSessionTemplate) :
    Except DataError Int := do
  match ← session.locate timestampNs with
  | none => return timestampNs
  | some position =>
    let (gridStartNs, _) := klineBarGridBounds durationNs position
    let offset ← checkedOr (timestampNs - gridStartNs) "kline source start predates its bar grid"
    let bucket ← checkedOr (offset / durationNs * durationNs) "kline source bucket overflow"
    checkedOr (gridStartNs + bucket) "kline source start overflow"

def expandedBarEnd (endNs durationNs : Int) (session : KlineSessionTemplate) :
    Except DataError Int := do
  let lastNs := I64.saturated (endNs - 1)
  match ← session.locate lastNs with
  | none => return endNs
  | some position =>
    let (_, gridEndNs) := klineBarGridBounds durationNs position
    let startNs ← expandedBarStart lastNs durationNs session
    let stop ← checkedOr (startNs + durationNs) "kline source end overflow"
    return min stop gridEndNs

def expandMinuteSourceRange (requested : Int × Int) (durationNs : Int)
    (session : KlineSessionTemplate) : Except DataError (Int × Int) := do
  let startNs ← expandedBarStart requested.1 durationNs session
  let endNs ← expandedBarEnd requested.2 durationNs session
  return (min startNs requested.1, max endNs requested.2)

theorem expandMinuteSourceRange_le {asked wide : Int × Int} {dur : Int} {ses : KlineSessionTemplate}
    (ok : expandMinuteSourceRange asked dur ses = .ok wide) :
    wide.1 ≤ asked.1 ∧ asked.2 ≤ wide.2 := by
  obtain ⟨lo, -, ok⟩ := Result.of_bind ok
  obtain ⟨hi, -, ok⟩ := Result.of_bind ok
  obtain rfl := Except.ok.inj ok
  exact ⟨min_le_right _ _, le_max_right _ _⟩

end Tqsdk
