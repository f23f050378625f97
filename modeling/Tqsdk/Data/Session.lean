import Tqsdk.Data.TradingDay

/-!
# Session templates

`aggregation/session.rs`: the windows in which a product trades, as offsets from 18:00 CST.  The
cycle a timestamp is located in always has 24 hours, other than the trading day that spans a
weekend.
-/

namespace Tqsdk

open Result

structure KlineSessionWindow where
  startOffsetNs : Int
  endOffsetNs : Int
  deriving DecidableEq

/-- The windows pass the checks of `KlineSessionTemplate::new`: they are nonempty, in order and
do not overlap. -/
structure KlineSessionTemplate where
  snapshotHash : String
  windows : List KlineSessionWindow
  increasing : ∀ window ∈ windows, 0 ≤ window.startOffsetNs ∧
    window.startOffsetNs < window.endOffsetNs
  ordered : windows.Pairwise fun left right => left.endOffsetNs ≤ right.startOffsetNs

theorem KlineSessionTemplate.increasing_nil : ∀ window ∈ ([] : List KlineSessionWindow),
    0 ≤ window.startOffsetNs ∧ window.startOffsetNs < window.endOffsetNs :=
  List.forall_mem_nil _

theorem KlineSessionTemplate.ordered_nil : ([] : List KlineSessionWindow).Pairwise
    fun left right => left.endOffsetNs ≤ right.startOffsetNs := .nil

structure KlineSessionPosition where
  tradingDayStartNs : Int
  tradingDayEndNs : Int
  windowStartNs : Int
  windowEndNs : Int
  deriving DecidableEq

def cstSessionAnchorUtcNs : Int := 10 * nanosPerHour

def checkedOr (value : Int) (message : String) : Except DataError Int :=
  match I64.checked value with
  | some value => .ok value
  | none => .error (.validation message)

theorem checkedOr_eq_ok {val res : Int} {msg : String}
    (ok : checkedOr val msg = .ok res) : res = val ∧ I64.InRange val := by
  unfold checkedOr at ok
  split at ok
  · rename_i hit
    obtain ⟨mem, rfl⟩ := I64.checked_eq_some.mp hit
    exact ⟨(Except.ok.inj ok).symm, mem⟩
  · cases ok

def canonicalSessionCycleBounds (timestampNs : Int) : Except DataError (Int × Int) := do
  let shifted ← checkedOr (timestampNs - cstSessionAnchorUtcNs) "kline session timestamp underflow"
  let dayStartNs ← checkedOr (shifted / nanosPerDay * nanosPerDay)
    "kline session timestamp overflow"
  let tradingDayStartNs ← checkedOr (dayStartNs + cstSessionAnchorUtcNs)
    "kline session timestamp overflow"
  let tradingDayEndNs ← checkedOr (tradingDayStartNs + nanosPerDay)
    "kline session end timestamp overflow"
  return (tradingDayStartNs, tradingDayEndNs)

/-- The loop of `locate` over the windows. -/
def locateWindow (timestampNs tradingDayStartNs tradingDayEndNs : Int) :
    List KlineSessionWindow → Except DataError (Option KlineSessionPosition)
  | [] => .ok none
  | window :: rest => do
      let windowStartNs ← checkedOr (tradingDayStartNs + window.startOffsetNs)
        "kline session window start timestamp overflow"
      let windowEndNs ← checkedOr (tradingDayStartNs + window.endOffsetNs)
        "kline session window end timestamp overflow"
      if tradingDayEndNs < windowEndNs then
        .error (.validation "kline session window exceeds its canonical trading day")
      else if windowStartNs ≤ timestampNs ∧ timestampNs < windowEndNs then
        return some ⟨tradingDayStartNs, tradingDayEndNs, windowStartNs, windowEndNs⟩
      else locateWindow timestampNs tradingDayStartNs tradingDayEndNs rest

def KlineSessionTemplate.locate (session : KlineSessionTemplate) (timestampNs : Int) :
    Except DataError (Option KlineSessionPosition) := do
  let (tradingDayStartNs, tradingDayEndNs) ← canonicalSessionCycleBounds timestampNs
  if session.windows.isEmpty then
    return some ⟨tradingDayStartNs, tradingDayEndNs, tradingDayStartNs, tradingDayEndNs⟩
  else locateWindow timestampNs tradingDayStartNs tradingDayEndNs session.windows

/-! ## Cycles -/

/-- The 18:00 CST at or before a timestamp. -/
def cycleStart (timestampNs : Int) : Int :=
  (timestampNs - cstSessionAnchorUtcNs) / nanosPerDay * nanosPerDay + cstSessionAnchorUtcNs

section

variable {timestampNs : Int} {bds : Int × Int}
  (ok : canonicalSessionCycleBounds timestampNs = .ok bds)

include ok

theorem canonicalSessionCycleBounds_eq_ok :
    bds = (cycleStart timestampNs, cycleStart timestampNs + nanosPerDay) := by
  obtain ⟨shifted, isShifted, ok⟩ := of_bind ok
  obtain ⟨dayStart, isDayStart, ok⟩ := of_bind ok
  obtain ⟨lo, isStart, ok⟩ := of_bind ok
  obtain ⟨stop, isStop, ok⟩ := of_bind ok
  obtain ⟨rfl, -⟩ := checkedOr_eq_ok isShifted
  obtain ⟨rfl, -⟩ := checkedOr_eq_ok isDayStart
  obtain ⟨rfl, -⟩ := checkedOr_eq_ok isStart
  obtain ⟨rfl, -⟩ := checkedOr_eq_ok isStop
  exact (Except.ok.inj ok).symm

theorem canonicalSessionCycleBounds_inRange :
    I64.InRange bds.1 ∧ I64.InRange bds.2 := by
  obtain ⟨shifted, -, ok⟩ := of_bind ok
  obtain ⟨dayStart, -, ok⟩ := of_bind ok
  obtain ⟨lo, isStart, ok⟩ := of_bind ok
  obtain ⟨stop, isStop, ok⟩ := of_bind ok
  obtain ⟨rfl, startInside⟩ := checkedOr_eq_ok isStart
  obtain ⟨rfl, stopInside⟩ := checkedOr_eq_ok isStop
  rw [← Except.ok.inj ok]
  exact ⟨startInside, stopInside⟩

end

theorem cycleStart_le (timestampNs : Int) : cycleStart timestampNs ≤ timestampNs := by
  unfold cycleStart cstSessionAnchorUtcNs nanosPerHour nanosPerDay nanosPerSecond
  omega

theorem lt_cycleStart_add (timestampNs : Int) :
    timestampNs < cycleStart timestampNs + nanosPerDay := by
  unfold cycleStart cstSessionAnchorUtcNs nanosPerHour nanosPerDay nanosPerSecond
  omega

theorem locateWindow_inside {timestampNs startNs hi : Int} {wnds : List KlineSessionWindow}
    {at_ : KlineSessionPosition} (ok : locateWindow timestampNs startNs hi wnds = .ok (some at_)) :
    ∃ wnd ∈ wnds, at_.windowStartNs = startNs + wnd.startOffsetNs ∧
      at_.windowEndNs = startNs + wnd.endOffsetNs ∧
      at_.tradingDayStartNs = startNs ∧ at_.tradingDayEndNs = hi ∧
      at_.windowStartNs ≤ timestampNs ∧ timestampNs < at_.windowEndNs ∧
      at_.windowEndNs ≤ hi := by
  induction wnds with
  | nil => cases ok
  | cons wnd rest ih =>
    obtain ⟨lo, isStart, ok⟩ := of_bind ok
    obtain ⟨stop, isStop, ok⟩ := of_bind ok
    obtain ⟨rfl, -⟩ := checkedOr_eq_ok isStart
    obtain ⟨rfl, -⟩ := checkedOr_eq_ok isStop
    split at ok
    · cases ok
    · rename_i fits
      split at ok
      · rename_i inn
        obtain rfl := Option.some.inj (Except.ok.inj ok)
        exact ⟨wnd, List.mem_cons_self, rfl, rfl, rfl, rfl, inn.1, inn.2, not_lt.mp fits⟩
      · obtain ⟨hit, mem, facts⟩ := ih ok
        exact ⟨hit, List.mem_cons_of_mem _ mem, facts⟩

/-! ## Located timestamps -/

namespace KlineSessionTemplate

variable {session : KlineSessionTemplate} {timestampNs preNs : Int}
  {at_ prior : KlineSessionPosition}

section

variable (loc : session.locate timestampNs = .ok (some at_))

include loc

theorem locate_inRange :
    I64.InRange (cycleStart timestampNs) ∧ I64.InRange (cycleStart timestampNs + nanosPerDay) := by
  obtain ⟨bds, isBounds, -⟩ := of_bind loc
  have mem := canonicalSessionCycleBounds_inRange isBounds
  rw [canonicalSessionCycleBounds_eq_ok isBounds] at mem
  exact mem

theorem locate_eq_ok :
    at_.tradingDayStartNs = cycleStart timestampNs ∧
      at_.tradingDayEndNs = cycleStart timestampNs + nanosPerDay ∧
      ((session.windows = [] ∧ at_.windowStartNs = cycleStart timestampNs ∧
          at_.windowEndNs = cycleStart timestampNs + nanosPerDay) ∨
        ∃ wnd ∈ session.windows,
          at_.windowStartNs = cycleStart timestampNs + wnd.startOffsetNs ∧
            at_.windowEndNs = cycleStart timestampNs + wnd.endOffsetNs ∧
            at_.windowStartNs ≤ timestampNs ∧ timestampNs < at_.windowEndNs ∧
            at_.windowEndNs ≤ cycleStart timestampNs + nanosPerDay) := by
  obtain ⟨⟨startNs, hi⟩, bds, loc⟩ := of_bind loc
  obtain ⟨rfl, rfl⟩ := Prod.mk.inj (canonicalSessionCycleBounds_eq_ok bds)
  dsimp only at loc
  split at loc
  · rename_i emp
    obtain rfl := Option.some.inj (Except.ok.inj loc)
    exact ⟨rfl, rfl, .inl ⟨List.isEmpty_iff.mp emp, rfl, rfl⟩⟩
  · obtain ⟨wnd, mem, lo, stop, day, dayEnd, inn⟩ := locateWindow_inside loc
    exact ⟨day, dayEnd, .inr ⟨wnd, mem, lo, stop, inn⟩⟩

/-- A located timestamp is in its window, and the window in its cycle. -/
theorem locate_inside :
    cycleStart timestampNs ≤ at_.windowStartNs ∧ at_.windowStartNs ≤ timestampNs ∧
      timestampNs < at_.windowEndNs ∧
      at_.windowEndNs ≤ cycleStart timestampNs + nanosPerDay := by
  obtain ⟨-, -, ⟨-, lo, stop⟩ | ⟨wnd, mem, lo, stop, inn⟩⟩ := locate_eq_ok loc
  · have pre := cycleStart_le timestampNs
    have post := lt_cycleStart_add timestampNs
    omega
  · have pos := (session.increasing wnd mem).1
    omega

end

theorem windows_apart {left right : KlineSessionWindow} (lMem : left ∈ session.windows)
    (rMem : right ∈ session.windows) :
    left = right ∨ left.endOffsetNs ≤ right.startOffsetNs ∨
      right.endOffsetNs ≤ left.startOffsetNs := by
  refine List.Pairwise.forall_of_forall_of_flip
    (R := fun left right => left = right ∨ left.endOffsetNs ≤ right.startOffsetNs ∨
      right.endOffsetNs ≤ left.startOffsetNs) ?_ ?_ ?_ lMem rMem
  · exact fun wnd _ => .inl rfl
  · exact session.ordered.imp fun pre => .inr (.inl pre)
  · exact session.ordered.imp fun pre => .inr (.inr pre)

theorem cycleStart_apart (ord : preNs ≤ timestampNs) :
    cycleStart preNs = cycleStart timestampNs ∨
      cycleStart preNs + nanosPerDay ≤ cycleStart timestampNs := by
  unfold cycleStart cstSessionAnchorUtcNs nanosPerHour nanosPerDay nanosPerSecond
  omega

/-- Timestamps in order are in one window or in windows in order. -/
theorem locate_ordered (isEarlier : session.locate preNs = .ok (some prior))
    (loc : session.locate timestampNs = .ok (some at_)) (ord : preNs ≤ timestampNs) :
    prior = at_ ∨ prior.windowEndNs ≤ at_.windowStartNs := by
  have leftInside := locate_inside isEarlier
  have rightInside := locate_inside loc
  rcases cycleStart_apart ord with same | before
  · obtain ⟨day, dayEnd, window⟩ := locate_eq_ok isEarlier
    obtain ⟨day', dayEnd', window'⟩ := locate_eq_ok loc
    rw [same] at day dayEnd window
    rcases window with ⟨emp, start, stop⟩ | ⟨window, mem, start, stop, -⟩
    · rcases window' with ⟨-, start', stop'⟩ | ⟨window', member', -⟩
      · refine .inl ?_
        cases prior
        cases at_
        simp_all only
      · rw [emp] at member'
        cases member'
    · rcases window' with ⟨emp, -⟩ | ⟨window', member', start', stop', -⟩
      · rw [emp] at mem
        cases mem
      · rcases windows_apart mem member' with rfl | first | second
        · refine .inl ?_
          cases prior
          cases at_
          simp_all only
        · right
          omega
        · omega
  · right
    omega

end KlineSessionTemplate

end Tqsdk
