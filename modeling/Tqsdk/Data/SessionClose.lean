import Tqsdk.Data.MinuteCoverage

/-!
# Freezing a checkpoint after the close

`finalize_provisional_after_session_close` counts the close of the last window from the start of
the trading day, `locate` counts windows from 18:00 of the evening before.  The two agree unless
the trading day starts before a weekend: then the day is taken for closed on Saturday, and what
the checkpoint holds by Monday is frozen as the whole day.
-/

namespace Tqsdk

open List Result

/-- No instant of the trading day that lies in a session is left at `instant`. -/
def KlineSessionTemplate.ClosedBy (session : KlineSessionTemplate) (day instant : Int) : Prop :=
  ∀ timestampNs position, dayEndNs (previousTradingDay day) ≤ timestampNs →
    timestampNs < dayEndNs day → session.locate timestampNs = .ok (some position) →
    timestampNs < instant

/-- Where `locate` places the close of a window that ends at an offset: in the last cycle. -/
def windowCloseNs (day endOffsetNs : Int) : Int := dayEndNs day - nanosPerDay + endOffsetNs

/-- Where the finalizer places it: counted from the start of the trading day. -/
def countedCloseNs (day endOffsetNs : Int) : Int :=
  dayEndNs (previousTradingDay day) + endOffsetNs

/-! ## The close of the last window -/

theorem checkedOr_ok {val : Int} (inR : I64.InRange val) (msg : String) :
    checkedOr val msg = .ok val := by
  unfold checkedOr
  rw [I64.checked_eq_some.mpr ⟨inR, rfl⟩]

theorem canonicalSessionCycleBounds_ok {ts : Int}
    (lo : I64.InRange (cycleStart ts - cstSessionAnchorUtcNs))
    (stop : I64.InRange (cycleStart ts + nanosPerDay)) :
    canonicalSessionCycleBounds ts = .ok (cycleStart ts, cycleStart ts + nanosPerDay) := by
  have pre := cycleStart_le ts
  have post := lt_cycleStart_add ts
  have anc : 0 ≤ cstSessionAnchorUtcNs := by decide
  have day : 0 ≤ nanosPerDay := by decide
  have shifted : (ts - cstSessionAnchorUtcNs) / nanosPerDay * nanosPerDay =
      cycleStart ts - cstSessionAnchorUtcNs := by
    unfold cycleStart
    omega
  unfold I64.InRange at lo stop
  unfold canonicalSessionCycleBounds
  rw [checkedOr_ok ⟨by omega, by omega⟩, ok_bind, shifted,
    checkedOr_ok ⟨by omega, by omega⟩, ok_bind, sub_add_cancel,
    checkedOr_ok ⟨by omega, by omega⟩, ok_bind, checkedOr_ok ⟨by omega, by omega⟩]
  rfl

/-- The loop finds a window when the windows lie in the cycle and one of them is open. -/
theorem locateWindow_isSome {ts startNs : Int} {wnds : List KlineSessionWindow}
    (mem : ∀ wnd ∈ wnds, 0 ≤ wnd.startOffsetNs ∧
      wnd.startOffsetNs < wnd.endOffsetNs ∧ wnd.endOffsetNs ≤ nanosPerDay)
    (lo : I64.InRange startNs) (stop : I64.InRange (startNs + nanosPerDay))
    {wnd : KlineSessionWindow} (member : wnd ∈ wnds)
    (live : startNs + wnd.startOffsetNs ≤ ts ∧ ts < startNs + wnd.endOffsetNs) :
    ∃ at_, locateWindow ts startNs (startNs + nanosPerDay) wnds = .ok (some at_) := by
  have btw : ∀ off, 0 ≤ off → off ≤ nanosPerDay → ∀ msg,
      checkedOr (startNs + off) msg = .ok (startNs + off) := by
    intro off nn lt msg
    unfold I64.InRange at lo stop
    have inR : I64.InRange (startNs + off) := ⟨by omega, by omega⟩
    exact checkedOr_ok inR msg
  induction wnds with
  | nil => cases member
  | cons hd rest ih =>
    obtain ⟨nn, incr, lt⟩ := mem hd mem_cons_self
    unfold locateWindow
    rw [btw _ nn (by omega), ok_bind, btw _ (by omega) lt,
      ok_bind, if_neg (by omega)]
    split
    · exact ⟨_, rfl⟩
    · rename_i shut
      rcases mem_cons.mp member with rfl | member
      · exact absurd live shut
      · exact ih (fun wnd member => mem wnd (mem_cons_of_mem _ member)) member

namespace KlineSessionTemplate

variable {session : KlineSessionTemplate} {last : KlineSessionWindow} {day instant : Int}

/-- After the close of the last window the day is closed. -/
theorem closedBy_of_close (isLast : session.windows.getLast? = some last)
    (shut : windowCloseNs day last.endOffsetNs ≤ instant) : session.ClosedBy day instant := by
  intro ts at_ lo stop loc
  by_contra late
  unfold windowCloseNs at shut
  exact session.locate_after_close isLast (by omega) stop at_ loc

/-- A day that is closed has passed the close of its last window: the instant before it is in a
session. -/
theorem close_le_of_closedBy (isLast : session.windows.getLast? = some last)
    (inn : ∀ wnd ∈ session.windows, wnd.endOffsetNs ≤ nanosPerDay)
    (lo : I64.InRange (dayEndNs day - 2 * nanosPerDay)) (stop : I64.InRange (dayEndNs day))
    (fromStart : dayEndNs (previousTradingDay day) ≤ dayEndNs day - nanosPerDay)
    (shut : session.ClosedBy day instant) :
    windowCloseNs day last.endOffsetNs ≤ instant := by
  have lastMem := mem_of_getLast? isLast
  have incr := session.increasing last lastMem
  have lt := inn last lastMem
  have cycle : cycleStart (windowCloseNs day last.endOffsetNs - 1) =
      dayEndNs day - nanosPerDay :=
    cycleStart_eq (by unfold windowCloseNs; omega) (by unfold windowCloseNs; omega)
  have anc : 0 ≤ cstSessionAnchorUtcNs ∧ cstSessionAnchorUtcNs ≤ nanosPerDay := by decide
  have startInside : I64.InRange (dayEndNs day - nanosPerDay) := by
    unfold I64.InRange at *
    omega
  have anch : I64.InRange (dayEndNs day - nanosPerDay - cstSessionAnchorUtcNs) := by
    unfold I64.InRange at *
    omega
  have bnds := @canonicalSessionCycleBounds_ok (windowCloseNs day last.endOffsetNs - 1)
    (by rw [cycle]; exact anch) (by rw [cycle, sub_add_cancel]; exact stop)
  rw [cycle] at bnds
  obtain ⟨at_, loc⟩ := @locateWindow_isSome (windowCloseNs day last.endOffsetNs - 1)
    (dayEndNs day - nanosPerDay) session.windows
    (fun wnd mem => ⟨(session.increasing wnd mem).1, (session.increasing wnd mem).2, inn wnd mem⟩)
    startInside (by rw [sub_add_cancel]; exact stop) last lastMem
    (by unfold windowCloseNs; omega)
  have hit : session.locate (windowCloseNs day last.endOffsetNs - 1) = .ok (some at_) := by
    unfold locate
    rw [bnds, ok_bind]
    dsimp only
    rw [if_neg (by rw [List.isEmpty_iff]; exact List.ne_nil_of_mem lastMem)]
    exact loc
  have pre := shut _ at_ (by unfold windowCloseNs; omega) (by unfold windowCloseNs; omega) hit
  omega

end KlineSessionTemplate

/-! ## When the finalizer writes -/

theorem checkedOr_iff {val res : Int} {msg : String} :
    checkedOr val msg = .ok res ↔ I64.InRange val ∧ res = val := by
  constructor
  · intro ok
    exact (checkedOr_eq_ok ok).symm
  · rintro ⟨inR, rfl⟩
    exact checkedOr_ok inR msg

section Finalizer

variable (slot : ProvisionalSlot) (file : ProvisionalFile) (symbol : String)
  (snapshot : MinuteKlineCacheSnapshot) (session : KlineSessionTemplate)

/-- The trading day of a checkpoint. -/
def ProvisionalFile.day (file : ProvisionalFile) : Int :=
  tradingDayForTimestampNs file.metadata.asOfNs

/-- The checks of a call pass, and no timestamp overflows. -/
structure Finalizable (last : KlineSessionWindow) (graceNs : Int) : Prop where
  writable : slot.ensureWritable = .ok ()
  validSymbol : validateSymbol symbol = .ok ()
  validSnapshot : snapshot.validate = .ok ()
  grace : 0 ≤ graceNs
  sessionHash : session.snapshotHash = snapshot.sessionHash
  identity : validateProvisionalIdentity slot file.metadata symbol snapshot = .ok ()
  dayStart : I64.InRange (dayEndNs (previousTradingDay file.day))
  dayEnd : I64.InRange (dayEndNs file.day)
  close : I64.InRange (countedCloseNs file.day last.endOffsetNs)
  graced : I64.InRange (countedCloseNs file.day last.endOffsetNs + graceNs)

/-- The finalizer writes when the counted close and the grace have passed and the checkpoint
reaches the counted close. -/
theorem finalizeProvisional_iff (nowNs graceNs : Int) (res : (Int × Int) × List Kline) :
    finalizeProvisional slot (some file) symbol snapshot session nowNs graceNs =
        .ok (some res) ↔
      ∃ last, session.windows.getLast? = some last ∧
        Finalizable slot file symbol snapshot session last graceNs ∧
        countedCloseNs file.day last.endOffsetNs ≤ dayEndNs file.day ∧
        countedCloseNs file.day last.endOffsetNs + graceNs ≤ nowNs ∧
        countedCloseNs file.day last.endOffsetNs ≤ file.metadata.completeThroughNs ∧
        res = ((file.metadata.rangeStartNs, dayEndNs file.day), file.rows) := by
  have wday := not_isWeekend_tradingDayForTimestampNs file.metadata.asOfNs
  constructor
  · intro ok
    obtain ⟨_, writable, ok⟩ := of_bind ok
    obtain ⟨_, validSymbol, ok⟩ := of_bind ok
    obtain ⟨_, validSnapshot, ok⟩ := of_bind ok
    split_ifs at ok with negative otherSession
    cases fin : session.windows.getLast? with
    | none =>
      rw [fin] at ok
      cases Except.ok.inj ok
    | some last =>
      rw [fin] at ok
      obtain ⟨_, idt, ok⟩ := of_bind ok
      obtain ⟨dayRange, isRange, ok⟩ := of_bind ok
      obtain ⟨dayStart, dayEnd, rfl⟩ := (tradingDayRange_iff wday).mp isRange
      obtain ⟨closeNs, isClose, ok⟩ := of_bind ok
      obtain ⟨close, rfl⟩ := checkedOr_iff.mp isClose
      split_ifs at ok with exceeds
      obtain ⟨_, isGraced, ok⟩ := of_bind ok
      obtain ⟨graced, rfl⟩ := checkedOr_iff.mp isGraced
      split_ifs at ok with notYet
      · cases Except.ok.inj ok
      · obtain ⟨notBefore, notShort⟩ := not_or.mp notYet
        exact ⟨last, rfl, ⟨writable, validSymbol, validSnapshot, not_lt.mp negative, not_not.mp
          otherSession, idt, dayStart, dayEnd, close, graced⟩, not_lt.mp exceeds, not_lt.mp
          notBefore, not_lt.mp notShort, (Option.some.inj (Except.ok.inj ok)).symm⟩
  · rintro ⟨last, fin, checks, win, now, reaches, rfl⟩
    have rng := (tradingDayRange_iff wday).mpr ⟨checks.dayStart, checks.dayEnd, rfl⟩
    have close := checks.close
    have graced := checks.graced
    unfold countedCloseNs ProvisionalFile.day at *
    unfold finalizeProvisional
    rw [checks.writable, ok_bind, checks.validSymbol, ok_bind, checks.validSnapshot, ok_bind, if_neg
      (not_lt.mpr checks.grace), if_neg (not_not.mpr checks.sessionHash), fin]
    dsimp only
    rw [checks.identity, ok_bind, rng, ok_bind]
    dsimp only
    rw [checkedOr_ok close, ok_bind, if_neg (not_lt.mpr win), checkedOr_ok graced, ok_bind, if_neg
      (not_or.mpr ⟨not_lt.mpr now, not_lt.mpr reaches⟩)]
    rfl

end Finalizer

/-! ## When it freezes an open day -/

section Freezes

variable (slot : ProvisionalSlot) (file : ProvisionalFile) (symbol : String)
  (snapshot : MinuteKlineCacheSnapshot) (session : KlineSessionTemplate)

/-- Final coverage is written only of a day whose last session is over, at `now_ns` less the
grace and in the checkpoint. -/
def FreezesClosedDays (nowNs graceNs : Int) : Prop :=
  ∀ coverage rows,
    finalizeProvisional slot (some file) symbol snapshot session nowNs graceNs =
      .ok (some (coverage, rows)) →
    session.ClosedBy file.day (nowNs - graceNs) ∧
      session.ClosedBy file.day file.metadata.completeThroughNs

/-- Days that do not follow a weekend are never frozen open.  A day that follows one is, exactly
when the time and the checkpoint have reached the close counted from Friday evening, and not both
the close of the day. -/
theorem freezesClosedDays_iff (nowNs graceNs : Int)
    (inside : ∀ window ∈ session.windows, window.endOffsetNs ≤ nanosPerDay) :
    FreezesClosedDays slot file symbol snapshot session nowNs graceNs ↔
      ∀ last, session.windows.getLast? = some last →
        Finalizable slot file symbol snapshot session last graceNs →
        isWeekend (file.day - 1) = true →
        windowCloseNs file.day last.endOffsetNs - 2 * nanosPerDay ≤
          min (nowNs - graceNs) file.metadata.completeThroughNs →
        windowCloseNs file.day last.endOffsetNs ≤
          min (nowNs - graceNs) file.metadata.completeThroughNs := by
  have wday : isWeekend file.day = false :=
    not_isWeekend_tradingDayForTimestampNs file.metadata.asOfNs
  have dayPositive : 0 < nanosPerDay := by decide
  unfold FreezesClosedDays
  simp only [finalizeProvisional_iff, le_min_iff]
  constructor
  · intro freezes last fin checks weekend cnt
    have lastMem := mem_of_getLast? fin
    have lt := inside last lastMem
    have dayStart := checks.dayStart
    have afterWeekend :
        dayEndNs (previousTradingDay file.day) = dayEndNs file.day - 3 * nanosPerDay := by
      rcases dayStart_cases wday with ⟨workday, -⟩ | ⟨-, lo⟩
      · rw [weekend] at workday
        cases workday
      · exact lo
    have countedEq : countedCloseNs file.day last.endOffsetNs =
        windowCloseNs file.day last.endOffsetNs - 2 * nanosPerDay := by
      unfold countedCloseNs windowCloseNs
      omega
    obtain ⟨now, reaches⟩ := freezes _ _ ⟨last, fin, checks,
      by rw [countedEq]; unfold windowCloseNs; omega, by omega, by omega, rfl⟩
    have inR : I64.InRange (dayEndNs file.day - 2 * nanosPerDay) := by
      have dayEnd := checks.dayEnd
      unfold I64.InRange at *
      omega
    exact ⟨session.close_le_of_closedBy fin inside inR checks.dayEnd (by omega) now,
      session.close_le_of_closedBy fin inside inR checks.dayEnd (by omega) reaches⟩
  · rintro good cov rows ⟨last, fin, checks, -, now, reaches, -⟩
    have shut : windowCloseNs file.day last.endOffsetNs ≤ nowNs - graceNs ∧
        windowCloseNs file.day last.endOffsetNs ≤ file.metadata.completeThroughNs := by
      unfold countedCloseNs at now reaches
      rcases dayStart_cases wday with ⟨-, lo⟩ | ⟨weekend, lo⟩
      · unfold windowCloseNs
        omega
      · refine good last fin checks weekend ?_
        unfold windowCloseNs
        omega
    exact ⟨session.closedBy_of_close fin shut.1, session.closedBy_of_close fin shut.2⟩

end Freezes

theorem freezesClosedDays_tuesday :
    FreezesClosedDays morningSlot ((morningCall 20662 0 1).file (morningNs 20662)
      (morningNs 20662 + nanosPerMinute) [(0, morningRow (morningNs 20662))]) "SHFE.rb2610"
      morningSnapshot morningSession (morningNs 20662 + nanosPerHour) 0 :=
  (freezesClosedDays_iff _ _ _ _ _ _ _ (by decide)).mpr fun _ _ _ weekend =>
    absurd weekend (by decide)

/-- The first minute of a Monday, an hour later: the day is frozen, and 11:00 is in a session. -/
theorem not_freezesClosedDays_monday :
    ¬ FreezesClosedDays morningSlot ((morningCall 20661 0 1).file (morningNs 20661)
      (morningNs 20661 + nanosPerMinute) [(0, morningRow (morningNs 20661))]) "SHFE.rb2610"
      morningSnapshot morningSession (morningNs 20661 + nanosPerHour) 0 := by
  intro freezes
  have frz := freezes (morningNs 20661, morningNs 20661 + 9 * nanosPerHour)
    [morningRow (morningNs 20661)] (by decide +kernel)
  have open11 := frz.2 (morningNs 20661 + 2 * nanosPerHour)
    ⟨morningNs 20661 - 15 * nanosPerHour, morningNs 20661 + 9 * nanosPerHour, morningNs 20661,
      morningNs 20661 + 6 * nanosPerHour⟩
    (by decide +kernel) (by decide +kernel) (by decide +kernel)
  revert open11
  decide +kernel

end Tqsdk
