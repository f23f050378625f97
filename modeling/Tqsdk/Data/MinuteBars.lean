import Mathlib.Tactic.Linarith
import Tqsdk.Data.MinuteKlineAggregator

/-!
# The bars of an aggregator of minutes

Which minutes an aggregator reads, the bar that each falls in, and when a bar opens: a minute that
comes after the minutes seen so far opens a bar exactly when the last of them fell in another one.
-/

namespace Tqsdk

/-- The start of the bar of a minute, on the grid of its trading day. -/
def minuteBarStart (durationNs timestampNs : Int) : Int :=
  cycleStart timestampNs + (timestampNs - cycleStart timestampNs) / durationNs * durationNs

/-- The end of the bar that starts there. -/
def minuteBarEnd (durationNs barStartNs : Int) : Int :=
  min (barStartNs + durationNs) (cycleStart barStartNs + nanosPerDay)

section

variable {durationNs : Int} (timestampNs : Int)

theorem minuteBarStart_bounds (pos : 0 < durationNs) :
    cycleStart timestampNs ≤ minuteBarStart durationNs timestampNs ∧
      minuteBarStart durationNs timestampNs ≤ timestampNs ∧
      timestampNs < minuteBarStart durationNs timestampNs + durationNs := by
  have lo := cycleStart_le timestampNs
  have rest := Int.emod_nonneg (timestampNs - cycleStart timestampNs) pos.ne'
  have lt := Int.emod_lt_of_pos (timestampNs - cycleStart timestampNs) pos
  have split := Int.mul_ediv_add_emod (timestampNs - cycleStart timestampNs) durationNs
  have quo : 0 ≤ (timestampNs - cycleStart timestampNs) / durationNs :=
    Int.ediv_nonneg (by omega) pos.le
  have bucket := mul_nonneg quo pos.le
  unfold minuteBarStart
  rw [Int.mul_comm] at split
  omega

theorem cycleStart_of_between {timestampNs preNs : Int} (post : cycleStart timestampNs ≤ preNs)
    (pre : preNs ≤ timestampNs) : cycleStart preNs = cycleStart timestampNs := by
  unfold cycleStart cstSessionAnchorUtcNs nanosPerHour nanosPerDay nanosPerSecond at *
  omega

theorem cycleStart_minuteBarStart (pos : 0 < durationNs) :
    cycleStart (minuteBarStart durationNs timestampNs) = cycleStart timestampNs :=
  have bnds := minuteBarStart_bounds timestampNs pos
  cycleStart_of_between bnds.1 bnds.2.1

theorem lt_minuteBarEnd (pos : 0 < durationNs) :
    timestampNs < minuteBarEnd durationNs (minuteBarStart durationNs timestampNs) := by
  have bnds := minuteBarStart_bounds timestampNs pos
  have day := lt_cycleStart_add timestampNs
  rw [minuteBarEnd, cycleStart_minuteBarStart _ pos]
  omega

end

/-- An aggregator takes the minute, or passes over it where the session is closed. -/
def ReadableMinute (durationNs : Int) (session : KlineSessionTemplate) (timestampNs : Int) : Prop :=
  0 ≤ timestampNs ∧ timestampNs % minuteKlineDurationNs = 0 ∧
    (session.locate timestampNs = .ok none ∨
      ∃ position, session.locate timestampNs = .ok (some position) ∧
        timestampNs + minuteKlineDurationNs ≤ position.windowEndNs ∧
        I64.InRange (minuteBarStart durationNs timestampNs + durationNs))

namespace MinuteKlineAggregator

variable {aggregator : MinuteKlineAggregator} {mn : Kline} {position : KlineSessionPosition}

theorem update_unaligned
    (unaligned : ¬ (0 ≤ mn.datetime ∧ mn.datetime % minuteKlineDurationNs = 0)) :
    ∃ error, aggregator.update mn = .error error := by
  rw [update, if_pos]
  · exact ⟨_, rfl⟩
  · by_cases early : mn.datetime < 0
    · exact .inl early
    · exact .inr fun algn => unaligned ⟨not_lt.mp early, algn⟩

theorem update_eq (nn : 0 ≤ mn.datetime) (algn : mn.datetime % minuteKlineDurationNs = 0) :
    aggregator.update mn = aggregator.session.locate mn.datetime >>= fun loc =>
      match loc with
      | none => .ok (aggregator, none)
      | some position => do
          let time ← checkedOr (mn.datetime + minuteKlineDurationNs)
            "canonical minute close timestamp overflow"
          if position.windowEndNs < time then
            .error (.validation "canonical minute kline crosses a configured session boundary")
          else do
            let bnds ← aggregator.barBounds mn.datetime position
            let res := aggregator.incorporate mn position.tradingDayStartNs bnds.1
              bnds.2 time
            return (res.1, some res.2) := by
  rw [update, if_neg]
  · rfl
  · exact fun bad => bad.elim (not_lt.mpr nn) fun unaligned => unaligned algn

theorem barBounds_located (pos : 0 < aggregator.durationNs)
    (loc : aggregator.session.locate mn.datetime = .ok (some position)) :
    aggregator.barBounds mn.datetime position =
      (checkedOr (minuteBarStart aggregator.durationNs mn.datetime + aggregator.durationNs)
        "aggregated kline bar end overflow").map fun _ =>
          (minuteBarStart aggregator.durationNs mn.datetime,
            minuteBarEnd aggregator.durationNs
              (minuteBarStart aggregator.durationNs mn.datetime)) := by
  obtain ⟨day, dayEnd, -⟩ := KlineSessionTemplate.locate_eq_ok loc
  obtain ⟨startInside, endInside⟩ := KlineSessionTemplate.locate_inRange loc
  obtain ⟨afterStart, beforeMinute, -⟩ := minuteBarStart_bounds mn.datetime pos
  have post := lt_cycleStart_add mn.datetime
  have pre := cycleStart_le mn.datetime
  have dayLength : nanosPerDay = 86400000000000 := by decide
  have isStart : cycleStart mn.datetime + (mn.datetime - cycleStart mn.datetime) /
      aggregator.durationNs * aggregator.durationNs =
      minuteBarStart aggregator.durationNs mn.datetime := rfl
  unfold I64.InRange I64.minimum I64.maximum at startInside endInside
  have off : I64.InRange (mn.datetime - cycleStart mn.datetime) := by
    unfold I64.InRange I64.minimum I64.maximum
    omega
  have bucket : I64.InRange ((mn.datetime - cycleStart mn.datetime) /
      aggregator.durationNs * aggregator.durationNs) := by
    unfold I64.InRange I64.minimum I64.maximum
    omega
  have lo : I64.InRange (minuteBarStart aggregator.durationNs mn.datetime) := by
    unfold I64.InRange I64.minimum I64.maximum
    omega
  rw [barBounds, day, dayEnd]
  simp only [checkedOr, I64.checked, if_pos off, if_pos bucket, isStart, if_pos lo, Result.ok_bind]
  rw [minuteBarEnd, cycleStart_minuteBarStart _ pos]
  by_cases fits : I64.InRange
      (minuteBarStart aggregator.durationNs mn.datetime + aggregator.durationNs)
  · rw [if_pos fits]
    rfl
  · rw [if_neg fits]
    rfl

theorem update_unreadable (pos : 0 < aggregator.durationNs)
    (unreadable : ¬ ReadableMinute aggregator.durationNs aggregator.session mn.datetime) :
    ∃ error, aggregator.update mn = .error error := by
  by_cases algn : 0 ≤ mn.datetime ∧ mn.datetime % minuteKlineDurationNs = 0
  · rw [update_eq algn.1 algn.2]
    cases loc : aggregator.session.locate mn.datetime with
    | error error => exact ⟨error, rfl⟩
    | ok hit =>
      cases hit with
      | none => exact absurd ⟨algn.1, algn.2, .inl loc⟩ unreadable
      | some position =>
        rw [Result.ok_bind]
        dsimp only
        unfold checkedOr
        split
        · rename_i closeTime isClose
          obtain ⟨-, rfl⟩ := I64.checked_eq_some.mp isClose
          rw [Result.ok_bind]
          split
          · exact ⟨_, rfl⟩
          · rename_i fits
            rw [barBounds_located pos loc, checkedOr, I64.checked, if_neg]
            · exact ⟨_, rfl⟩
            · intro inR
              exact unreadable ⟨algn.1, algn.2, .inr ⟨position, loc, not_lt.mp fits, inR⟩⟩
        · exact ⟨_, rfl⟩
  · exact update_unaligned algn

theorem update_closed (reads : ReadableMinute aggregator.durationNs aggregator.session mn.datetime)
    (shut : aggregator.session.locate mn.datetime = .ok none) :
    aggregator.update mn = .ok (aggregator, none) := by
  rw [update_eq reads.1 reads.2.1, shut]
  rfl

theorem update_located (pos : 0 < aggregator.durationNs)
    (reads : ReadableMinute aggregator.durationNs aggregator.session mn.datetime)
    (loc : aggregator.session.locate mn.datetime = .ok (some position)) :
    let result := aggregator.incorporate mn (cycleStart mn.datetime)
      (minuteBarStart aggregator.durationNs mn.datetime)
      (minuteBarEnd aggregator.durationNs (minuteBarStart aggregator.durationNs mn.datetime))
      (mn.datetime + minuteKlineDurationNs)
    aggregator.update mn = .ok (result.1, some result.2) := by
  obtain ⟨nn, algn, shut | ⟨hit, isFound, fits, inR⟩⟩ := reads
  · rw [loc] at shut
    cases shut
  rw [loc] at isFound
  cases isFound
  obtain ⟨day, -⟩ := KlineSessionTemplate.locate_eq_ok loc
  have mem := KlineSessionTemplate.locate_inside loc
  have dayInside := (KlineSessionTemplate.locate_inRange loc).2
  have close : I64.InRange (mn.datetime + minuteKlineDurationNs) := by
    have len : minuteKlineDurationNs = 60000000000 := by decide
    unfold I64.InRange I64.minimum I64.maximum at *
    omega
  rw [update_eq nn algn, loc, Result.ok_bind]
  dsimp only
  rw [checkedOr, I64.checked, if_pos close]
  dsimp only
  rw [Result.ok_bind, if_neg (not_lt.mpr fits), barBounds_located pos loc, checkedOr,
    I64.checked, if_pos inR, day]
  rfl

/-! ## Openings -/

/-- The aggregator after minutes of which the last ended at `lastNs` and fell in the bar `previous`:
that bar is current, or it has ended. -/
def Tracks (aggregator : MinuteKlineAggregator) (previous : Option Int) (lastNs : Int) : Prop :=
  match aggregator.current, previous with
  | none, none => True
  | none, some start => minuteBarEnd aggregator.durationNs start ≤ lastNs
  | some _, none => False
  | some bar, some start => bar.row.datetime = start ∧ bar.tradingDayStartNs = cycleStart start ∧
      bar.effectiveBarEndNs = minuteBarEnd aggregator.durationNs start

variable {previous : Option Int} {lastNs : Int}

theorem Tracks.later {laterNs : Int} (trk : aggregator.Tracks previous lastNs)
    (post : lastNs ≤ laterNs) :
    aggregator.Tracks previous laterNs := by
  unfold Tracks at *
  generalize aggregator.current = cur at trk ⊢
  rcases cur with _ | bar <;> rcases previous with _ | start
  · trivial
  · exact le_trans trk post
  · exact trk
  · exact trk

/-- A minute opens a bar when the minute before it fell in another one. -/
theorem Tracks.startsNewBar_iff (trk : aggregator.Tracks previous lastNs)
    (pos : 0 < aggregator.durationNs) {timestampNs : Int} (post : lastNs ≤ timestampNs) :
    startsNewBar aggregator.current (cycleStart timestampNs)
        (minuteBarStart aggregator.durationNs timestampNs) = true ↔
      previous ≠ some (minuteBarStart aggregator.durationNs timestampNs) := by
  unfold Tracks at trk
  unfold startsNewBar
  generalize aggregator.current = cur at trk ⊢
  rcases cur with _ | bar <;> rcases previous with _ | start
  · simp
  · refine iff_of_true rfl fun same => ?_
    have ends := lt_minuteBarEnd timestampNs pos
    rw [← Option.some.inj same] at ends
    exact absurd (le_trans trk post) (not_le.mpr ends)
  · exact False.elim trk
  · obtain ⟨dt, day, -⟩ := trk
    dsimp only
    rw [dt, day]
    by_cases same : start = minuteBarStart aggregator.durationNs timestampNs
    · simp [same, cycleStart_minuteBarStart _ pos]
    · simp [same]

/-- What a minute of the bar `barStartNs` leaves. -/
theorem Tracks.incorporate (trk : aggregator.Tracks previous lastNs)
    (pos : 0 < aggregator.durationNs) (mn : Kline) :
    let res := aggregator.incorporate mn (cycleStart mn.datetime)
      (minuteBarStart aggregator.durationNs mn.datetime)
      (minuteBarEnd aggregator.durationNs (minuteBarStart aggregator.durationNs mn.datetime))
      (mn.datetime + minuteKlineDurationNs)
    res.1.Tracks (some (minuteBarStart aggregator.durationNs mn.datetime))
        (mn.datetime + minuteKlineDurationNs) ∧
      res.1.durationNs = aggregator.durationNs ∧ res.1.session = aggregator.session ∧
      res.2.updated.datetime = minuteBarStart aggregator.durationNs mn.datetime ∧
      res.2.eventTimeNs = mn.datetime + minuteKlineDurationNs ∧
      res.2.opened =
        if startsNewBar aggregator.current (cycleStart mn.datetime)
            (minuteBarStart aggregator.durationNs mn.datetime) then
          some (openRow (minuteBarStart aggregator.durationNs mn.datetime) mn)
        else none := by
  intro res
  let lo := minuteBarStart aggregator.durationNs mn.datetime
  let new : MinuteAggregateBar :=
    ⟨cycleStart mn.datetime, minuteBarEnd aggregator.durationNs lo, openRow lo mn⟩
  let los := startsNewBar aggregator.current (cycleStart mn.datetime) lo
  let bar := if los then new else aggregator.current.getD new
  have isBar : bar.row.datetime = lo ∧ bar.tradingDayStartNs = cycleStart lo ∧
      bar.effectiveBarEndNs = minuteBarEnd aggregator.durationNs lo := by
    have day : cycleStart mn.datetime = cycleStart lo := (cycleStart_minuteBarStart _ pos).symm
    have ofFresh : new.row.datetime = lo ∧ new.tradingDayStartNs = cycleStart lo ∧
        new.effectiveBarEndNs = minuteBarEnd aggregator.durationNs lo := ⟨rfl, day, rfl⟩
    cases isStarts : los with
    | true => simpa [bar, isStarts] using ofFresh
    | false =>
      simp only [bar, isStarts, Bool.false_eq_true, ↓reduceIte]
      cases cur : aggregator.current with
      | none => exact ofFresh
      | some current =>
        simp only [los, startsNewBar, cur, Bool.or_eq_false_iff,
          decide_eq_false_iff_not, not_not] at isStarts
        unfold Tracks at trk
        rw [cur] at trk
        rcases previous with _ | former
        · exact False.elim trk
        · obtain ⟨dt, formerDay, formerEnd⟩ := trk
          obtain rfl : former = lo := dt.symm.trans isStarts.2
          exact ⟨dt, formerDay, formerEnd⟩
  have isResult : res =
      (let shut := if los then aggregator.current.map MinuteAggregateBar.row else none
       let upd := joinMinute bar.row mn
       let opn := if los then some new.row else none
       if bar.effectiveBarEndNs ≤ mn.datetime + minuteKlineDurationNs ∧ shut = none then
         ({ aggregator with current := none },
           ⟨opn, upd, some upd, mn.datetime + minuteKlineDurationNs⟩)
       else
         ({ aggregator with current := some { bar with row := upd } },
           ⟨opn, upd, shut, mn.datetime + minuteKlineDurationNs⟩)) := rfl
  rw [isResult]
  dsimp only
  by_cases fin : bar.effectiveBarEndNs ≤ mn.datetime + minuteKlineDurationNs ∧
      (if los then aggregator.current.map MinuteAggregateBar.row else none) = none
  · rw [if_pos fin]
    refine ⟨?_, rfl, rfl, isBar.1, rfl, rfl⟩
    change minuteBarEnd aggregator.durationNs lo ≤ _
    exact isBar.2.2 ▸ fin.1
  · rw [if_neg fin]
    exact ⟨isBar, rfl, rfl, isBar.1, rfl, rfl⟩

end MinuteKlineAggregator

end Tqsdk
