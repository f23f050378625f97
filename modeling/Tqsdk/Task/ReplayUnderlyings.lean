import Tqsdk.Data.MinuteBars
import Tqsdk.Task.ReplayRuns

/-!
# The contracts of a replayed continuous symbol

The minutes of a continuous contract are replayed with the contract that was its underlying.  It is
looked up at the start of the bar of an event, on the grid of the trading day, while the segments of
the source are cut where they are: a bar that starts in front of the source, or of a segment, does
not find the contract of its minutes.
-/

namespace Tqsdk

open List

def underlyingAt (segments : List MinuteKlineUnderlyingSegment) (timestampNs : Int) :
    Option String :=
  (segmentAt segments timestampNs).map MinuteKlineUnderlyingSegment.underlyingSymbol

/-- The event has the contract of the minute. -/
def CarriesContract (segments : List MinuteKlineUnderlyingSegment) (minute : Kline)
    (event : ReplayKlineEvent) : Prop :=
  event.underlyingSymbol = underlyingAt segments minute.datetime

/-- The contract at the start of a bar is that of the minute. -/
def SameContract (segments : List MinuteKlineUnderlyingSegment) (barStartNs minuteNs : Int) :
    Prop :=
  ∃ name, underlyingAt segments barStartNs = some name ∧
    underlyingAt segments minuteNs = some name ∧ blank name = false

/-- The minutes that the events of the queue newly incorporate. -/
def MinuteKlineProducer.incorporated (symbol : String) :
    List Kline → MinuteKlineProducer → List Kline
  | [], _ => []
  | row :: rows, producer =>
    match producer.queueRow symbol row with
    | .error _ => []
    | .ok (aggregator, events) =>
      events.map (fun _ => row) ++ incorporated symbol rows { producer with aggregator }

namespace HistoryBacktestMinuteKlineSource

variable (source : HistoryBacktestMinuteKlineSource)

def producer (aggregator : Option MinuteKlineAggregator) : MinuteKlineProducer :=
  ⟨source.rows, source.startNs, source.endNs, source.durationNs, aggregator, []⟩

/-- The minutes of the events of the source, in order. -/
def incorporated : List Kline :=
  match source.aggregator with
  | .error _ => []
  | .ok aggregator => (source.producer aggregator).incorporated source.replaySymbol source.rows

/-- The start of the bar of a minute. -/
def barStart (minuteNs : Int) : Int :=
  if source.durationNs = minuteKlineDurationNs then minuteNs
  else minuteBarStart source.durationNs minuteNs

/-- The source does not stop at the minute. -/
def Reads (minuteNs : Int) : Prop :=
  if source.durationNs = minuteKlineDurationNs then
    I64.InRange (minuteNs + minuteKlineDurationNs)
  else ReadableMinute source.durationNs source.session minuteNs

/-- The minute lies outside the session of an aggregated source. -/
def PassesOver (minuteNs : Int) : Prop :=
  source.durationNs ≠ minuteKlineDurationNs ∧ source.session.locate minuteNs = .ok none

/-- An event of the minute finds its contract. -/
def Shows (minuteNs : Int) : Prop :=
  blank source.replaySymbol = false ∧
    SameContract source.underlyingSegments (source.barStart minuteNs) minuteNs

open Classical in
/-- Each minute is read, and where it opens a bar inside the range, or closes inside the range, the
bar starts in a segment of the minute's contract.  `previous` is the start of the last bar. -/
def Attributable : Option Int → List Kline → Prop
  | _, [] => True
  | previous, row :: rows =>
    source.Reads row.datetime ∧
      if source.PassesOver row.datetime then Attributable previous rows
      else
        (previous ≠ some (source.barStart row.datetime) →
            source.startNs ≤ source.barStart row.datetime →
            0 ≤ source.barStart row.datetime ∧ source.Shows row.datetime) ∧
          (row.datetime + minuteKlineDurationNs < source.endNs → source.Shows row.datetime) ∧
          Attributable (some (source.barStart row.datetime)) rows

end HistoryBacktestMinuteKlineSource

/-! ## Events with their contracts -/

section

variable {segments : List MinuteKlineUnderlyingSegment} {minute : Kline}

/-- Every event of a result is delivered with the contract of the minute. -/
def Delivers (segments : List MinuteKlineUnderlyingSegment) (minute : Kline)
    (result : Except ReplayError (List QueuedEvent)) : Prop :=
  ∃ events, result = .ok events ∧ ∀ queued ∈ events, ∃ event,
    HistoryBacktestReplayStream.project (.segments segments) queued = .ok event ∧
      CarriesContract segments minute event

theorem project_carries_iff (inQ : QueuedEvent) :
    (∃ ev, HistoryBacktestReplayStream.project (.segments segments) inQ = .ok ev ∧
        CarriesContract segments minute ev) ↔
      SameContract segments inQ.sourceDatetimeNs minute.datetime := by
  have res : HistoryBacktestReplayStream.project (.segments segments) inQ =
      (underlyingAt segments inQ.sourceDatetimeNs).elim
        (.error (.invalidState "minute kline event is outside its continuous-underlying mapping"))
        inQ.event.withUnderlyingSymbol := by
    simp only [HistoryBacktestReplayStream.project, UnderlyingProjection.resolve, underlyingAt]
    cases segmentAt segments inQ.sourceDatetimeNs <;> rfl
  rw [res]
  cases hit : underlyingAt segments inQ.sourceDatetimeNs with
  | none =>
    refine iff_of_false ?_ ?_
    · rintro ⟨_, no, -⟩
      cases no
    rintro ⟨name, isName, -⟩
    rw [hit] at isName
    cases isName
  | some name =>
    rw [Option.elim_some]
    unfold ReplayKlineEvent.withUnderlyingSymbol
    by_cases unnamed : blank name
    · rw [if_pos unnamed]
      refine iff_of_false ?_ ?_
      · rintro ⟨_, no, -⟩
        cases no
      rintro ⟨alt, isName, -, nm⟩
      rw [hit] at isName
      cases isName
      rw [unnamed] at nm
      cases nm
    · rw [if_neg unnamed]
      constructor
      · rintro ⟨ev, isEvent, carries⟩
        cases isEvent
        exact ⟨name, hit, carries.symm, by simpa using unnamed⟩
      · rintro ⟨alt, isName, ofMinute, -⟩
        rw [hit] at isName
        cases isName
        exact ⟨_, rfl, ofMinute.symm⟩

/-- An event that is due is delivered with its contract if it can be made and its bar starts with
the contract of the minute. -/
theorem delivers_onlyIf {due accepted : Prop} [Decidable due] {barLo : Int}
    {ev : Except ReplayError QueuedEvent} (deny : ¬ accepted → ∃ error, ev = .error error)
    (made : accepted → ∃ inQ, ev = .ok inQ ∧ inQ.sourceDatetimeNs = barLo) :
    Delivers segments minute (onlyIf due ev) ↔
      (due → accepted ∧ SameContract segments barLo minute.datetime) := by
  unfold Delivers onlyIf
  by_cases isDue : due
  · rw [if_pos isDue]
    by_cases isAccepted : accepted
    · obtain ⟨inQ, isEvent, lo⟩ := made isAccepted
      have car := @project_carries_iff segments minute inQ
      rw [isEvent]
      rw [lo] at car
      constructor
      · rintro ⟨evs, isEvents, each⟩ _
        cases isEvents
        exact ⟨isAccepted, car.mp (each inQ (mem_singleton.mpr rfl))⟩
      · intro same
        refine ⟨[inQ], rfl, fun alt mem => ?_⟩
        rw [mem_singleton.mp mem]
        exact car.mpr (same isDue).2
    · obtain ⟨error, err⟩ := deny isAccepted
      rw [err]
      exact iff_of_false (fun ⟨_, no, _⟩ => (by cases no)) fun same => isAccepted (same isDue).1
  · rw [if_neg isDue]
    exact iff_of_true ⟨[], rfl, fun _ mem => (by cases mem)⟩ fun isDue' => absurd isDue' isDue

theorem delivers_append {was latter : Except ReplayError (List QueuedEvent)} :
    Delivers segments minute (do
        let live ← was
        let shut ← latter
        return live ++ shut) ↔
      Delivers segments minute was ∧ Delivers segments minute latter := by
  constructor
  · rintro ⟨evs, isEvents, each⟩
    obtain ⟨live, isOpened, isEvents⟩ := Result.of_bind isEvents
    obtain ⟨shut, isClosed, isEvents⟩ := Result.of_bind isEvents
    cases isEvents
    exact ⟨⟨live, isOpened, fun que mem => each que (mem_append_left _ mem)⟩,
      ⟨shut, isClosed, fun que mem => each que (mem_append_right _ mem)⟩⟩
  · rintro ⟨⟨live, isOpened, eachOpened⟩, ⟨shut, isClosed, eachClosed⟩⟩
    refine ⟨live ++ shut, by rw [isOpened, isClosed]; rfl, fun que mem => ?_⟩
    rcases mem_append.mp mem with inOpened | inClosed
    · exact eachOpened que inOpened
    · exact eachClosed que inClosed

variable {source symbol : String} {dur : Int} {row : Kline}

theorem kline_eq {recvAt : Int} (named : blank source = false) (pos : 0 < dur) :
    ReplayKlineEvent.kline source symbol recvAt (some recvAt) dur row =
      if blank symbol then
        .error (.invalidState "replay market event symbol must not be empty")
      else if recvAt < 0 then
        .error (.invalidState "replay market event received_at_ns must be non-negative")
      else .ok ⟨source, symbol, recvAt, recvAt, none, dur, row⟩ := by
  rw [ReplayKlineEvent.kline, if_neg (not_le.mpr pos), named]
  by_cases early : recvAt < 0 <;> simp [early]

theorem delivers_kline {due : Prop} [Decidable due] {bar : Kline} {recvAt : Int} {rank : Nat}
    (named : blank source = false) (pos : 0 < dur) :
    Delivers segments minute (onlyIf due (do
        let event ← ReplayKlineEvent.kline source symbol recvAt (some recvAt) dur bar
        return ⟨event, rank, row.id, row.datetime⟩)) ↔
      (due → (blank symbol = false ∧ 0 ≤ recvAt) ∧
        SameContract segments row.datetime minute.datetime) := by
  rw [kline_eq named pos]
  refine delivers_onlyIf (fun no => ?_) fun accepted => ?_
  · split
    · exact ⟨_, rfl⟩
    · split
      · exact ⟨_, rfl⟩
      · rename_i isNamed nn
        exact absurd ⟨by simpa using isNamed, not_lt.mp nn⟩ no
  · rw [if_neg (by simp [accepted.1]), if_neg (not_lt.mpr accepted.2)]
    exact ⟨_, rfl, rfl⟩

theorem delivers_open {due : Prop} [Decidable due] {rank : Nat} (named : blank source = false)
    (pos : 0 < dur) :
    Delivers segments minute (onlyIf due (klineOpenEvent source symbol dur row rank)) ↔
      (due → (blank symbol = false ∧ 0 ≤ row.datetime) ∧
        SameContract segments row.datetime minute.datetime) :=
  delivers_kline named pos

theorem delivers_close {due : Prop} [Decidable due] {rank : Nat} {closeTime : Int}
    (named : blank source = false) (pos : 0 < dur) :
    Delivers segments minute
        (onlyIf due (klineCloseEvent source symbol dur closeTime row rank)) ↔
      (due → (blank symbol = false ∧ 0 ≤ closeTime) ∧
        SameContract segments row.datetime minute.datetime) :=
  delivers_kline named pos

end

/-! ## The run of a source -/

/-- The rows that are left are delivered to their end, with the contracts of their minutes. -/
def RunDelivers (segments : List MinuteKlineUnderlyingSegment) (symbol : String)
    (rows : List Kline) (producer : MinuteKlineProducer) : Prop :=
  let queue := MinuteKlineProducer.queueRows symbol rows producer
  let delivery := deliver (.segments segments) queue.1 queue.2
  delivery.2 = none ∧
    List.Forall₂ (CarriesContract segments) (producer.incorporated symbol rows) delivery.1

section

variable {segments : List MinuteKlineUnderlyingSegment} {symbol : String}

theorem deliver_append_iff (minute : Kline) (evs post : List QueuedEvent)
    (out : Option ReplayError) (minutes : List Kline) :
    ((deliver (.segments segments) (evs ++ post) out).2 = none ∧
        List.Forall₂ (CarriesContract segments) (evs.map (fun _ => minute) ++ minutes)
          (deliver (.segments segments) (evs ++ post) out).1) ↔
      (∀ inQ ∈ evs, ∃ ev,
          HistoryBacktestReplayStream.project (.segments segments) inQ = .ok ev ∧
            CarriesContract segments minute ev) ∧
        (deliver (.segments segments) post out).2 = none ∧
        List.Forall₂ (CarriesContract segments) minutes
          (deliver (.segments segments) post out).1 := by
  induction evs with
  | nil => simp
  | cons inQ evs ih =>
    rw [forall_mem_cons, cons_append, map_cons, cons_append, deliver]
    cases HistoryBacktestReplayStream.project (.segments segments) inQ with
    | error error => exact iff_of_false (by simp) (by simp)
    | ok ev =>
      dsimp only
      rw [forall₂_cons, and_left_comm, ih]
      simp [and_assoc]

theorem runDelivers_cons (row : Kline) (rows : List Kline) (producer : MinuteKlineProducer) :
    RunDelivers segments symbol (row :: rows) producer ↔
      ∃ aggregator events, producer.queueRow symbol row = .ok (aggregator, events) ∧
        (∀ queued ∈ events, ∃ event,
          HistoryBacktestReplayStream.project (.segments segments) queued = .ok event ∧
            CarriesContract segments row event) ∧
        RunDelivers segments symbol rows { producer with aggregator } := by
  unfold RunDelivers
  rw [MinuteKlineProducer.queueRows, MinuteKlineProducer.incorporated]
  cases producer.queueRow symbol row with
  | error error => simp [deliver]
  | ok res =>
    obtain ⟨aggregator, events⟩ := res
    dsimp only
    rw [deliver_append_iff]
    simp

theorem delivers_minuteKlineEvents {lo hi : Int} {row : Kline}
    (mem : lo ≤ row.datetime ∧ row.datetime < hi) :
    Delivers segments row (minuteKlineEvents symbol minuteKlineDurationNs lo hi row) ↔
      I64.InRange (row.datetime + minuteKlineDurationNs) ∧ 0 ≤ row.datetime ∧
        blank symbol = false ∧ SameContract segments row.datetime row.datetime := by
  have pos : 0 < minuteKlineDurationNs := by decide
  by_cases fits : I64.InRange (row.datetime + minuteKlineDurationNs)
  · have split : minuteKlineEvents symbol minuteKlineDurationNs lo hi row = (do
        let opn ← onlyIf (lo ≤ row.datetime ∧ row.datetime < hi)
          (minuteKlineOpenEvent symbol minuteKlineDurationNs row)
        let shut ← onlyIf (lo ≤ row.datetime + minuteKlineDurationNs ∧
            row.datetime + minuteKlineDurationNs < hi)
          (minuteKlineCloseEvent symbol minuteKlineDurationNs
            (row.datetime + minuteKlineDurationNs) row)
        return opn ++ shut) := by
      rw [minuteKlineEvents, I64.checked, if_pos fits]
    unfold minuteKlineOpenEvent minuteKlineCloseEvent at split
    rw [split, delivers_append, delivers_open (by decide) pos,
      delivers_close (by decide) pos]
    constructor
    · rintro ⟨opening, -⟩
      obtain ⟨⟨nm, nn⟩, same⟩ := opening mem
      exact ⟨fits, nn, nm, same⟩
    · rintro ⟨-, nn, nm, same⟩
      exact ⟨fun _ => ⟨⟨nm, nn⟩, same⟩, fun _ => ⟨⟨nm, by omega⟩, same⟩⟩
  · refine iff_of_false ?_ fun both => fits both.1
    rintro ⟨evs, isEvents, -⟩
    obtain ⟨opn, -, isEvents⟩ := Result.of_bind isEvents
    rw [I64.checked, if_neg fits] at isEvents
    cases isEvents

end

namespace HistoryBacktestMinuteKlineSource

variable {source : HistoryBacktestMinuteKlineSource}

variable {rows : List Kline} {previous : Option Int}

/-- One-minute rows, of which none is the last bar's. -/
theorem runDelivers_canonical (minutely : source.durationNs = minuteKlineDurationNs)
    {left : List Kline} {pend : List QueuedEvent}
    (increasing : rows.Pairwise fun pre post => pre.datetime < post.datetime)
    (inn : ∀ row ∈ rows, source.startNs ≤ row.datetime ∧ row.datetime < source.endNs)
    (post : ∀ lo ∈ previous, ∀ row ∈ rows, lo < row.datetime) :
    RunDelivers source.underlyingSegments source.replaySymbol rows
        ⟨left, source.startNs, source.endNs, source.durationNs, none, pend⟩ ↔
      source.Attributable previous rows := by
  induction rows generalizing previous with
  | nil => exact iff_of_true ⟨rfl, .nil⟩ trivial
  | cons row rows ih =>
    obtain ⟨hd, rest⟩ := pairwise_cons.mp increasing
    obtain ⟨isInside, restInside⟩ := forall_mem_cons.mp inn
    have next := @ih (some row.datetime) rest restInside fun lo isStart alt mem => by
      rw [← Option.some.inj isStart]
      exact hd alt mem
    have isStart : source.barStart row.datetime = row.datetime := if_pos minutely
    have reads : source.Reads row.datetime ↔
        I64.InRange (row.datetime + minuteKlineDurationNs) := by
      rw [Reads, if_pos minutely]
    have stays : ¬ source.PassesOver row.datetime := fun passes => passes.1 minutely
    have opens : previous ≠ some row.datetime := fun same =>
      lt_irrefl _ (post row.datetime same row mem_cons_self)
    have sent := @delivers_minuteKlineEvents source.underlyingSegments source.replaySymbol
      source.startNs source.endNs row isInside
    rw [runDelivers_cons, Attributable, if_neg stays, reads, isStart, ← next]
    simp only [MinuteKlineProducer.queueRow, minutely]
    constructor
    · rintro ⟨agg, evs, que, each, run⟩
      obtain ⟨hit, isFound, que⟩ := Result.of_bind que
      cases que
      obtain ⟨fits, nn, nm, same⟩ := sent.mp ⟨evs, isFound, each⟩
      have shows_ : source.Shows row.datetime := ⟨nm, by rwa [isStart]⟩
      exact ⟨fits, fun _ _ => ⟨nn, shows_⟩, fun _ => shows_, run⟩
    · rintro ⟨fits, opn, -, run⟩
      obtain ⟨nn, nm, same⟩ := opn opens isInside.1
      rw [isStart] at same
      obtain ⟨evs, isEvents, each⟩ := sent.mpr ⟨fits, nn, nm, same⟩
      exact ⟨none, evs, by rw [isEvents]; rfl, each, run⟩

theorem delivers_aggregatedEvents {prod : MinuteKlineProducer} {row : Kline}
    {segments : List MinuteKlineUnderlyingSegment} {symbol : String}
    {upd : MinuteKlineAggregationUpdate} {barLo : Int} (pos : 0 < prod.durationNs)
    (live : ∀ opn ∈ upd.opened, opn.datetime = barLo) (updated : upd.updated.datetime = barLo) :
    Delivers segments row (prod.aggregatedEvents symbol upd) ↔
      (upd.opened ≠ none → prod.rangeStartNs ≤ barLo ∧
          barLo < prod.rangeEndNs →
        (blank symbol = false ∧ 0 ≤ barLo) ∧ SameContract segments barLo row.datetime) ∧
      (prod.rangeStartNs ≤ upd.eventTimeNs ∧ upd.eventTimeNs < prod.rangeEndNs →
        (blank symbol = false ∧ 0 ≤ upd.eventTimeNs) ∧
          SameContract segments barLo row.datetime) := by
  unfold MinuteKlineProducer.aggregatedEvents
  rw [delivers_append, aggregatedMinuteKlineUpdateEvent, delivers_close (by decide) pos,
    updated]
  refine and_congr_left fun _ => ?_
  unfold MinuteKlineProducer.openedEvents
  cases isOpened : upd.opened with
  | none => exact iff_of_true ⟨[], rfl, fun _ mem => (by cases mem)⟩ fun some => absurd rfl some
  | some opn =>
    dsimp only
    rw [aggregatedMinuteKlineOpenEvent, delivers_open (by decide) pos,
      live opn isOpened]
    exact ⟨fun shows_ _ => shows_, fun shows_ => shows_ (Option.some_ne_none opn)⟩

/-- Rows of an aggregated source, of which the aggregator has seen those before them. -/
theorem runDelivers_aggregated (longer : minuteKlineDurationNs < source.durationNs)
    {left : List Kline} {pending : List QueuedEvent} {lastNs : Int}
    {aggregator : MinuteKlineAggregator} (tracks : aggregator.Tracks previous lastNs)
    (duration : aggregator.durationNs = source.durationNs)
    (session : aggregator.session = source.session)
    (increasing : rows.Pairwise fun earlier later => earlier.datetime < later.datetime)
    (aligned : ∀ row ∈ rows, row.datetime % minuteKlineDurationNs = 0)
    (inside : ∀ row ∈ rows, source.startNs ≤ row.datetime ∧ row.datetime < source.endNs)
    (after : ∀ row ∈ rows, lastNs ≤ row.datetime) :
    RunDelivers source.underlyingSegments source.replaySymbol rows
        ⟨left, source.startNs, source.endNs, source.durationNs, some aggregator, pending⟩ ↔
      source.Attributable previous rows := by
  have pos : 0 < aggregator.durationNs := by
    have minute : 0 < minuteKlineDurationNs := by decide
    omega
  have notMinutely : source.durationNs ≠ minuteKlineDurationNs := longer.ne'
  induction rows generalizing previous lastNs aggregator with
  | nil => exact iff_of_true ⟨rfl, .nil⟩ trivial
  | cons row rows ih =>
    obtain ⟨hd, rest⟩ := pairwise_cons.mp increasing
    obtain ⟨isInside, restInside⟩ := forall_mem_cons.mp inside
    obtain ⟨isAligned, restAligned⟩ := forall_mem_cons.mp aligned
    obtain ⟨isAfter, -⟩ := forall_mem_cons.mp after
    have afterClose : ∀ alt ∈ rows, row.datetime + minuteKlineDurationNs ≤ alt.datetime := by
      intro alt mem
      have later := hd alt mem
      have otherAligned := restAligned alt mem
      unfold minuteKlineDurationNs nanosPerSecond at *
      omega
    have isStart : source.barStart row.datetime =
        minuteBarStart aggregator.durationNs row.datetime := by
      rw [barStart, if_neg notMinutely, duration]
    have reads : source.Reads row.datetime ↔
        ReadableMinute aggregator.durationNs aggregator.session row.datetime := by
      rw [Reads, if_neg notMinutely, duration, session]
    rw [runDelivers_cons, Attributable, reads, isStart]
    by_cases readable : ReadableMinute aggregator.durationNs aggregator.session row.datetime
    swap
    · obtain ⟨error, err⟩ := MinuteKlineAggregator.update_unreadable pos readable
      refine iff_of_false ?_ fun attributable => readable attributable.1
      rintro ⟨_, _, que, -⟩
      rw [MinuteKlineProducer.queueRow] at que
      dsimp only at que
      rw [err] at que
      cases que
    rw [and_iff_right readable]
    cases loc : aggregator.session.locate row.datetime with
    | error error =>
      obtain ⟨-, -, shut | ⟨_, isOpen, -⟩⟩ := readable
      · rw [loc] at shut; cases shut
      · rw [loc] at isOpen; cases isOpen
    | ok hit =>
      cases hit with
      | none =>
        have passes : source.PassesOver row.datetime := ⟨notMinutely, session ▸ loc⟩
        have kept := MinuteKlineAggregator.update_closed readable loc
        have next := ih (tracks.later isAfter) duration session rest restAligned restInside
          (fun alt mem => (hd alt mem).le) pos
        rw [if_pos passes]
        refine Iff.trans ?_ next
        simp only [MinuteKlineProducer.queueRow, kept]
        constructor
        · rintro ⟨_, _, que, -, run⟩
          cases que
          exact run
        · exact fun run => ⟨_, _, rfl, fun _ mem => (by cases mem), run⟩
      | some posn =>
        have stays : ¬ source.PassesOver row.datetime := fun passes => by
          have shut := passes.2
          rw [← session, loc] at shut
          cases shut
        have updated := MinuteKlineAggregator.update_located pos readable loc
        obtain ⟨afterTracks, afterDuration, afterSession, updatedStart, eventTime, opn⟩ :=
          tracks.incorporate pos row
        have opens := tracks.startsNewBar_iff pos isAfter
        generalize aggregator.incorporate row (cycleStart row.datetime)
          (minuteBarStart aggregator.durationNs row.datetime)
          (minuteBarEnd aggregator.durationNs (minuteBarStart aggregator.durationNs row.datetime))
          (row.datetime + minuteKlineDurationNs) = result at *
        have next := ih afterTracks (afterDuration.trans duration)
          (afterSession.trans session) rest restAligned restInside afterClose
          (afterDuration.symm ▸ pos)
        have hasOpened : result.2.opened ≠ none ↔
            previous ≠ some (minuteBarStart aggregator.durationNs row.datetime) := by
          rw [← opens, opn]
          split <;> simp_all
        have delivered := @delivers_aggregatedEvents
          ⟨left, source.startNs, source.endNs, source.durationNs, some aggregator, pending⟩
          row source.underlyingSegments source.replaySymbol result.2
          (minuteBarStart aggregator.durationNs row.datetime) (duration ▸ pos)
          (fun opening isOpening => by
            rw [opn] at isOpening
            split at isOpening
            · cases isOpening
              rfl
            · cases isOpening) updatedStart
        have bnds := minuteBarStart_bounds row.datetime pos
        have minute : 0 < minuteKlineDurationNs := by decide
        have nn := readable.1
        have shows_ : source.Shows row.datetime ↔ blank source.replaySymbol = false ∧
            SameContract source.underlyingSegments
              (minuteBarStart aggregator.durationNs row.datetime) row.datetime := by
          rw [Shows, isStart]
        rw [if_neg stays, shows_, ← and_assoc]
        refine Iff.trans ?_ (and_congr_right fun _ => next)
        simp only [MinuteKlineProducer.queueRow, updated]
        have due : Delivers source.underlyingSegments row
            (MinuteKlineProducer.aggregatedEvents ⟨left, source.startNs, source.endNs,
              source.durationNs, some aggregator, pending⟩ source.replaySymbol result.2) ↔
            (previous ≠ some (minuteBarStart aggregator.durationNs row.datetime) →
              source.startNs ≤ minuteBarStart aggregator.durationNs row.datetime →
              0 ≤ minuteBarStart aggregator.durationNs row.datetime ∧
                blank source.replaySymbol = false ∧
                SameContract source.underlyingSegments
                  (minuteBarStart aggregator.durationNs row.datetime) row.datetime) ∧
            (row.datetime + minuteKlineDurationNs < source.endNs →
              blank source.replaySymbol = false ∧
              SameContract source.underlyingSegments
                (minuteBarStart aggregator.durationNs row.datetime) row.datetime) := by
          rw [delivered, hasOpened, eventTime]
          dsimp only
          constructor
          · rintro ⟨opening, closing⟩
            refine ⟨fun isNew inR => ?_, fun inR => ?_⟩
            · obtain ⟨⟨nm, notEarly⟩, same⟩ := opening isNew ⟨inR, by omega⟩
              exact ⟨notEarly, nm, same⟩
            · obtain ⟨⟨nm, -⟩, same⟩ := closing ⟨by omega, inR⟩
              exact ⟨nm, same⟩
          · rintro ⟨opening, closing⟩
            refine ⟨fun isNew inR => ?_, fun inR => ?_⟩
            · obtain ⟨notEarly, nm, same⟩ := opening isNew inR.1
              exact ⟨⟨nm, notEarly⟩, same⟩
            · obtain ⟨nm, same⟩ := closing inR.2
              exact ⟨⟨nm, by omega⟩, same⟩
        rw [← due]
        constructor
        · rintro ⟨_, events, que, each, run⟩
          obtain ⟨hit, isFound, que⟩ := Result.of_bind que
          cases que
          exact ⟨⟨events, isFound, each⟩, run⟩
        · rintro ⟨⟨events, isEvents, each⟩, run⟩
          exact ⟨_, events, by rw [isEvents]; rfl, each, run⟩

/-! ## Requests -/

section

variable {requestStartNs requestEndNs : Int}
  (accepted : source.validate requestStartNs requestEndNs = .ok ())
  (mapped : source.underlyingSegments ≠ [])

include accepted mapped

theorem newProjected_source :
    ∃ agg, source.aggregator = .ok agg ∧
      (source.durationNs = minuteKlineDurationNs ∧ agg = none ∨
        minuteKlineDurationNs < source.durationNs ∧
          agg = some ⟨source.durationNs, source.session, none⟩) ∧
      HistoryBacktestReplayStream.newProjected ⟨requestStartNs, requestEndNs, [], [source]⟩ =
        HistoryBacktestReplayStream.start
          [⟨source.replaySymbol, .segments source.underlyingSegments, 0,
            .minuteKline (source.producer agg), none⟩] := by
  obtain ⟨_, -, rest⟩ := Result.of_bind accepted
  obtain ⟨_, -, rest⟩ := Result.of_bind rest
  split at rest
  · cases rest
  rename_i ne
  split at rest
  · cases rest
  rename_i inR
  split at rest
  · cases rest
  rename_i duration
  have projection : source.underlyingProjection = .segments source.underlyingSegments := by
    rw [underlyingProjection, if_neg (by simpa using mapped)]
  have los : ∀ agg, source.aggregator = .ok agg →
      HistoryBacktestReplayStream.newProjected ⟨requestStartNs, requestEndNs, [], [source]⟩ =
        HistoryBacktestReplayStream.start
          [⟨source.replaySymbol, .segments source.underlyingSegments, 0,
            .minuteKline (source.producer agg), none⟩] := by
    intro agg isAgg
    have isCursor : source.cursor requestStartNs requestEndNs =
        .ok ⟨source.replaySymbol, .segments source.underlyingSegments, 0,
            .minuteKline (source.producer agg), none⟩ := by
      rw [cursor, accepted, isAgg, projection]
      rfl
    rw [HistoryBacktestReplayStream.newProjected]
    dsimp only
    rw [if_neg (by omega), mapM_nil, mapM_cons, isCursor, mapM_nil]
    rfl
  by_cases minutely : source.durationNs = minuteKlineDurationNs
  · have isAgg : source.aggregator = .ok none := by
      rw [HistoryBacktestMinuteKlineSource.aggregator, if_neg (by omega)]
    exact ⟨none, isAgg, .inl ⟨minutely, rfl⟩, los none isAgg⟩
  · have divides : minuteKlineDurationNs < source.durationNs ∧
        source.durationNs % minuteKlineDurationNs = 0 := by
      by_contra bad
      refine duration ⟨minutely, ?_⟩
      by_cases longer : minuteKlineDurationNs < source.durationNs
      · exact .inr fun all => bad ⟨longer, all⟩
      · exact .inl (not_lt.mp longer)
    have isAgg : source.aggregator =
        .ok (some ⟨source.durationNs, source.session, none⟩) := by
      have isNew : MinuteKlineAggregator.new source.durationNs source.session =
          .ok ⟨source.durationNs, source.session, none⟩ := by
        rw [MinuteKlineAggregator.new, if_neg]
        exact fun bad => bad.elim (not_le.mpr divides.1) fun ragged => ragged divides.2
      rw [HistoryBacktestMinuteKlineSource.aggregator, if_pos divides.1, isNew]
    exact ⟨_, isAgg, .inr ⟨divides.1, rfl⟩, los _ isAgg⟩

theorem runDelivers_source
    (increasing : source.cacheRows.Pairwise fun pre post => pre.datetime < post.datetime)
    (algn : ∀ row ∈ source.cacheRows, row.datetime % minuteKlineDurationNs = 0) :
    ∃ agg, source.aggregator = .ok agg ∧
      HistoryBacktestReplayStream.newProjected ⟨requestStartNs, requestEndNs, [], [source]⟩ =
        HistoryBacktestReplayStream.start
          [⟨source.replaySymbol, .segments source.underlyingSegments, 0,
            .minuteKline (source.producer agg), none⟩] ∧
      (RunDelivers source.underlyingSegments source.replaySymbol source.rows
        (source.producer agg) ↔ source.Attributable none source.rows) := by
  obtain ⟨agg, isAgg, kind, los⟩ := newProjected_source accepted mapped
  have rowsIncreasing : source.rows.Pairwise fun pre post =>
      pre.datetime < post.datetime := increasing.filter _
  have rowsAligned : ∀ row ∈ source.rows, row.datetime % minuteKlineDurationNs = 0 :=
    fun row mem' => algn row (mem_of_mem_filter mem')
  have mem : ∀ row ∈ source.rows,
      source.startNs ≤ row.datetime ∧ row.datetime < source.endNs :=
    fun row mem' => of_decide_eq_true (mem_filter.mp mem').2
  refine ⟨agg, isAgg, los, ?_⟩
  rcases kind with ⟨minutely, rfl⟩ | ⟨longer, rfl⟩
  · exact runDelivers_canonical minutely rowsIncreasing mem fun _ none => by cases none
  · have trk : MinuteKlineAggregator.Tracks ⟨source.durationNs, source.session, none⟩ none
        source.startNs := trivial
    exact runDelivers_aggregated longer trk rfl rfl rowsIncreasing rowsAligned mem
      fun row mem' => (mem row mem').1

end

/-- An accepted source with segments is replayed to its end, each event with the contract of the
minute it newly incorporates, exactly when every minute is read and every bar that is shown starts
in a segment of that minute's contract. -/
theorem replay_carries_iff (source : HistoryBacktestMinuteKlineSource)
    (requestStartNs requestEndNs : Int)
    (accepted : source.validate requestStartNs requestEndNs = .ok ())
    (mapped : source.underlyingSegments ≠ [])
    (increasing : source.cacheRows.Pairwise fun earlier later =>
      earlier.datetime < later.datetime)
    (aligned : ∀ row ∈ source.cacheRows, row.datetime % minuteKlineDurationNs = 0) :
    ∃ events outcome,
      ReplaysRequest ⟨requestStartNs, requestEndNs, [], [source]⟩ events outcome ∧
      ((outcome = none ∧
          List.Forall₂ (CarriesContract source.underlyingSegments) source.incorporated events) ↔
        source.Attributable none source.rows) := by
  obtain ⟨agg, isAgg, los, runs⟩ :=
    runDelivers_source accepted mapped increasing aligned
  have incorporates : source.incorporated =
      (source.producer agg).incorporated source.replaySymbol source.rows := by
    rw [incorporated, isAgg]
  refine ⟨_, _, replaysRequest_start rfl los, ?_⟩
  rw [← runs, incorporates]
  rfl

theorem attributable_cons {row : Kline} (reads : source.Reads row.datetime)
    (tds : ¬ source.PassesOver row.datetime) (begs : 0 ≤ source.barStart row.datetime)
    (shows_ : source.Shows row.datetime)
    (rest : source.Attributable (some (source.barStart row.datetime)) rows) :
    source.Attributable previous (row :: rows) := by
  rw [Attributable, if_neg tds]
  exact ⟨reads, fun _ _ => ⟨begs, shows_⟩, fun _ => shows_, rest⟩

/-- Five-minute bars of a continuous contract, from `startNs` on, whose underlying changes at the
boundary of a bar. -/
def fiveMinuteSource (startNs : Int) (rows : List Kline) : HistoryBacktestMinuteKlineSource where
  cacheRows := rows
  snapshotSessionHash := "session"
  replaySymbol := "KQ.m@SHFE.rb"
  cacheSymbol := "KQ.m@SHFE.rb"
  startNs := startNs
  endNs := 600000000000
  durationNs := 300000000000
  session :=
    { snapshotHash := "session"
      windows := []
      increasing := KlineSessionTemplate.increasing_nil
      ordered := KlineSessionTemplate.ordered_nil }
  underlyingSegments := [⟨startNs, 300000000000, "SHFE.rb2405"⟩,
    ⟨300000000000, 600000000000, "SHFE.rb2410"⟩]

def tradedMinute (datetime : Int) : Kline :=
  ⟨datetime, datetime, .finite 100, .finite 102, .finite 99, .finite 101, 7, 40, 42, none⟩

theorem replay_carries_iff_aligned :
    ∃ events, ReplaysRequest ⟨0, 600000000000, [],
        [fiveMinuteSource 0 [tradedMinute 0, tradedMinute 300000000000]]⟩ events none ∧
      List.Forall₂ (CarriesContract (fiveMinuteSource 0 []).underlyingSegments)
        (fiveMinuteSource 0 [tradedMinute 0, tradedMinute 300000000000]).incorporated events := by
  let source := fiveMinuteSource 0 [tradedMinute 0, tradedMinute 300000000000]
  obtain ⟨events, out, replays, carries⟩ := replay_carries_iff source 0 600000000000
    (by decide) (by decide) (by decide) (by decide)
  have reads : ∀ ts ∈ [(0 : Int), 300000000000], source.Reads ts := by
    intro ts mem
    simp only [mem_cons, not_mem_nil, or_false] at mem
    rw [Reads, if_neg (by decide)]
    rcases mem with rfl | rfl
    · exact ⟨by decide, by decide, .inr ⟨⟨-50400000000000, 36000000000000, -50400000000000,
        36000000000000⟩, by decide, by decide, by decide⟩⟩
    · exact ⟨by decide, by decide, .inr ⟨⟨-50400000000000, 36000000000000, -50400000000000,
        36000000000000⟩, by decide, by decide, by decide⟩⟩
  have attr : source.Attributable none source.rows :=
    attributable_cons (reads 0 (by decide)) (fun passes => absurd passes.2 (by decide))
      (by decide) ⟨by decide, "SHFE.rb2405", by decide, by decide, by decide⟩
      (attributable_cons (reads 300000000000 (by decide))
        (fun passes => absurd passes.2 (by decide)) (by decide)
        ⟨by decide, "SHFE.rb2410", by decide, by decide, by decide⟩ trivial)
  obtain ⟨rfl, each⟩ := carries.mpr attr
  exact ⟨events, replays, each⟩

/-- A source that starts inside a bar stops with an error at its first event. -/
theorem not_replay_carries_insideBar :
    ¬ ∀ (source : HistoryBacktestMinuteKlineSource) (requestStartNs requestEndNs : Int),
      source.validate requestStartNs requestEndNs = .ok () → source.underlyingSegments ≠ [] →
      source.cacheRows.Pairwise (fun earlier later => earlier.datetime < later.datetime) →
      (∀ row ∈ source.cacheRows, row.datetime % minuteKlineDurationNs = 0) →
      ∀ events outcome,
        ReplaysRequest ⟨requestStartNs, requestEndNs, [], [source]⟩ events outcome →
        outcome = none ∧ List.Forall₂ (CarriesContract source.underlyingSegments)
          source.incorporated events := by
  intro carries
  let source := fiveMinuteSource 60000000000 [tradedMinute 60000000000]
  have accepted : source.validate 60000000000 600000000000 = .ok () := by decide
  have mapped : source.underlyingSegments ≠ [] := by decide
  have incr : source.cacheRows.Pairwise fun earlier later =>
      earlier.datetime < later.datetime := by decide
  have algn : ∀ row ∈ source.cacheRows, row.datetime % minuteKlineDurationNs = 0 := by decide
  obtain ⟨agg, isAgg, los, runs⟩ :=
    runDelivers_source accepted mapped incr algn
  have sent := carries source 60000000000 600000000000 accepted mapped incr algn _ _
    (replaysRequest_start rfl los)
  have incorporates : source.incorporated =
      (source.producer agg).incorporated source.replaySymbol source.rows := by
    rw [incorporated, isAgg]
  rw [incorporates] at sent
  have attr := runs.mp sent
  have isRows : source.rows = [tradedMinute 60000000000] := by decide
  have tds : ¬ source.PassesOver (tradedMinute 60000000000).datetime := fun passes =>
    absurd passes.2 (by decide)
  rw [isRows, Attributable, if_neg tds] at attr
  obtain ⟨-, name, isName, -⟩ := attr.2.2.1 (by decide)
  have out : underlyingAt source.underlyingSegments
      (source.barStart (tradedMinute 60000000000).datetime) = none := by decide
  rw [out] at isName
  cases isName

end HistoryBacktestMinuteKlineSource

end Tqsdk
