import Tqsdk.Task.HistoryReplay

/-!
# Runs of a replay

What a stream delivers up to its end or its first error.  With one source this is the queue of its
producer, each event with its underlying, whatever the heap does.
-/

namespace Tqsdk

/-- The events of a stream up to its end, or up to the error that ends it. -/
inductive StreamReplays :
    HistoryBacktestReplayStream → List ReplayKlineEvent → Option ReplayError → Prop
  | ended {stream after} : stream.nextEventSync = .ok (none, after) → StreamReplays stream [] none
  | failed {stream error} : stream.nextEventSync = .error error → StreamReplays stream [] (some error)
  | delivered {stream event after events outcome} :
      stream.nextEventSync = .ok (some event, after) → StreamReplays after events outcome →
      StreamReplays stream (event :: events) outcome

/-- The events of a request, which may be refused. -/
inductive ReplaysRequest (request : HistoryBacktestProjectedReplayRequest) :
    List ReplayKlineEvent → Option ReplayError → Prop
  | refused {error} : HistoryBacktestReplayStream.newProjected request = .error error →
      ReplaysRequest request [] (some error)
  | opened {stream events outcome} :
      HistoryBacktestReplayStream.newProjected request = .ok stream →
      StreamReplays stream events outcome → ReplaysRequest request events outcome

variable {events : List ReplayKlineEvent} {outcome : Option ReplayError}

theorem StreamReplays.of_next {stream alt : HistoryBacktestReplayStream}
    (run : StreamReplays alt events outcome) (same : stream.nextEventSync = alt.nextEventSync) :
    StreamReplays stream events outcome := by
  cases run with
  | ended isNext => exact .ended (same.trans isNext)
  | failed isNext => exact .failed (same.trans isNext)
  | delivered isNext rest => exact .delivered (same.trans isNext) rest

/-! ## The queue of a producer -/

/-- What the rows that are left will add to the queue, up to the first error. -/
def MinuteKlineProducer.queueRows (symbol : String) :
    List Kline → MinuteKlineProducer → List QueuedEvent × Option ReplayError
  | [], _ => ([], none)
  | row :: rows, producer =>
    match producer.queueRow symbol row with
    | .error error => ([], some error)
    | .ok (aggregator, events) =>
      let later := queueRows symbol rows { producer with aggregator }
      (events ++ later.1, later.2)

theorem MinuteKlineProducer.queueRows_pending (sym : String) (rows left : List Kline)
    (producer : MinuteKlineProducer) (pending : List QueuedEvent) :
    queueRows sym rows { producer with rows := left, pending } = queueRows sym rows producer := by
  induction rows generalizing producer with
  | nil => rfl
  | cons row rows ih =>
    have same : queueRow { producer with rows := left, pending } sym row =
        producer.queueRow sym row := rfl
    rw [queueRows, queueRows, same]
    cases producer.queueRow sym row with
    | error error => rfl
    | ok que =>
      dsimp only
      rw [← ih { producer with aggregator := que.1 }]

/-- Every event that a producer has still to give, and the error it ends in, if any. -/
def CursorProducer.queue (symbol : String) :
    CursorProducer → List QueuedEvent × Option ReplayError
  | .nativeKline events => (events, none)
  | .minuteKline producer =>
    let later := MinuteKlineProducer.queueRows symbol producer.rows producer
    (producer.pending ++ later.1, later.2)

/-- What an answer of `next_event` says of the queue. -/
def AnswersQueue (symbol : String) (queue : List QueuedEvent × Option ReplayError) :
    Except ReplayError (Option QueuedEvent × CursorProducer) → Prop
  | .error error => queue = ([], some error)
  | .ok (none, _) => queue = ([], none)
  | .ok (some event, after) => queue = (event :: (after.queue symbol).1, (after.queue symbol).2)

theorem MinuteKlineProducer.answersQueue (sym : String) (rows : List Kline)
    (producer : MinuteKlineProducer) :
    AnswersQueue sym
      (producer.pending ++ (queueRows sym rows producer).1, (queueRows sym rows producer).2)
      ((nextFrom sym rows producer).map fun next => (next.1, .minuteKline next.2)) := by
  induction rows generalizing producer with
  | nil =>
    rw [nextFrom]
    split
    · rename_i ev pending pend
      rw [pend]
      rfl
    · rename_i pend
      rw [pend]
      rfl
  | cons row rows ih =>
    rw [nextFrom]
    split
    · rename_i ev pending pend
      rw [pend]
      have same : queueRows sym (row :: rows) { producer with rows := row :: rows, pending } =
          queueRows sym (row :: rows) producer :=
        queueRows_pending sym (row :: rows) (row :: rows) producer pending
      rw [← same]
      rfl
    · rename_i pend
      rw [pend, queueRows, List.nil_append]
      cases que : producer.queueRow sym row with
      | error error => rfl
      | ok res =>
        have next := ih { producer with aggregator := res.1, pending := res.2 }
        have same : queueRows sym rows
            { producer with aggregator := res.1, pending := res.2 } =
            queueRows sym rows { producer with aggregator := res.1 } :=
          queueRows_pending sym rows producer.rows { producer with aggregator := res.1 } res.2
        rw [same] at next
        exact next

theorem CursorProducer.answersQueue (sym : String) (prod : CursorProducer) :
    AnswersQueue sym (prod.queue sym) (prod.nextEvent sym) := by
  cases prod with
  | nativeKline events => cases events <;> rfl
  | minuteKline prod =>
    have ans := MinuteKlineProducer.answersQueue sym prod.rows prod
    rw [nextEvent]
    cases next : MinuteKlineProducer.nextFrom sym prod.rows prod with
    | error error => rw [next] at ans; exact ans
    | ok res => rw [next] at ans; exact ans

/-! ## One source -/

/-- The queue with the underlyings, up to the first error. -/
def deliver (projection : UnderlyingProjection) :
    List QueuedEvent → Option ReplayError → List ReplayKlineEvent × Option ReplayError
  | [], outcome => ([], outcome)
  | queued :: rest, outcome =>
    match HistoryBacktestReplayStream.project projection queued with
    | .error error => ([], some error)
    | .ok event =>
      let later := deliver projection rest outcome
      (event :: later.1, later.2)

/-- What a cursor delivers. -/
def HistoryCursor.delivery (cursor : HistoryCursor) : List ReplayKlineEvent × Option ReplayError :=
  deliver cursor.underlyingProjection (cursor.producer.queue cursor.symbol).1
    (cursor.producer.queue cursor.symbol).2

namespace HistoryBacktestReplayStream

theorem nextEventSync_waiting (cur : HistoryCursor) (noNext : cur.next = none) :
    nextEventSync ⟨[cur], none⟩ = .ok (none, ⟨[cur], none⟩) := by
  have emp : popLeast [cur] = none := by simp [popLeast, leastItem, heap, noNext]
  simp [nextEventSync, refill, emp, Result.ok_bind]
  rfl

theorem nextEventSync_ready {cur : HistoryCursor} {inQ : QueuedEvent}
    (isNext : cur.next = some inQ) :
    nextEventSync ⟨[cur], none⟩ =
      (project cur.underlyingProjection inQ).map fun ev =>
        (some ev, ⟨[{ cur with next := none }], some 0⟩) := by
  have low : popLeast [cur] = some ⟨0, cur, inQ⟩ := by simp [popLeast, leastItem, heap, isNext]
  simp only [nextEventSync, refill, Result.ok_bind, low]
  cases project cur.underlyingProjection inQ <;> rfl

theorem nextEventSync_refill (cur : HistoryCursor) :
    nextEventSync ⟨[cur], some 0⟩ =
      cur.pushNextEvent >>= fun cur => nextEventSync ⟨[cur], none⟩ := by
  simp only [nextEventSync, refill, List.getElem?_cons_zero]
  cases cur.pushNextEvent <;> rfl

/-- A cursor that has been refilled delivers what its producer had. -/
theorem replays_pushed (cur : HistoryCursor) (noNext : cur.next = none) :
    match cur.pushNextEvent with
    | .error error => cur.delivery = ([], some error)
    | .ok push => StreamReplays ⟨[push], none⟩ cur.delivery.1 cur.delivery.2 := by
  induction len : (cur.producer.queue cur.symbol).1.length using Nat.strongRecOn
    generalizing cur with
  | ind len ih =>
    have ans := cur.producer.answersQueue cur.symbol
    rw [HistoryCursor.pushNextEvent, noNext, HistoryCursor.delivery]
    dsimp only
    cases next : cur.producer.nextEvent cur.symbol with
    | error error =>
      rw [next] at ans
      rw [show cur.producer.queue cur.symbol = ([], some error) from ans]
      rfl
    | ok res =>
      obtain ⟨ev, post⟩ := res
      rw [next] at ans
      cases ev with
      | none =>
        rw [show cur.producer.queue cur.symbol = ([], none) from ans]
        exact .ended (nextEventSync_waiting _ rfl)
      | some que =>
        have isQueue : cur.producer.queue cur.symbol =
            (que :: (post.queue cur.symbol).1, (post.queue cur.symbol).2) :=
          ans
        rw [isQueue] at len ⊢
        dsimp only [deliver]
        let push : HistoryCursor := { cur with producer := post, next := some que }
        have isNext : nextEventSync ⟨[push], none⟩ =
            (project cur.underlyingProjection que).map fun ev =>
              (some ev, ⟨[{ cur with producer := post, next := none }], some 0⟩) :=
          nextEventSync_ready rfl
        change StreamReplays ⟨[push], none⟩ _ _
        cases projected : project cur.underlyingProjection que with
        | error error =>
          rw [projected] at isNext
          exact .failed isNext
        | ok ev =>
          rw [projected] at isNext
          refine .delivered isNext ?_
          have rest := ih (post.queue cur.symbol).1.length
            (by rw [← len]; exact Nat.lt_succ_self _)
            { cur with producer := post, next := none } rfl rfl
          have again := nextEventSync_refill { cur with producer := post, next := none }
          split at rest
          · rename_i error err
            rw [err] at again
            have emp : deliver cur.underlyingProjection (post.queue cur.symbol).1
                (post.queue cur.symbol).2 = ([], some error) := rest
            rw [emp]
            exact .failed again
          · rename_i refilled isRefilled
            rw [isRefilled] at again
            exact rest.of_next again

theorem replays_start (cur : HistoryCursor) (noNext : cur.next = none) :
    match start [cur] with
    | .error error => cur.delivery = ([], some error)
    | .ok stream => StreamReplays stream cur.delivery.1 cur.delivery.2 := by
  let syms := ([cur].map HistoryCursor.symbol).dedup
  let ranked : HistoryCursor := { cur with symbolRank := (syms.filter (· < cur.symbol)).length }
  have run := replays_pushed ranked noNext
  have isStart : start [cur] =
      ranked.pushNextEvent.map fun push => ⟨[push], none⟩ := by
    have one : start [cur] =
        ([ranked].mapM HistoryCursor.pushNextEvent >>= fun crss =>
          Except.ok (⟨crss, none⟩ : HistoryBacktestReplayStream)) := rfl
    rw [one, List.mapM_cons, List.mapM_nil]
    cases ranked.pushNextEvent <;> rfl
  have same : ranked.delivery = cur.delivery := rfl
  rw [isStart]
  rw [same] at run
  cases push : ranked.pushNextEvent with
  | error error => rw [push] at run; exact run
  | ok cur => rw [push] at run; exact run

end HistoryBacktestReplayStream

/-- What a request delivers when it starts one cursor. -/
theorem replaysRequest_start {req : HistoryBacktestProjectedReplayRequest} {cur : HistoryCursor}
    (noNext : cur.next = none) (begs : HistoryBacktestReplayStream.newProjected req =
      HistoryBacktestReplayStream.start [cur]) :
    ReplaysRequest req cur.delivery.1 cur.delivery.2 := by
  have run := HistoryBacktestReplayStream.replays_start cur noNext
  cases began : HistoryBacktestReplayStream.start [cur] with
  | error error =>
    rw [began] at run begs
    rw [show cur.delivery = ([], some error) from run]
    exact .refused begs
  | ok stream =>
    rw [began] at run begs
    exact .opened begs run

end Tqsdk
