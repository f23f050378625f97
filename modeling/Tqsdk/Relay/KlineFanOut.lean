import Tqsdk.Relay.Engine

/-!
# What the operations of the relay do to K-lines

For every operation: which synthesizers and completed rows it leaves behind, key by key, and which
rows it sends to which client.  The other parts of the engine are the same before and after.
-/

namespace Tqsdk

open List OrdMap

/-- Some frame carries the row to the client. -/
def SendsRow (frames : List DownstreamFrame) (clientId : ClientId) (key : KlineSourceKey)
    (row : RelayKlineRow) : Prop :=
  ∃ frame ∈ frames, frame.clientId = clientId ∧
    MarketUpdate.kline key.symbol key.durationNs row ∈ frame.data

section SendsRow

variable {clientId : ClientId} {key : KlineSourceKey} {row : RelayKlineRow}

@[simp] theorem sendsRow_nil : ¬SendsRow [] clientId key row := by
  rintro ⟨frm, mem, -⟩
  cases mem

@[simp] theorem sendsRow_append {pre post : List DownstreamFrame} :
    SendsRow (pre ++ post) clientId key row ↔
      SendsRow pre clientId key row ∨ SendsRow post clientId key row := by
  simp only [SendsRow, mem_append]
  constructor
  · rintro ⟨frm, member | member, sent⟩
    · exact .inl ⟨frm, member, sent⟩
    · exact .inr ⟨frm, member, sent⟩
  · rintro (⟨frm, member, sent⟩ | ⟨frm, member, sent⟩)
    · exact ⟨frm, .inl member, sent⟩
    · exact ⟨frm, .inr member, sent⟩

theorem sendsRow_flatMap {α : Type} {its : List α} {frms : α → List DownstreamFrame} :
    SendsRow (its.flatMap frms) clientId key row ↔
      ∃ item ∈ its, SendsRow (frms item) clientId key row := by
  simp only [SendsRow, mem_flatMap]
  constructor
  · rintro ⟨frm, ⟨item, mem, inn⟩, sent⟩
    exact ⟨item, mem, frm, inn, sent⟩
  · rintro ⟨item, mem, frm, inn, sent⟩
    exact ⟨frm, ⟨item, mem, inn⟩, sent⟩

end SendsRow

namespace InterestRegistry

/-- The client has a chart that shows the symbol in the duration. -/
def Shows (registry : InterestRegistry) (clientId : ClientId) (key : KlineSourceKey) : Prop :=
  ∃ chartId source, registry.chartOf clientId chartId = some source ∧
    source.durationNs = key.durationNs ∧ key.symbol ∈ source.symbols

/-- Some client has such a chart. -/
def Active (registry : InterestRegistry) (key : KlineSourceKey) : Prop :=
  ∃ clientId, registry.Shows clientId key

/-- The sources of a symbol and duration have the charts that show them. -/
theorem Indexed.shows_iff {reg : InterestRegistry} (indexed : reg.Indexed)
    {clientId : ClientId} {key : KlineSourceKey} : reg.Shows clientId key ↔
      ∃ source ∈ (reg.sourcesForSymbol key.symbol).filter (·.durationNs = key.durationNs),
        ∃ sub ∈ reg.chartSubscriptions source,
          sub.clientId = clientId := by
  simp only [mem_filter, decide_eq_true_eq]
  constructor
  · rintro ⟨cht, source, mapped, same, inn⟩
    obtain ⟨syms, got, -⟩ := indexed.requested _ _ _ mapped
    exact ⟨source, ⟨(indexed.bySymbol _ _).mpr ⟨inn, clientId, cht, mapped⟩, same⟩,
      ⟨clientId, cht, syms⟩, indexed.mem_chartSubscriptions.mpr ⟨mapped, got⟩, rfl⟩
  · rintro ⟨source, ⟨seen, same⟩, sub, mem, rfl⟩
    exact ⟨sub.chartId, source, (indexed.mem_chartSubscriptions.mp mem).1, same,
      ((indexed.bySymbol _ _).mp seen).1⟩

end InterestRegistry

namespace RelayEngine

variable {engine : RelayEngine}

/-- The synthesizer and the completed rows under a key. -/
def viewAt (engine : RelayEngine) (key : KlineSourceKey) :
    Option KlineSynthesis × Option (List RelayKlineRow) :=
  (get? key engine.klines, get? key engine.completedKlines)

/-- All but the synthesizers and the completed rows is the same. -/
structure SameFeed (before after : RelayEngine) : Prop where
  cache : after.cache = before.cache
  interests : after.interests = before.interests
  persisted : after.persistedOfficialKlines = before.persistedOfficialKlines
  official : after.officialKlineSources = before.officialKlineSources

theorem SameFeed.refl (engine : RelayEngine) : SameFeed engine engine := ⟨rfl, rfl, rfl, rfl⟩

theorem SameFeed.trans {hd snd third : RelayEngine} (left : SameFeed hd snd)
    (right : SameFeed snd third) : SameFeed hd third :=
  ⟨right.cache.trans left.cache, right.interests.trans left.interests,
    right.persisted.trans left.persisted, right.official.trans left.official⟩

/-! ## Live bars -/

/-- What recording bars makes of the rows under a key. -/
def recordRows (capacity : Nat) (rows : Option (List RelayKlineRow))
    (completed : List RelayKlineRow) : Option (List RelayKlineRow) :=
  completed.foldl (fun rows row => some (recordRow capacity (rows.getD []) row)) rows

theorem viewAt_recordCompletedKline (key alt : KlineSourceKey) (row : RelayKlineRow) :
    (engine.recordCompletedKline key row).viewAt alt =
      if alt = key then
        ((engine.viewAt key).1, recordRows engine.cache.klineCapacity (engine.viewAt key).2 [row])
      else engine.viewAt alt := by
  unfold viewAt recordCompletedKline recordRows completedRows
  dsimp only
  rw [get?_insert]
  by_cases same : alt = key
  · rw [if_pos same, if_pos same, same]
    rfl
  · rw [if_neg same, if_neg same]

variable {symbol : String} {source : SourceKey} {bar : RelayKlineRow}

theorem mem_bindingUpdates {sub : ChartSubscription} {done : RelayKlineRow} {upd : MarketUpdate}
    (mem : upd ∈ engine.bindingUpdates source sub symbol done) :
    ∃ prim dur secondary primaryId secondaryId,
      upd = .binding prim dur secondary primaryId secondaryId := by
  unfold bindingUpdates at mem
  split at mem
  · split at mem
    · obtain ⟨alt, -, hit⟩ := mem_filterMap.mp mem
      obtain ⟨otherId, -, rfl⟩ := Option.map_eq_some_iff.mp hit
      exact ⟨_, _, _, _, _, rfl⟩
    · split at mem
      · obtain ⟨primaryId, -, rfl⟩ := mem_map.mp mem
        exact ⟨_, _, _, _, _, rfl⟩
      · cases mem
  · cases mem

theorem sendsRow_completedFrames {sub : ChartSubscription} {done : RelayKlineRow}
    {clientId : ClientId} {key : KlineSourceKey} {row : RelayKlineRow} :
    SendsRow (engine.completedFrames source sub symbol done) clientId key row ↔
      sub.clientId = clientId ∧ key = ⟨source.durationNs, symbol⟩ ∧ row = done := by
  unfold completedFrames
  constructor
  · rintro ⟨frm, mem, rfl, car⟩
    simp only [mem_append, mem_cons, mem_map] at mem
    rcases mem with (rfl | ⟨upd, binding, rfl⟩) | chart
    · obtain ⟨symbol_eq, duration_eq, rfl⟩ := MarketUpdate.kline.inj (mem_singleton.mp car)
      refine ⟨rfl, ?_, rfl⟩
      rw [← symbol_eq, ← duration_eq]
    · obtain ⟨_, _, _, _, _, rfl⟩ := mem_bindingUpdates binding
      rw [mem_singleton] at car
      cases car
    · split at chart
      · rw [mem_singleton] at chart
        subst chart
        rw [mem_singleton] at car
        cases car
      · cases chart
  · rintro ⟨rfl, rfl, rfl⟩
    exact ⟨⟨sub.clientId, [.kline symbol source.durationNs row]⟩,
      mem_append_left _ mem_cons_self, rfl, mem_singleton_self _⟩

/-- Completed bars are recorded under their key and sent to every chart of the sources. -/
theorem completeKlines_spec (key : KlineSourceKey) {srcs : List SourceKey}
    (matching : ∀ source ∈ srcs, source.durationNs = key.durationNs)
    (done : List RelayKlineRow) (engine : RelayEngine) :
    SameFeed engine (engine.completeKlines key srcs done).1 ∧
    (∀ alt, (engine.completeKlines key srcs done).1.viewAt alt =
      if alt = key then
        ((engine.viewAt key).1, recordRows engine.cache.klineCapacity (engine.viewAt key).2 done)
      else engine.viewAt alt) ∧
    ∀ clientId alt row,
      SendsRow (engine.completeKlines key srcs done).2 clientId alt row ↔
        alt = key ∧ row ∈ done ∧ ∃ source ∈ srcs,
          ∃ sub ∈ engine.interests.chartSubscriptions source,
            sub.clientId = clientId := by
  induction done generalizing engine with
  | nil =>
    refine ⟨.refl engine, fun alt => ?_, fun clientId alt row => ?_⟩
    · rw [completeKlines]
      split
      · rename_i same
        rw [same]
        rfl
      · rfl
    · simp [completeKlines]
  | cons hd done ih =>
    obtain ⟨feed, view, sent⟩ := ih (engine.recordCompletedKline key hd)
    rw [completeKlines]
    dsimp only [completeKline]
    refine ⟨⟨feed.cache, feed.interests, feed.persisted, feed.official⟩, fun alt => ?_,
      fun clientId alt row => ?_⟩
    · rw [view, viewAt_recordCompletedKline, viewAt_recordCompletedKline]
      by_cases same : alt = key
      · rw [if_pos same, if_pos same, if_pos rfl]
        rfl
      · rw [if_neg same, if_neg same, if_neg same]
    · rw [sendsRow_append, sent, sendsRow_flatMap]
      simp only [sendsRow_flatMap, sendsRow_completedFrames, mem_cons]
      constructor
      · rintro (⟨source, member, sub, seen, own, rfl, rfl⟩ | ⟨rfl, member, shown⟩)
        · refine ⟨?_, .inl rfl, source, member, sub, seen, own⟩
          rw [matching source member]
        · exact ⟨rfl, .inr member, shown⟩
      · rintro ⟨rfl, rfl | member, source, mem, sub, seen, own⟩
        · refine .inl ⟨source, mem, sub, seen, own, ?_, rfl⟩
          rw [matching source mem]
        · exact .inr ⟨rfl, member, source, mem, sub, seen, own⟩

theorem klineFramesOf_spec (indexed : engine.interests.Indexed) (symbol : String)
    (row : RelayTickRow) (dur : Int) :
    SameFeed engine (engine.klineFramesOf symbol row dur).1 ∧
    (∀ alt, (engine.klineFramesOf symbol row dur).1.viewAt alt =
      if alt = ⟨dur, symbol⟩ ∧ alt ∉ engine.officialKlineSources then
        (some ((engine.synthesisOf alt).pushTick row).1,
          recordRows engine.cache.klineCapacity (engine.viewAt alt).2
            ((engine.synthesisOf alt).pushTick row).2)
      else engine.viewAt alt) ∧
    ∀ clientId alt done,
      SendsRow (engine.klineFramesOf symbol row dur).2 clientId alt done ↔
        (alt = ⟨dur, symbol⟩ ∧ alt ∉ engine.officialKlineSources) ∧
          done ∈ ((engine.synthesisOf alt).pushTick row).2 ∧
          engine.interests.Shows clientId alt := by
  unfold klineFramesOf
  dsimp only
  split
  · rename_i off
    refine ⟨.refl engine, fun alt => ?_, fun clientId alt done => ?_⟩
    · rw [if_neg]
      rintro ⟨rfl, free⟩
      exact free off
    · constructor
      · exact fun sent => absurd sent sendsRow_nil
      · rintro ⟨⟨rfl, free⟩, -⟩
        exact absurd off free
  · rename_i free
    have matching : ∀ source ∈ (engine.interests.sourcesForSymbol symbol).filter
        (·.durationNs = dur), source.durationNs = dur := by
      intro source mem
      exact of_decide_eq_true (mem_filter.mp mem).2
    obtain ⟨feed, view, sent⟩ := completeKlines_spec ⟨dur, symbol⟩ matching
      ((engine.synthesisOf ⟨dur, symbol⟩).pushTick row).2
      { engine with
        klines := OrdMap.insert ⟨dur, symbol⟩
          ((engine.synthesisOf ⟨dur, symbol⟩).pushTick row).1 engine.klines }
    refine ⟨⟨feed.cache, feed.interests, feed.persisted, feed.official⟩, fun alt => ?_,
      fun clientId alt done => ?_⟩
    · rw [view]
      by_cases same : alt = ⟨dur, symbol⟩
      · subst same
        rw [if_pos rfl, if_pos ⟨rfl, free⟩]
        dsimp only [viewAt]
        rw [get?_insert, if_pos rfl]
      · rw [if_neg same, if_neg fun both => same both.1]
        dsimp only [viewAt]
        rw [get?_insert_ne same]
    · rw [sent]
      constructor
      · rintro ⟨rfl, mem, shown⟩
        exact ⟨⟨rfl, free⟩, mem, indexed.shows_iff.mpr shown⟩
      · rintro ⟨⟨rfl, -⟩, mem, shown⟩
        exact ⟨rfl, mem, indexed.shows_iff.mp shown⟩

/-- The view after one tick is pushed. -/
def pushedView (engine : RelayEngine) (key : KlineSourceKey) (row : RelayTickRow) :
    Option KlineSynthesis × Option (List RelayKlineRow) :=
  (some ((engine.synthesisOf key).pushTick row).1,
    recordRows engine.cache.klineCapacity (engine.viewAt key).2
      ((engine.synthesisOf key).pushTick row).2)

theorem synthesisOf_eq (key : KlineSourceKey) :
    engine.synthesisOf key = (engine.viewAt key).1.getD (.new key.durationNs) := rfl

theorem foldl_klineFramesOf (symbol : String) (row : RelayTickRow) {durs : List Int}
    (nd : durs.Nodup) (frms : List DownstreamFrame) (engine : RelayEngine)
    (indexed : engine.interests.Indexed) :
    SameFeed engine (durs.foldl (fun st dur =>
      ((st.1.klineFramesOf symbol row dur).1,
        st.2 ++ (st.1.klineFramesOf symbol row dur).2)) (engine, frms)).1 ∧
    (∀ alt, (durs.foldl (fun st dur =>
      ((st.1.klineFramesOf symbol row dur).1,
        st.2 ++ (st.1.klineFramesOf symbol row dur).2)) (engine, frms)).1.viewAt alt =
      if (alt.symbol = symbol ∧ alt.durationNs ∈ durs) ∧ alt ∉ engine.officialKlineSources
      then engine.pushedView alt row else engine.viewAt alt) ∧
    ∀ clientId alt done, SendsRow (durs.foldl (fun st dur =>
      ((st.1.klineFramesOf symbol row dur).1,
        st.2 ++ (st.1.klineFramesOf symbol row dur).2)) (engine, frms)).2 clientId alt done ↔
      SendsRow frms clientId alt done ∨
        ((alt.symbol = symbol ∧ alt.durationNs ∈ durs) ∧ alt ∉ engine.officialKlineSources) ∧
        done ∈ ((engine.synthesisOf alt).pushTick row).2 ∧
        engine.interests.Shows clientId alt := by
  induction durs generalizing engine frms with
  | nil => exact ⟨.refl engine, by simp, by simp⟩
  | cons hd durs ih =>
    rw [nodup_cons] at nd
    obtain ⟨new, nd⟩ := nd
    obtain ⟨feed, view, sent⟩ := klineFramesOf_spec indexed symbol row hd
    obtain ⟨feedLater, viewLater, sentLater⟩ := ih nd (frms ++ (engine.klineFramesOf symbol row
      hd).2) (engine.klineFramesOf symbol row hd).1 (feed.interests ▸ indexed)
    have away : ∀ alt : KlineSourceKey, alt.durationNs ∈ durs →
        (engine.klineFramesOf symbol row hd).1.viewAt alt = engine.viewAt alt := by
      intro alt seen
      rw [view, if_neg]
      rintro ⟨rfl, -⟩
      exact new seen
    have nm : ∀ alt : KlineSourceKey, alt = ⟨hd, symbol⟩ ↔
        alt.symbol = symbol ∧ alt.durationNs = hd := by
      rintro ⟨dur, otherSymbol⟩
      simp [and_comm]
    rw [foldl_cons]
    refine ⟨feed.trans feedLater, fun alt => ?_, fun clientId alt done => ?_⟩
    · rw [viewLater, feed.official]
      by_cases seen : alt.durationNs ∈ durs
      · have same := away alt seen
        simp only [pushedView, synthesisOf_eq, same, feed.cache, mem_cons, seen, or_true]
      · rw [if_neg fun both => seen both.1.2, view]
        simp only [nm, mem_cons, seen, or_false]
        rfl
    · rw [sentLater, sendsRow_append, sent, feed.official, feed.interests]
      by_cases seen : alt.durationNs ∈ durs
      · have ne : alt.durationNs ≠ hd := fun same => new (same ▸ seen)
        simp only [synthesisOf_eq, away alt seen, nm, ne, and_false,
          false_and, or_false, mem_cons, seen, or_true]
      · simp only [nm, mem_cons, seen, or_false, and_false, false_and]

theorem mem_klineDurations (indexed : engine.interests.Indexed) {key : KlineSourceKey} :
    key.durationNs ∈ engine.klineDurations key.symbol ↔
      0 < key.durationNs ∧ engine.interests.Active key := by
  simp only [klineDurations, mem_dedup, mem_insertionSort, mem_filter, mem_map, decide_eq_true_eq]
  constructor
  · rintro ⟨⟨source, seen, same⟩, pos⟩
    obtain ⟨mem, clientId, cht, mapped⟩ := (indexed.bySymbol _ _).mp seen
    exact ⟨pos, clientId, cht, source, mapped, same, mem⟩
  · rintro ⟨pos, clientId, cht, source, mapped, same, mem⟩
    exact ⟨⟨source, (indexed.bySymbol _ _).mpr ⟨mem, clientId, cht, mapped⟩, same⟩, pos⟩

/-- The tick reaches the synthesizer of the key. -/
def Takes (engine : RelayEngine) (symbol : String) (key : KlineSourceKey) : Prop :=
  key.symbol = symbol ∧ 0 < key.durationNs ∧ engine.interests.Active key ∧
    key ∉ engine.officialKlineSources

/-- One tick is pushed into the synthesizers that take it, and the bars it completes go to the
clients that show them. -/
theorem klineFrames_spec (indexed : engine.interests.Indexed) (symbol : String)
    (row : RelayTickRow) :
    SameFeed engine (engine.klineFrames symbol row).1 ∧
    (∀ key, engine.Takes symbol key →
      (engine.klineFrames symbol row).1.viewAt key = engine.pushedView key row) ∧
    (∀ key, ¬engine.Takes symbol key →
      (engine.klineFrames symbol row).1.viewAt key = engine.viewAt key) ∧
    ∀ clientId key done, SendsRow (engine.klineFrames symbol row).2 clientId key done ↔
      engine.Takes symbol key ∧ done ∈ ((engine.synthesisOf key).pushTick row).2 ∧
        engine.interests.Shows clientId key := by
  have takes : ∀ key, ((key.symbol = symbol ∧ key.durationNs ∈ engine.klineDurations symbol) ∧
      key ∉ engine.officialKlineSources) ↔ engine.Takes symbol key := by
    intro key
    constructor
    · rintro ⟨⟨rfl, seen⟩, free⟩
      obtain ⟨pos, act⟩ := (mem_klineDurations indexed).mp seen
      exact ⟨rfl, pos, act, free⟩
    · rintro ⟨rfl, pos, act, free⟩
      exact ⟨⟨rfl, (mem_klineDurations indexed).mpr ⟨pos, act⟩⟩, free⟩
  obtain ⟨feed, view, sent⟩ := foldl_klineFramesOf symbol row
    (show (engine.klineDurations symbol).Nodup from nodup_dedup _) [] engine indexed
  refine ⟨feed, fun key took => ?_, fun key ignored => ?_, fun clientId key done => ?_⟩
  · rw [klineFrames, view, if_pos ((takes key).mpr took)]
  · rw [klineFrames, view, if_neg fun both => ignored ((takes key).mp both)]
  · rw [klineFrames, sent, takes]
    simp

/-! ## Frames without K-lines -/

theorem silent_quoteFrames {clientId : ClientId} {key : KlineSourceKey} :
    ¬SendsRow (engine.quoteFrames symbol) clientId key bar := by
  rintro ⟨frm, mem, -, car⟩
  unfold quoteFrames at mem
  split at mem
  · cases mem
  · obtain ⟨alt, -, rfl⟩ := mem_map.mp mem
    rw [mem_singleton] at car
    cases car

theorem silent_tickChartFrames {row : RelayTickRow} {clientId : ClientId} {key : KlineSourceKey} :
    ¬SendsRow (engine.tickChartFrames symbol row) clientId key bar := by
  rintro ⟨frm, mem, -, car⟩
  rcases mem_append.mp mem with told | told
  · obtain ⟨alt, -, rfl⟩ := mem_map.mp told
    rw [mem_singleton] at car
    cases car
  · obtain ⟨source, -, told⟩ := mem_flatMap.mp told
    obtain ⟨sub, -, rfl⟩ := mem_map.mp told
    rw [mem_singleton] at car
    cases car

theorem silent_cachedQuoteFrames {own clientId : ClientId} {syms : List String}
    {key : KlineSourceKey} :
    ¬SendsRow (engine.cachedQuoteFramesForClient own syms) clientId key bar := by
  rintro ⟨frm, mem, -, car⟩
  obtain ⟨symbol, -, told⟩ := mem_filterMap.mp mem
  obtain ⟨q, -, rfl⟩ := Option.map_eq_some_iff.mp told
  rw [mem_singleton] at car
  cases car

/-! ## Replay -/

/-- Persisted official rows take the place of whatever is under the key. -/
def restoredView (persisted : Option (List RelayKlineRow))
    (view : Option KlineSynthesis × Option (List RelayKlineRow)) :
    Option KlineSynthesis × Option (List RelayKlineRow) :=
  match persisted with
  | none => view
  | some rows => (none, some rows)

/-- The view once there is a synthesizer; none when there are no ticks to make it from. -/
def rebuiltView (capacity : Nat) (durationNs : Int) (ticks : List RelayTickRow)
    (view : Option KlineSynthesis × Option (List RelayKlineRow)) :
    Option (Option KlineSynthesis × Option (List RelayKlineRow)) :=
  if view.1.isSome then some view
  else if ticks = [] then none
  else
    some (some ((KlineSynthesis.new durationNs).pushTicks ticks).1,
      recordRows capacity view.2 ((KlineSynthesis.new durationNs).pushTicks ticks).2)

/-- What a replay leaves under a key, and the rows it sends. -/
def replayOutcome (engine : RelayEngine) (key : KlineSourceKey) :
    (Option KlineSynthesis × Option (List RelayKlineRow)) × List RelayKlineRow :=
  let restored := restoredView (get? key engine.persistedOfficialKlines) (engine.viewAt key)
  match rebuiltView engine.cache.klineCapacity key.durationNs
      ((engine.cache.tickRing key.symbol).getD []) restored with
  | none => (restored, [])
  | some view => (view, view.2.getD [])

theorem restoreOfficial_spec (key : KlineSourceKey) :
    (engine.restoreOfficial key).cache = engine.cache ∧
    (engine.restoreOfficial key).interests = engine.interests ∧
    (engine.restoreOfficial key).persistedOfficialKlines = engine.persistedOfficialKlines ∧
    (∀ alt, alt ∈ (engine.restoreOfficial key).officialKlineSources ↔
      alt ∈ engine.officialKlineSources ∨
        (alt = key ∧ get? key engine.persistedOfficialKlines ≠ none)) ∧
    ∀ alt, (engine.restoreOfficial key).viewAt alt =
      if alt = key then
        restoredView (get? key engine.persistedOfficialKlines) (engine.viewAt key)
      else engine.viewAt alt := by
  unfold restoreOfficial
  cases got : get? key engine.persistedOfficialKlines with
  | none =>
    refine ⟨rfl, rfl, rfl, by simp, fun alt => ?_⟩
    dsimp only
    split
    · rename_i same
      rw [same]
      rfl
    · rfl
  | some rows =>
    refine ⟨rfl, rfl, rfl, fun alt => ?_, fun alt => ?_⟩
    · dsimp only
      rw [mem_insert_iff]
      simp [or_comm]
    · dsimp only [viewAt]
      rw [get?_erase, get?_insert]
      split <;> rfl

theorem foldl_recordCompletedKline (key : KlineSourceKey) (done : List RelayKlineRow)
    (engine : RelayEngine) :
    SameFeed engine (done.foldl (fun engine row => engine.recordCompletedKline key row) engine) ∧
    ∀ alt, (done.foldl (fun engine row =>
      engine.recordCompletedKline key row) engine).viewAt alt =
        if alt = key then
          ((engine.viewAt key).1, recordRows engine.cache.klineCapacity (engine.viewAt key).2 done)
        else engine.viewAt alt := by
  induction done generalizing engine with
  | nil =>
    refine ⟨.refl engine, fun alt => ?_⟩
    rw [foldl_nil]
    split
    · rename_i same
      rw [same]
      rfl
    · rfl
  | cons hd done ih =>
    obtain ⟨feed, view⟩ := ih (engine.recordCompletedKline key hd)
    refine ⟨⟨feed.cache, feed.interests, feed.persisted, feed.official⟩, fun alt => ?_⟩
    rw [foldl_cons, view, viewAt_recordCompletedKline, viewAt_recordCompletedKline]
    by_cases same : alt = key
    · rw [if_pos same, if_pos same, if_pos rfl]
      rfl
    · rw [if_neg same, if_neg same, if_neg same]

theorem rebuildSynthesis_spec (key : KlineSourceKey) :
    match engine.rebuildSynthesis key with
    | none => rebuiltView engine.cache.klineCapacity key.durationNs
        ((engine.cache.tickRing key.symbol).getD []) (engine.viewAt key) = none
    | some rebuilt =>
      SameFeed engine rebuilt ∧
      rebuiltView engine.cache.klineCapacity key.durationNs
        ((engine.cache.tickRing key.symbol).getD []) (engine.viewAt key) =
          some (rebuilt.viewAt key) ∧
      ∀ alt, alt ≠ key → rebuilt.viewAt alt = engine.viewAt alt := by
  unfold rebuildSynthesis rebuiltView
  by_cases made : (get? key engine.klines).isSome = true
  · rw [if_pos made]
    exact ⟨.refl engine, if_pos made, fun _ _ => rfl⟩
  · rw [if_neg made]
    have unmade : ¬(engine.viewAt key).1.isSome = true := made
    cases tks : (engine.cache.tickRing key.symbol).getD [] with
    | nil =>
      dsimp only
      rw [if_neg unmade, if_pos rfl]
    | cons hd rest =>
      obtain ⟨feed, view⟩ := foldl_recordCompletedKline key
        ((KlineSynthesis.new key.durationNs).pushTicks (hd :: rest)).2 engine
      dsimp only
      refine ⟨⟨feed.cache, feed.interests, feed.persisted, feed.official⟩, ?_, fun alt ne => ?_⟩
      · have here := view key
        rw [if_pos rfl] at here
        rw [if_neg unmade, if_neg (cons_ne_nil _ _)]
        dsimp only [viewAt] at here ⊢
        rw [get?_insert, if_pos rfl, (Prod.mk.inj here).2]
      · have there := view alt
        rw [if_neg ne] at there
        dsimp only [viewAt] at there ⊢
        rw [get?_insert_ne ne]
        exact there

theorem replaySymbol_spec (sub : ChartSubscription) (source : SourceKey)
    (rpl : KlineReplay) (symbol : String) :
    (replaySymbol sub source rpl symbol).engine.cache = rpl.engine.cache ∧
    (replaySymbol sub source rpl symbol).engine.interests = rpl.engine.interests ∧
    (replaySymbol sub source rpl symbol).engine.persistedOfficialKlines =
      rpl.engine.persistedOfficialKlines ∧
    (∀ alt, alt ∈
        (replaySymbol sub source rpl symbol).engine.officialKlineSources ↔
      alt ∈ rpl.engine.officialKlineSources ∨ (alt = ⟨source.durationNs, symbol⟩ ∧
        get? alt rpl.engine.persistedOfficialKlines ≠ none)) ∧
    (∀ alt, (replaySymbol sub source rpl symbol).engine.viewAt alt =
      if alt = ⟨source.durationNs, symbol⟩ then (rpl.engine.replayOutcome alt).1
      else rpl.engine.viewAt alt) ∧
    (replaySymbol sub source rpl symbol).klineUpdates = rpl.klineUpdates ++
      (rpl.engine.replayOutcome ⟨source.durationNs, symbol⟩).2.map
        (.kline symbol source.durationNs) ∧
    ∀ upd ∈ (replaySymbol sub source rpl symbol).bindingUpdates,
      upd ∈ rpl.bindingUpdates ∨ ∃ prim dur secondary primaryId secondaryId,
        upd = .binding prim dur secondary primaryId secondaryId := by
  generalize key_eq : (⟨source.durationNs, symbol⟩ : KlineSourceKey) = key
  obtain ⟨c, wants, sav, off, view⟩ := @restoreOfficial_spec rpl.engine key
  have rebuilt := @rebuildSynthesis_spec (rpl.engine.restoreOfficial key) key
  have at_key := view key
  rw [if_pos rfl] at at_key
  rw [c, at_key] at rebuilt
  have srcs : ∀ alt, alt ∈ (rpl.engine.restoreOfficial key).officialKlineSources ↔
      alt ∈ rpl.engine.officialKlineSources ∨ (alt = key ∧
        get? alt rpl.engine.persistedOfficialKlines ≠ none) := by
    intro alt
    rw [off]
    constructor
    · rintro (old | ⟨rfl, got⟩)
      · exact .inl old
      · exact .inr ⟨rfl, got⟩
    · rintro (old | ⟨rfl, got⟩)
      · exact .inl old
      · exact .inr ⟨rfl, got⟩
  unfold replaySymbol replayOutcome
  rw [key_eq]
  dsimp only
  cases made : (rpl.engine.restoreOfficial key).rebuildSynthesis key with
  | none =>
    rw [made] at rebuilt
    dsimp only at rebuilt ⊢
    refine ⟨c, wants, sav, srcs, fun alt => ?_, ?_, fun _ => .inl⟩
    · rw [view]
      split
      · rename_i same
        subst same
        rw [rebuilt]
      · rfl
    · rw [rebuilt]
      simp
  | some engine =>
    rw [made] at rebuilt
    obtain ⟨feed, out, away⟩ := rebuilt
    dsimp only
    refine ⟨feed.cache.trans c, feed.interests.trans wants, feed.persisted.trans sav, fun alt => ?_,
      fun alt => ?_, ?_, fun upd mem => ?_⟩
    · rw [feed.official]
      exact srcs alt
    · split
      · rename_i same
        subst same
        rw [out]
      · rename_i ne
        rw [away alt ne, view, if_neg ne]
    · rw [out]
      rfl
    · rcases mem_append.mp mem with old | added
      · exact .inl old
      · obtain ⟨row, -, added⟩ := mem_flatMap.mp added
        exact .inr (mem_bindingUpdates added)

theorem replayOutcome_congr {hd snd : RelayEngine} {key : KlineSourceKey} (c : snd.cache = hd.cache)
    (sav : snd.persistedOfficialKlines = hd.persistedOfficialKlines)
    (view : snd.viewAt key = hd.viewAt key) :
    snd.replayOutcome key = hd.replayOutcome key := by
  rw [replayOutcome, replayOutcome, c, sav, view]

/-- The replay of the symbols of a source, one after the other. -/
theorem foldl_replaySymbol_spec (sub : ChartSubscription) (source : SourceKey)
    {syms : List String} (nd : syms.Nodup) (rpl : KlineReplay) :
    (syms.foldl (replaySymbol sub source) rpl).engine.cache = rpl.engine.cache ∧
    (syms.foldl (replaySymbol sub source) rpl).engine.interests = rpl.engine.interests ∧
    (syms.foldl (replaySymbol sub source) rpl).engine.persistedOfficialKlines =
      rpl.engine.persistedOfficialKlines ∧
    (∀ alt, alt ∈
        (syms.foldl (replaySymbol sub source) rpl).engine.officialKlineSources ↔
      alt ∈ rpl.engine.officialKlineSources ∨
        ((alt.durationNs = source.durationNs ∧ alt.symbol ∈ syms) ∧
          get? alt rpl.engine.persistedOfficialKlines ≠ none)) ∧
    (∀ alt, (syms.foldl (replaySymbol sub source) rpl).engine.viewAt alt =
      if alt.durationNs = source.durationNs ∧ alt.symbol ∈ syms then
        (rpl.engine.replayOutcome alt).1
      else rpl.engine.viewAt alt) ∧
    (syms.foldl (replaySymbol sub source) rpl).klineUpdates =
      rpl.klineUpdates ++ (syms.flatMap fun symbol =>
        (rpl.engine.replayOutcome ⟨source.durationNs, symbol⟩).2.map
          (.kline symbol source.durationNs)) ∧
    ∀ upd ∈ (syms.foldl (replaySymbol sub source) rpl).bindingUpdates,
      upd ∈ rpl.bindingUpdates ∨ ∃ prim dur secondary primaryId secondaryId,
        upd = .binding prim dur secondary primaryId secondaryId := by
  induction syms generalizing rpl with
  | nil => exact ⟨rfl, rfl, rfl, by simp, by simp, by simp, fun _ => .inl⟩
  | cons hd syms ih =>
    rw [nodup_cons] at nd
    obtain ⟨new, nd⟩ := nd
    obtain ⟨c, wants, sav, off, view, upds, bindings⟩ := replaySymbol_spec sub source rpl hd
    obtain ⟨cacheLater, interestsLater, persistedLater, officialLater, viewLater, updatesLater,
      bindingsLater⟩ := ih nd (replaySymbol sub source rpl hd)
    have nm : ∀ alt : KlineSourceKey, alt = ⟨source.durationNs, hd⟩ ↔
        alt.durationNs = source.durationNs ∧ alt.symbol = hd := by
      rintro ⟨dur, symbol⟩
      simp
    have away : ∀ alt : KlineSourceKey, alt.symbol ∈ syms →
        (replaySymbol sub source rpl hd).engine.replayOutcome alt =
          rpl.engine.replayOutcome alt := by
      intro alt seen
      refine replayOutcome_congr c sav ?_
      rw [view, if_neg]
      rintro rfl
      exact new seen
    rw [foldl_cons]
    refine ⟨cacheLater.trans c, interestsLater.trans wants,
      persistedLater.trans sav, fun alt => ?_, fun alt => ?_, ?_, fun upd mem => ?_⟩
    · rw [officialLater, off, sav, nm, mem_cons]
      tauto
    · rw [viewLater]
      by_cases seen : alt.symbol ∈ syms
      · have ne : alt.symbol ≠ hd := fun same => new (same ▸ seen)
        rw [away alt seen, view]
        simp only [nm, seen, ne, and_true, and_false, if_false, mem_cons, or_true]
      · rw [if_neg fun both => seen both.2, view]
        simp only [nm, mem_cons, seen, or_false]
    · rw [updatesLater, upds, flatMap_cons, append_assoc]
      congr 2
      exact flatMap_congr fun symbol mem => by
        rw [away ⟨source.durationNs, symbol⟩ mem]
    · rcases bindingsLater upd mem with early | binding
      · exact bindings upd early
      · exact .inr binding

/-- The replay in reply to a chart of positive duration sends the rows of its keys to its client,
and no others. -/
theorem replayCachedKlineFrames_spec (sub : ChartSubscription)
    (nd : source.symbols.Nodup) (pos : 0 < source.durationNs) :
    (engine.replayCachedKlineFrames sub source).1.cache = engine.cache ∧
    (engine.replayCachedKlineFrames sub source).1.interests = engine.interests ∧
    (engine.replayCachedKlineFrames sub source).1.persistedOfficialKlines =
      engine.persistedOfficialKlines ∧
    (∀ alt, alt ∈
        (engine.replayCachedKlineFrames sub source).1.officialKlineSources ↔
      alt ∈ engine.officialKlineSources ∨
        ((alt.durationNs = source.durationNs ∧ alt.symbol ∈ source.symbols) ∧
          get? alt engine.persistedOfficialKlines ≠ none)) ∧
    (∀ alt, (engine.replayCachedKlineFrames sub source).1.viewAt alt =
      if alt.durationNs = source.durationNs ∧ alt.symbol ∈ source.symbols then
        (engine.replayOutcome alt).1
      else engine.viewAt alt) ∧
    ∀ clientId key row,
      SendsRow (engine.replayCachedKlineFrames sub source).2 clientId key row ↔
        clientId = sub.clientId ∧
          (key.durationNs = source.durationNs ∧ key.symbol ∈ source.symbols) ∧
          row ∈ (engine.replayOutcome key).2 := by
  obtain ⟨c, wants, sav, off, view, upds, bindings⟩ :=
    foldl_replaySymbol_spec sub source nd ⟨engine, [], [], none⟩
  unfold replayCachedKlineFrames
  rw [if_neg (by omega)]
  dsimp only at c wants sav off view upds bindings ⊢
  refine ⟨c, wants, sav, off, view, fun clientId key row => ?_⟩
  generalize source.symbols.foldl (replaySymbol sub source) ⟨engine, [], [], none⟩ =
    replay at upds bindings ⊢
  rw [nil_append] at upds
  have car : MarketUpdate.kline key.symbol key.durationNs row ∈
      replay.klineUpdates ++ replay.bindingUpdates ++
        (replay.lastPrimaryCompletedId.toList.map fun lastId =>
          chartUpdate sub source lastId lastId) ↔
      (key.durationNs = source.durationNs ∧ key.symbol ∈ source.symbols) ∧
        row ∈ (engine.replayOutcome key).2 := by
    simp only [upds, mem_append, mem_flatMap, mem_map]
    constructor
    · rintro ((⟨symbol, seen, sent, mem, same⟩ | binding) | ⟨lastId, -, same⟩)
      · obtain ⟨rfl, duration_eq, rfl⟩ := MarketUpdate.kline.inj same
        refine ⟨⟨duration_eq.symm, seen⟩, ?_⟩
        rw [duration_eq] at mem
        exact mem
      · rcases bindings _ binding with none | ⟨_, _, _, _, _, same⟩
        · cases none
        · cases same
      · cases same
    · rintro ⟨⟨duration_eq, seen⟩, mem⟩
      refine .inl (.inl ⟨key.symbol, seen, row, ?_, by rw [duration_eq]⟩)
      rw [← duration_eq]
      exact mem
  constructor
  · rintro ⟨frm, mem, rfl, inn⟩
    split at mem
    · cases mem
    · obtain rfl := mem_singleton.mp mem
      exact ⟨rfl, car.mp inn⟩
  · rintro ⟨rfl, sent⟩
    have inn := car.mpr sent
    rw [if_neg (ne_nil_of_mem inn)]
    exact ⟨_, mem_singleton_self _, rfl, inn⟩

/-! ## Pruning -/

theorem isActiveKey_iff (indexed : engine.interests.Indexed) {key : KlineSourceKey} :
    engine.isActiveKey key = true ↔ engine.interests.Active key := by
  rw [isActiveKey, any_eq_true]
  simp only [decide_eq_true_eq, indexed.mem_activeChartSources]
  constructor
  · rintro ⟨source, ⟨clientId, cht, mp⟩, shown⟩
    exact ⟨clientId, cht, source, mp, shown⟩
  · rintro ⟨clientId, cht, source, mp, shown⟩
    exact ⟨source, ⟨clientId, cht, mp⟩, shown⟩

theorem pruneInactiveKlineState_spec (indexed : engine.interests.Indexed) :
    SameFeed engine engine.pruneInactiveKlineState ∧
    (∀ key, engine.interests.Active key →
      engine.pruneInactiveKlineState.viewAt key = engine.viewAt key) ∧
    ∀ key, ¬engine.interests.Active key →
      engine.pruneInactiveKlineState.viewAt key = (none, none) := by
  refine ⟨⟨rfl, rfl, rfl, rfl⟩, fun key shown => ?_, fun key hid => ?_⟩
  · have kept := (isActiveKey_iff indexed).mpr shown
    exact Prod.ext (@get?_filter_key _ _ _ key engine.isActiveKey kept _)
      (@get?_filter_key _ _ _ key engine.isActiveKey kept _)
  · have drop := Bool.eq_false_iff.mpr fun kept => hid ((isActiveKey_iff indexed).mp kept)
    exact Prod.ext (@get?_filter_key_eq_none _ _ _ key engine.isActiveKey drop _)
      (@get?_filter_key_eq_none _ _ _ key engine.isActiveKey drop _)

end RelayEngine

end Tqsdk
