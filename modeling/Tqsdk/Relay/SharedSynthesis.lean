import Tqsdk.Relay.EngineRuns

/-!
# Synthesis shared by all charts

While only ticks arrive, every synthesizer of the engine is where one fed with all ticks of its
symbol would be, whenever it was made: when the first tick came, or from the ring when a chart was
set.  So every chart gets the same bars.
-/

namespace Tqsdk

open List Option

/-! ## One synthesizer for all ticks -/

/-- The synthesizer fed with all ticks from the beginning. -/
def synthesized (durationNs : Int) (ticks : List RelayTickRow) : KlineSynthesis :=
  ((KlineSynthesis.new durationNs).pushTicks ticks).1

/-- The bars it completes. -/
def completedBars (durationNs : Int) (ticks : List RelayTickRow) : List RelayKlineRow :=
  ((KlineSynthesis.new durationNs).pushTicks ticks).2

theorem synthesized_snoc (dur : Int) (ticks : List RelayTickRow) (tick : RelayTickRow) :
    synthesized dur (ticks ++ [tick]) = ((synthesized dur ticks).pushTick tick).1 := by
  rw [synthesized, KlineSynthesis.pushTicks_snoc]
  rfl

theorem completedBars_snoc (dur : Int) (ticks : List RelayTickRow) (tick : RelayTickRow) :
    completedBars dur (ticks ++ [tick]) = completedBars dur ticks ++
      ((synthesized dur ticks).pushTick tick).2 := by
  rw [completedBars, KlineSynthesis.pushTicks_snoc]
  rfl

/-- Completed bars are numbered from 0; the current one has the next number. -/
structure Numbered (synthesis : KlineSynthesis) (bars : List RelayKlineRow) : Prop where
  completed : bars.map (·.id) = (List.range bars.length).map Int.ofNat
  current : ∀ bar, synthesis.current = some bar →
    bar.row.id = bars.length ∧ synthesis.nextId = bars.length + 1
  fresh : synthesis.current = none → bars = [] ∧ synthesis.nextId = 0

theorem Numbered.pushTick {synth : KlineSynthesis} {bars : List RelayKlineRow}
    (nums : Numbered synth bars) (tick : RelayTickRow) :
    Numbered (synth.pushTick tick).1 (bars ++ (synth.pushTick tick).2) := by
  unfold KlineSynthesis.pushTick
  dsimp only
  split
  · rw [append_nil]
    exact nums
  · cases here : synth.current with
    | none =>
      obtain ⟨rfl, next⟩ := nums.fresh here
      refine ⟨rfl, fun bar same => ?_, nofun⟩
      cases same
      exact ⟨next, by simp [next]⟩
    | some cur =>
      obtain ⟨id, next⟩ := nums.current cur here
      dsimp only
      split
      · rw [append_nil]
        refine ⟨nums.completed, fun bar same => ?_, nofun⟩
        cases same
        exact ⟨id, next⟩
      · refine ⟨?_, fun bar same => ?_, nofun⟩
        · rw [map_append, nums.completed, length_append, length_singleton, range_succ, map_append]
          exact congrArg (fun id => _ ++ [id]) id
        · cases same
          rw [length_append, length_singleton]
          exact ⟨by rw [MutableKline.newBar, next]; rfl, by rw [next]; rfl⟩

theorem numbered_completedBars (dur : Int) (ticks : List RelayTickRow) :
    Numbered (synthesized dur ticks) (completedBars dur ticks) := by
  induction ticks using List.reverseRecOn with
  | nil =>
    rw [synthesized, completedBars, KlineSynthesis.pushTicks]
    exact ⟨rfl, fun bar same => absurd same (some_ne_none bar).symm, fun _ => ⟨rfl, rfl⟩⟩
  | append_singleton ticks tick ih =>
    rw [synthesized_snoc, completedBars_snoc]
    exact ih.pushTick tick

theorem nodup_completedBars (dur : Int) (ticks : List RelayTickRow) :
    ((completedBars dur ticks).map (·.id)).Nodup := by
  rw [(numbered_completedBars dur ticks).completed]
  exact nodup_range.map Int.ofNat_injective

/-- Rows with new ids are appended, as long as they fit. -/
theorem recordRows_append {cap : Nat} {rows : Option (List RelayKlineRow)}
    {done : List RelayKlineRow} (nd : ((rows.getD [] ++ done).map (·.id)).Nodup)
    (few : (rows.getD [] ++ done).length ≤ cap) :
    (RelayEngine.recordRows cap rows done).getD [] = rows.getD [] ++ done := by
  unfold RelayEngine.recordRows
  induction done generalizing rows with
  | nil => simp
  | cons row done ih =>
    have note : RelayEngine.recordRow cap (rows.getD []) row = rows.getD [] ++ [row] := by
      rw [RelayEngine.recordRow, if_neg, trimRing_eq_self]
      · rw [length_append] at few ⊢
        rw [length_cons] at few
        rw [length_singleton]
        omega
      · rw [Option.any_eq_true]
        rintro ⟨last, hit, same⟩
        rw [map_append, map_cons, nodup_append] at nd
        refine nd.2.2 last.id (mem_map_of_mem (mem_of_getLast? hit)) row.id
          mem_cons_self (of_decide_eq_true same)
    have join : (some (rows.getD [] ++ [row])).getD [] ++ done =
        rows.getD [] ++ row :: done := by
      rw [getD_some, append_assoc]
      rfl
    rw [foldl_cons, note, ih (join ▸ nd) (join ▸ few), join]

/-! ## The cache without evictions -/

namespace MarketCache

variable {cache : MarketCache}

theorem makeRoom_kept {adm : Admission} {alts : List String} {gone : Nat} :
    gone ≤ (adm.makeRoom alts cache gone).2.evictedSymbols ∧
      ((adm.makeRoom alts cache gone).2.evictedSymbols = gone →
        (adm.makeRoom alts cache gone).1.ticks = cache.ticks) := by
  induction alts generalizing cache gone with
  | nil =>
    unfold Admission.makeRoom
    split <;> exact ⟨le_refl _, fun _ => rfl⟩
  | cons vic alts ih =>
    unfold Admission.makeRoom
    split
    · obtain ⟨more, -⟩ := @ih (cache.evictSymbol vic) (gone + 1)
      exact ⟨by omega, fun same => by omega⟩
    · exact ⟨le_refl _, fun _ => rfl⟩

/-- The limits of a cache. -/
def SameCapacity (before after : MarketCache) : Prop :=
  after.tickCapacity = before.tickCapacity ∧ after.klineCapacity = before.klineCapacity

theorem makeRoom_sameCapacity {adm : Admission} {alts : List String} {gone : Nat} :
    cache.SameCapacity (adm.makeRoom alts cache gone).1 := by
  induction alts generalizing cache gone with
  | nil =>
    unfold Admission.makeRoom
    split <;> exact ⟨rfl, rfl⟩
  | cons vic alts ih =>
    unfold Admission.makeRoom
    split
    · have evictedSame : cache.SameCapacity (cache.evictSymbol vic) := by
        unfold evictSymbol
        split <;> exact ⟨rfl, rfl⟩
      obtain ⟨left, right⟩ := @ih (cache.evictSymbol vic) (gone + 1)
      exact ⟨left.trans evictedSame.1, right.trans evictedSame.2⟩
    · exact ⟨rfl, rfl⟩

theorem admit_sameCapacity (cache : MarketCache) (sym : String) (hasTick : Bool) :
    cache.SameCapacity (cache.admitWrite sym hasTick).1 := by
  unfold admitWrite
  split
  · exact ⟨rfl, rfl⟩
  · exact makeRoom_sameCapacity

theorem pushTick_sameCapacity (cache : MarketCache) (sym : String) (row : RelayTickRow) :
    cache.SameCapacity (cache.pushTick sym row).1 := by
  have same := cache.admit_sameCapacity sym true
  unfold pushTick
  dsimp only
  split
  · exact same
  · exact same

/-- A write within the limits evicts nothing. -/
def FitsTick (cache : MarketCache) (symbol : String) (row : RelayTickRow) : Prop :=
  (cache.pushTick symbol row).2.stored = true ∧ (cache.pushTick symbol row).2.evictedSymbols = 0

theorem tickRing_pushTick {sym : String} {row : RelayTickRow} (fits : cache.FitsTick sym row)
    (alt : String) :
    ((cache.pushTick sym row).1.tickRing alt).getD [] =
      if alt = sym then
        pushRow cache.tickCapacity ((cache.tickRing sym).getD []) row
      else (cache.tickRing alt).getD [] := by
  obtain ⟨got, unevicted⟩ := fits
  unfold pushTick at got unevicted ⊢
  dsimp only at got unevicted ⊢
  have kept : (cache.admitWrite sym true).2.stored = true →
      (cache.admitWrite sym true).2.evictedSymbols = 0 →
      (cache.admitWrite sym true).1.ticks = cache.ticks := by
    unfold admitWrite
    split
    · exact fun _ _ => rfl
    · exact fun _ => makeRoom_kept.2
  split at got
  · rename_i no
    rw [got] at no
    cases no
  · rename_i acc
    rw [if_neg acc] at unevicted ⊢
    have ticks := kept got unevicted
    dsimp only [tickRing]
    rw [ticks, OrdMap.get?_insert, (cache.admit_sameCapacity sym true).1]
    split <;> rfl

/-- A tick with a new id goes to the end of a ring that has room. -/
theorem pushRow_append {cap : Nat} {ring : List RelayTickRow} {row : RelayTickRow}
    (newer : ∀ last ∈ ring, last.id < row.id) (room : ring.length < cap) :
    pushRow cap ring row = ring ++ [row] := by
  have same_epoch : startsEpoch ring row = false := by
    rw [startsEpoch, Option.any_eq_false]
    intro last hit
    have := newer last (mem_of_getLast? hit)
    simp only [decide_eq_false_iff_not, not_and]
    omega
  have put : placeTick ring row = ring ++ [row] := by
    unfold placeTick
    cases hit : ring.getLast? with
    | none => rfl
    | some last =>
      have := newer last (mem_of_getLast? hit)
      dsimp only
      rw [if_neg (by omega), if_neg (by omega)]
  rw [pushRow, same_epoch, if_neg Bool.false_ne_true, put, trimRing_eq_self]
  rw [length_append, length_singleton]
  omega

end MarketCache

/-! ## The shared state -/

/-- The view that one synthesizer fed with all ticks would have. -/
def FullView (durationNs : Int) (ticks : List RelayTickRow)
    (view : Option KlineSynthesis × Option (List RelayKlineRow)) : Prop :=
  view.1 = some (synthesized durationNs ticks) ∧ view.2.getD [] = completedBars durationNs ticks

namespace RelayEngine

variable {cal : String → Option Int} {engine : RelayEngine}
  {ticks : String → List RelayTickRow}

/-- Some chart shows the key, and there are ticks to make its bars from. -/
def Synthesizes (registry : InterestRegistry) (ticks : String → List RelayTickRow)
    (key : KlineSourceKey) : Prop :=
  0 < key.durationNs ∧ registry.Active key ∧ ticks key.symbol ≠ []

/-- All ticks are in the rings, and every key that some chart shows has the full view. -/
structure Shared (engine : RelayEngine) (ticks : String → List RelayTickRow) : Prop where
  indexed : engine.interests.Indexed
  ring : ∀ symbol, (engine.cache.tickRing symbol).getD [] = ticks symbol
  persisted : engine.persistedOfficialKlines = []
  official : engine.officialKlineSources = []
  views : ∀ key, (Synthesizes engine.interests ticks key ∧
      FullView key.durationNs (ticks key.symbol) (engine.viewAt key)) ∨
    (¬Synthesizes engine.interests ticks key ∧ engine.viewAt key = (none, none))

/-- The bars of every key that some chart shows fit in the rings. -/
def BarsFit (registry : InterestRegistry) (capacity : Nat)
    (ticks : String → List RelayTickRow) : Prop :=
  ∀ key, 0 < key.durationNs → registry.Active key →
    (completedBars key.durationNs (ticks key.symbol)).length ≤ capacity

theorem Shared.synthesisOf (both : Shared engine ticks) {key : KlineSourceKey}
    (pos : 0 < key.durationNs) (act : engine.interests.Active key) :
    engine.synthesisOf key = synthesized key.durationNs (ticks key.symbol) ∧
      (engine.viewAt key).2.getD [] = completedBars key.durationNs (ticks key.symbol) := by
  rw [synthesisOf_eq]
  rcases both.views key with ⟨-, made, rows⟩ | ⟨unmade, view⟩
  · rw [made]
    exact ⟨rfl, rows⟩
  · have emp : ticks key.symbol = [] := by
      by_contra some
      exact unmade ⟨pos, act, some⟩
    rw [view, emp, synthesized, completedBars, KlineSynthesis.pushTicks]
    exact ⟨rfl, rfl⟩

/-! ## Ticks -/

/-- The ticks once one more has come. -/
def withTick (ticks : String → List RelayTickRow) (symbol : String) (row : RelayTickRow) :
    String → List RelayTickRow :=
  fun other => if other = symbol then ticks other ++ [row] else ticks other

/-- A live tick sends every client the bars it completes, for each key that the client shows. -/
theorem sendsRow_ingestTick (both : Shared engine ticks) (sym : String)
    (row : RelayTickRow) (cid : ClientId) (key : KlineSourceKey) (bar : RelayKlineRow) :
    SendsRow (engine.ingestTick sym row).2 cid key bar ↔
      key.symbol = sym ∧ 0 < key.durationNs ∧ engine.interests.Shows cid key ∧
        bar ∈ ((synthesized key.durationNs (ticks key.symbol)).pushTick row).2 := by
  obtain ⟨-, -, -, sent⟩ := @klineFrames_spec
    { engine with cache := (engine.cache.pushTick sym row).1 } both.indexed sym row
  rw [ingestTick]
  dsimp only
  rw [sendsRow_append, sendsRow_append, sent]
  constructor
  · rintro ((sent | sent) | ⟨⟨here, pos, act, -⟩, mem, shown⟩)
    · exact absurd sent silent_quoteFrames
    · exact absurd sent silent_tickChartFrames
    · refine ⟨here, pos, shown, ?_⟩
      rw [← (both.synthesisOf pos act).1]
      exact mem
  · rintro ⟨here, pos, shown, mem⟩
    refine .inr ⟨⟨here, pos, ⟨cid, shown⟩, ?_⟩, ?_, shown⟩
    · rw [both.official]
      exact not_mem_nil
    · rw [← (both.synthesisOf pos ⟨cid, shown⟩).1] at mem
      exact mem

theorem Shared.ingestTick (both : Shared engine ticks) {sym : String} {row : RelayTickRow}
    (fits : engine.cache.FitsTick sym row) (newer : ∀ last ∈ ticks sym, last.id < row.id)
    (room : (ticks sym).length < engine.cache.tickCapacity)
    (few : BarsFit engine.interests engine.cache.klineCapacity (withTick ticks sym row)) :
    Shared (engine.ingestTick sym row).1 (withTick ticks sym row) ∧
      engine.cache.SameCapacity (engine.ingestTick sym row).1.cache := by
  obtain ⟨feed, took, kept, -⟩ := @klineFrames_spec
    { engine with cache := (engine.cache.pushTick sym row).1 } both.indexed sym row
  have same := engine.cache.pushTick_sameCapacity sym row
  have takes : ∀ key, ({ engine with
      cache := (engine.cache.pushTick sym row).1 } : RelayEngine).Takes sym key ↔
        key.symbol = sym ∧ 0 < key.durationNs ∧ engine.interests.Active key := by
    intro key
    refine ⟨fun took => ⟨took.1, took.2.1, took.2.2.1⟩, fun live => ?_⟩
    refine ⟨live.1, live.2.1, live.2.2, ?_⟩
    rw [both.official]
    exact not_mem_nil
  refine ⟨⟨?_, fun alt => ?_, feed.persisted.trans both.persisted,
    feed.official.trans both.official, fun key => ?_⟩, ?_⟩
  · rw [RelayEngine.ingestTick]
    dsimp only
    rw [feed.interests]
    exact both.indexed
  · rw [RelayEngine.ingestTick]
    dsimp only
    rw [feed.cache]
    dsimp only
    rw [MarketCache.tickRing_pushTick fits, both.ring, both.ring, withTick]
    split
    · rename_i here
      rw [here, MarketCache.pushRow_append newer room]
    · rfl
  · have wants : (engine.ingestTick sym row).1.interests = engine.interests := feed.interests
    rw [wants]
    by_cases live : key.symbol = sym ∧ 0 < key.durationNs ∧ engine.interests.Active key
    · obtain ⟨here, pos, act⟩ := live
      have view := took key ((takes key).mpr ⟨here, pos, act⟩)
      have pre := both.synthesisOf pos act
      have post : withTick ticks sym row key.symbol = ticks key.symbol ++ [row] := if_pos here
      have fit := few key pos act
      have nd := nodup_completedBars key.durationNs (ticks key.symbol ++ [row])
      rw [post] at fit ⊢
      rw [completedBars_snoc, ← pre.1, ← pre.2] at fit nd
      refine .inl ⟨⟨pos, act, ?_⟩, ?_⟩
      · rw [post]
        exact append_ne_nil_of_right_ne_nil _ (cons_ne_nil _ _)
      · rw [RelayEngine.ingestTick]
        dsimp only
        rw [view, FullView, synthesized_snoc, completedBars_snoc, ← pre.1, ← pre.2]
        exact ⟨rfl, recordRows_append nd (same.2 ▸ fit)⟩
    · have view := kept key fun took => live ((takes key).mp took)
      have untouched : (engine.ingestTick sym row).1.viewAt key = engine.viewAt key := view
      rw [untouched]
      by_cases here : key.symbol = sym
      · have hid : ∀ ticks, ¬Synthesizes engine.interests ticks key :=
          fun _ synth => live ⟨here, synth.1, synth.2.1⟩
        rcases both.views key with full | none
        · exact absurd full.1 (hid _)
        · exact .inr ⟨hid _, none.2⟩
      · have alts : withTick ticks sym row key.symbol = ticks key.symbol := if_neg here
        rw [Synthesizes, alts]
        exact both.views key
  · rw [RelayEngine.ingestTick]
    dsimp only
    rw [feed.cache]
    exact same

/-! ## Commands -/

/-- Between two engines whose feeds agree, the views decide. -/
theorem Shared.of_sameFeed {post : RelayEngine} {registry : InterestRegistry}
    (both : Shared engine ticks) (indexed : registry.Indexed)
    (feed : SameFeed { engine with interests := registry } post)
    (views : ∀ key, (Synthesizes registry ticks key ∧
        FullView key.durationNs (ticks key.symbol) (post.viewAt key)) ∨
      (¬Synthesizes registry ticks key ∧ post.viewAt key = (none, none))) :
    Shared post ticks :=
  ⟨feed.interests ▸ indexed, fun sym => feed.cache ▸ both.ring sym,
    feed.persisted.trans both.persisted, feed.official.trans both.official,
    fun key => feed.interests ▸ views key⟩

theorem Shared.setQuotes (both : Shared engine ticks) (cid : ClientId) (syms : List String) :
    Shared { engine with interests := engine.interests.setQuotes cid syms } ticks := by
  have shows : ∀ key, Synthesizes (engine.interests.setQuotes cid syms) ticks key ↔
      Synthesizes engine.interests ticks key := by
    intro key
    simp only [Synthesizes, InterestRegistry.Active, InterestRegistry.Shows,
      InterestRegistry.chartOf_setQuotes]
  refine both.of_sameFeed (both.indexed.setQuotes cid syms) (.refl _) fun key => ?_
  rw [shows]
  exact both.views key

variable {registry : InterestRegistry}

section

variable (both : Shared engine ticks) (indexed : registry.Indexed)

include both indexed

/-- Charts are taken away: the keys that none shows any more are forgotten. -/
theorem Shared.prune
    (fewer : ∀ key, 0 < key.durationNs → registry.Active key → engine.interests.Active key) :
    Shared { engine with interests := registry }.pruneInactiveKlineState ticks := by
  obtain ⟨feed, kept, drop⟩ :=
    @pruneInactiveKlineState_spec { engine with interests := registry } indexed
  refine both.of_sameFeed indexed feed fun key => ?_
  by_cases act : registry.Active key
  · rw [kept key act]
    rcases both.views key with ⟨synth, full⟩ | ⟨hid, none⟩
    · exact .inl ⟨⟨synth.1, act, synth.2.2⟩, full⟩
    · exact .inr ⟨fun synth => hid ⟨synth.1, fewer key synth.1 act, synth.2.2⟩, none⟩
  · exact .inr ⟨fun synth => act synth.2.1, drop key act⟩

/-- The registry with a new chart, and the views cut down to it: a key of the chart may still
have no view. -/
theorem Shared.replayOutcome {key : KlineSourceKey} (pos : 0 < key.durationNs)
    (act : registry.Active key)
    (few : (completedBars key.durationNs (ticks key.symbol)).length ≤ engine.cache.klineCapacity) :
    ({ engine with interests := registry }.pruneInactiveKlineState.replayOutcome key).2 =
        completedBars key.durationNs (ticks key.symbol) ∧
      ((Synthesizes registry ticks key ∧ FullView key.durationNs (ticks key.symbol)
          ({ engine with interests := registry }.pruneInactiveKlineState.replayOutcome key).1) ∨
        (¬Synthesizes registry ticks key ∧
          ({ engine with interests := registry }.pruneInactiveKlineState.replayOutcome key).1 =
            (none, none))) := by
  obtain ⟨feed, kept, -⟩ := @pruneInactiveKlineState_spec { engine with interests := registry } indexed
  have ring : (({ engine with interests := registry } : RelayEngine).cache.tickRing
      key.symbol).getD [] = ticks key.symbol := both.ring key.symbol
  have sav : OrdMap.get? key
      ({ engine with interests := registry } : RelayEngine).persistedOfficialKlines = none := by
    dsimp only
    rw [both.persisted]
    rfl
  have view : ({ engine with interests := registry } : RelayEngine).viewAt key =
      engine.viewAt key := rfl
  unfold RelayEngine.replayOutcome
  rw [feed.cache, feed.persisted, kept key act, sav, ring, view]
  dsimp only [restoredView]
  rcases both.views key with ⟨synth, made, rows⟩ | ⟨hid, unmade⟩
  · have rebuilt : rebuiltView engine.cache.klineCapacity key.durationNs (ticks key.symbol)
        (engine.viewAt key) = some (engine.viewAt key) := by
      rw [rebuiltView, made]
      rfl
    rw [rebuilt]
    exact ⟨rows, .inl ⟨⟨pos, act, synth.2.2⟩, made, rows⟩⟩
  · rw [unmade]
    by_cases emp : ticks key.symbol = []
    · rw [emp]
      refine ⟨?_, .inr ⟨fun synth => synth.2.2 emp, rfl⟩⟩
      rw [completedBars, KlineSynthesis.pushTicks]
      rfl
    · have note : (recordRows engine.cache.klineCapacity none
          (completedBars key.durationNs (ticks key.symbol))).getD [] =
            completedBars key.durationNs (ticks key.symbol) :=
        recordRows_append (nodup_completedBars _ _) few
      have rebuilt : rebuiltView engine.cache.klineCapacity key.durationNs (ticks key.symbol)
          (none, none) = some (some (synthesized key.durationNs (ticks key.symbol)),
            recordRows engine.cache.klineCapacity none
              (completedBars key.durationNs (ticks key.symbol))) := by
        rw [rebuiltView, if_neg (by simp), if_neg emp]
        rfl
      rw [rebuilt]
      exact ⟨note, .inl ⟨⟨pos, act, emp⟩, rfl, note⟩⟩

/-- The replay in reply to a new chart of positive duration. -/
theorem Shared.replay {src : SourceKey} (nd : src.symbols.Nodup) (pos : 0 < src.durationNs)
    (shown : ∀ key : KlineSourceKey, key.durationNs = src.durationNs →
      key.symbol ∈ src.symbols → registry.Active key) (fewer : ∀ key, registry.Active key →
      ¬(key.durationNs = src.durationNs ∧ key.symbol ∈ src.symbols) →
        engine.interests.Active key) (few : BarsFit registry engine.cache.klineCapacity ticks)
    (sub : ChartSubscription) :
    Shared ({ engine with interests := registry }.pruneInactiveKlineState.replayCachedKlineFrames
      sub src).1 ticks ∧
    ({ engine with interests := registry }.pruneInactiveKlineState.replayCachedKlineFrames
      sub src).1.cache = engine.cache ∧
    ∀ cid key bar, SendsRow
      ({ engine with interests := registry }.pruneInactiveKlineState.replayCachedKlineFrames
        sub src).2 cid key bar ↔
      cid = sub.clientId ∧
        (key.durationNs = src.durationNs ∧ key.symbol ∈ src.symbols) ∧
        bar ∈ completedBars key.durationNs (ticks key.symbol) := by
  obtain ⟨feed, kept, drop⟩ :=
    @pruneInactiveKlineState_spec { engine with interests := registry } indexed
  obtain ⟨cache, wants, sav, off, views, sent⟩ :=
    @replayCachedKlineFrames_spec { engine with interests := registry }.pruneInactiveKlineState
      src sub nd pos
  have out : ∀ key : KlineSourceKey, key.durationNs = src.durationNs →
      key.symbol ∈ src.symbols → _ := fun key same seen =>
    both.replayOutcome indexed (same ▸ pos) (shown key same seen)
      (few key (same ▸ pos) (shown key same seen))
  refine ⟨⟨?_, fun sym => ?_, ?_, ?_, fun key => ?_⟩, cache.trans feed.cache, fun cid key bar => ?_⟩
  · rw [wants]
    exact indexed
  · rw [cache]
    exact both.ring sym
  · rw [sav]
    exact both.persisted
  · refine eq_nil_iff_forall_not_mem.mpr fun key mem => ?_
    rcases (off key).mp mem with old | ⟨-, got⟩
    · rw [feed.official] at old
      dsimp only at old
      rw [both.official] at old
      cases old
    · rw [feed.persisted] at got
      dsimp only at got
      rw [both.persisted] at got
      exact got rfl
  · rw [wants, views]
    split
    · rename_i mine
      exact (out key mine.1 mine.2).2
    · rename_i alt
      by_cases act : registry.Active key
      · rw [kept key act]
        rcases both.views key with ⟨synth, full⟩ | ⟨hid, none⟩
        · exact .inl ⟨⟨synth.1, act, synth.2.2⟩, full⟩
        · exact .inr ⟨fun synth => hid ⟨synth.1, fewer key act alt, synth.2.2⟩, none⟩
      · exact .inr ⟨fun synth => act synth.2.1, drop key act⟩
  · rw [sent]
    constructor
    · rintro ⟨own, mine, mem⟩
      rw [(out key mine.1 mine.2).1] at mem
      exact ⟨own, mine, mem⟩
    · rintro ⟨own, mine, mem⟩
      rw [← (out key mine.1 mine.2).1] at mem
      exact ⟨own, mine, mem⟩

end

/-- The command sets a chart that shows the key. -/
def SetsKey (clientId : ClientId) (key : KlineSourceKey) : RelayInput → Prop
  | .command owner (.setChart command) =>
    owner = clientId ∧ command.symbols ≠ [] ∧ key.durationNs = command.durationNs ∧
      key.symbol ∈ (InterestRegistry.sourceOf command).symbols
  | _ => False

/-- A chart command sends only the bars of its own keys, and only to its client. -/
theorem Shared.setChart (both : Shared engine ticks) (cid : ClientId) (cmd : SetChartCommand)
    (few : BarsFit (interestsAfter engine.interests (.command cid (.setChart cmd)))
      engine.cache.klineCapacity ticks) :
    Shared (engine.step cal (.command cid (.setChart cmd))).1 ticks ∧
    (engine.step cal (.command cid (.setChart cmd))).1.cache = engine.cache ∧
    ∀ alt key bar,
      SendsRow (engine.step cal (.command cid (.setChart cmd))).2 alt key bar ↔
        SetsKey alt key (.command cid (.setChart cmd)) ∧ 0 < key.durationNs ∧
          bar ∈ completedBars key.durationNs (ticks key.symbol) := by
  have ixdPost := indexed_interestsAfter both.indexed (.command cid (.setChart cmd))
  dsimp only [step, handleCommand]
  rcases setChart_cases cid cmd with ⟨dels, out⟩ | ⟨no, ref, out⟩ |
    ⟨⟨symbols, accepted⟩, sub, own, unsynthesized, synthesized⟩
  · rw [out]
    dsimp only [orRefused]
    refine ⟨both.prune (both.indexed.removeChart _ _) fun key _ => ?_, rfl, fun alt key bar => ?_⟩
    · rintro ⟨own, ch, src, mapped, shown⟩
      rw [InterestRegistry.chartOf_removeChart] at mapped
      split at mapped
      · cases mapped
      · exact ⟨own, ch, src, mapped, shown⟩
    · constructor
      · rintro ⟨frm, mem, -, car⟩
        obtain rfl := mem_singleton.mp mem
        rw [mem_singleton] at car
        cases car
      · exact fun sent => absurd dels sent.1.2.1
  · rw [out]
    refine ⟨both, rfl, fun alt key bar => ⟨fun sent => absurd sent sendsRow_nil, ?_⟩⟩
    rintro ⟨⟨-, -, same, -⟩, pos, -⟩
    have := no.2.1
    omega
  · rcases interestsAfter_setChart engine.interests cid cmd with
      ⟨empty, -⟩ | ⟨no, -⟩ | ⟨-, after⟩
    · exact absurd empty symbols
    · exact absurd no accepted
    rw [after] at few ixdPost
    by_cases pos : 0 < cmd.durationNs
    · rw [synthesized pos]
      dsimp only [orRefused]
      have fewer : ∀ key, (engine.interests.setChart cid cmd).Active key →
          ¬(key.durationNs = (InterestRegistry.sourceOf cmd).durationNs ∧
            key.symbol ∈ (InterestRegistry.sourceOf cmd).symbols) →
          engine.interests.Active key := by
        rintro key ⟨own, ch, src, mapped, same, seen⟩ alt
        rw [InterestRegistry.chartOf_setChart] at mapped
        split at mapped
        · obtain rfl := some.inj mapped
          exact absurd ⟨same.symm, seen⟩ alt
        · exact ⟨own, ch, src, mapped, same, seen⟩
      obtain ⟨both, cache, sent⟩ := both.replay ixdPost (nodup_sourceOf cmd) pos
        (fun key same seen => ⟨cid, cmd.chartId, InterestRegistry.sourceOf cmd,
          by rw [InterestRegistry.chartOf_setChart, if_pos ⟨rfl, rfl⟩], same.symm, seen⟩)
        fewer few sub
      refine ⟨both, cache, fun alt key bar => ?_⟩
      rw [sent, own]
      constructor
      · rintro ⟨rfl, ⟨same, seen⟩, mem⟩
        have durs : key.durationNs = cmd.durationNs := same
        exact ⟨⟨rfl, symbols, same, seen⟩, durs ▸ pos, mem⟩
      · rintro ⟨⟨rfl, -, same, seen⟩, -, mem⟩
        exact ⟨rfl, ⟨same, seen⟩, mem⟩
    · obtain ⟨frms, out, unsent⟩ := unsynthesized (by omega)
      rw [out]
      dsimp only [orRefused]
      refine ⟨both.prune ixdPost fun key positiveKey => ?_, rfl, fun alt key bar =>
        ⟨fun sent => absurd sent (unsent alt key bar), ?_⟩⟩
      · rintro ⟨own, ch, src, mapped, same, seen⟩
        rw [InterestRegistry.chartOf_setChart] at mapped
        split at mapped
        · obtain rfl := some.inj mapped
          have durs : cmd.durationNs = key.durationNs := same
          exact absurd (durs ▸ positiveKey) pos
        · exact ⟨own, ch, src, mapped, same, seen⟩
      · rintro ⟨⟨-, -, same, -⟩, positiveKey, -⟩
        exact absurd (same ▸ positiveKey) pos

end RelayEngine

end Tqsdk
