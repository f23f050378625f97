import Tqsdk.Relay.SharedRuns

/-!
# What one input does to the K-lines of one key

Whatever the input, the synthesizer and the rows under a key are left alone or forgotten, or they
take a pushed row, official rows or a replay; `step_key` says for each what is left and sent.
-/

namespace Tqsdk

open List OrdMap

namespace RelayEngine

variable {calendar : String → Option Int} {engine : RelayEngine} {key : KlineSourceKey}

/-- The rows an input pushes for a symbol: a tick, or the synthetic tick of a quote. -/
def rowsOf (calendar : String → Option Int) (symbol : String) : RelayInput → List RelayTickRow
  | .tick other row => if other = symbol then [row] else []
  | .quote other quote =>
    if other = symbol then (quoteToSyntheticTick calendar quote).toList else []
  | _ => []

/-- The official rows that an input brings of the key. -/
def officialRowsOf (key : KlineSourceKey) : RelayInput → List RelayKlineRow
  | .officialKline symbol durationNs row =>
    if (⟨durationNs, symbol⟩ : KlineSourceKey) = key then [row] else []
  | .restoreOfficialKlines symbol durationNs rows =>
    if (⟨durationNs, symbol⟩ : KlineSourceKey) = key then rows else []
  | _ => []

/-- The official rows of the key are the same. -/
structure SameOfficial (before after : RelayEngine) (key : KlineSourceKey) : Prop where
  persisted : get? key after.persistedOfficialKlines =
    get? key before.persistedOfficialKlines
  official : key ∈ after.officialKlineSources ↔ key ∈ before.officialKlineSources

/-- Nothing is kept of a key that no chart shows. -/
def Pruned (engine : RelayEngine) : Prop :=
  ∀ key, ¬engine.interests.Active key → engine.viewAt key = (none, none)

/-- What an input does to the K-lines of a key, and which of its rows it sends. -/
inductive KeyStep (calendar : String → Option Int) (engine : RelayEngine) (key : KlineSourceKey)
    (input : RelayInput) (after : RelayEngine) (sends : ClientId → RelayKlineRow → Prop) : Prop
  | stays (same : SameOfficial engine after key)
      (known : 0 < key.durationNs → after.interests.Active key → engine.interests.Active key)
      (kept : after.interests.Active key → after.viewAt key = engine.viewAt key)
      (hidden : ¬after.interests.Active key →
        (¬engine.interests.Active key ∧ after.viewAt key = engine.viewAt key) ∨
          after.viewAt key = (none, none))
      (unpushed : engine.interests.Active key → 0 < key.durationNs →
        key ∉ engine.officialKlineSources → rowsOf calendar key.symbol input = [])
      (unbrought : 0 < key.durationNs → officialRowsOf key input = [])
      (unset : ∀ clientId, SetsKey clientId key input → ¬0 < key.durationNs)
      (silent : ∀ clientId bar, ¬sends clientId bar)
  | takes (row : RelayTickRow) (same : SameOfficial engine after key)
      (pushed : rowsOf calendar key.symbol input = [row])
      (active : engine.interests.Active key) (synthesized : key ∉ engine.officialKlineSources)
      (view : after.viewAt key = engine.pushedView key row)
      (sent : ∀ clientId bar, sends clientId bar ↔
        bar ∈ ((engine.synthesisOf key).pushTick row).2 ∧ engine.interests.Shows clientId key)
  | official (row : RelayKlineRow)
      (given : input = .officialKline key.symbol key.durationNs row)
      (persisted : get? key after.persistedOfficialKlines =
        some (putOfficialRow engine.cache.klineCapacity (engine.persistedRows key) row))
      (shown : engine.interests.Active key → key ∈ after.officialKlineSources ∧
        after.viewAt key =
          (none, some (putOfficialRow engine.cache.klineCapacity (engine.completedRows key) row)))
      (hidden : ¬engine.interests.Active key →
        (key ∈ after.officialKlineSources ↔ key ∈ engine.officialKlineSources) ∧
          after.viewAt key = engine.viewAt key)
      (sent : ∀ clientId bar, sends clientId bar ↔
        bar = row ∧ engine.interests.Shows clientId key)
  | restored (rows : List RelayKlineRow)
      (given : input = .restoreOfficialKlines key.symbol key.durationNs rows)
      (persisted : get? key after.persistedOfficialKlines = rows.foldl (fun kept row =>
        some (putOfficialRow engine.cache.klineCapacity (kept.getD []) row))
          (get? key engine.persistedOfficialKlines))
      (official : key ∈ after.officialKlineSources ↔ key ∈ engine.officialKlineSources)
      (view : after.viewAt key = engine.viewAt key)
      (silent : ∀ clientId bar, ¬sends clientId bar)
  | replayed (clientId : ClientId) (command : SetChartCommand)
      (given : input = .command clientId (.setChart command))
      (sets : SetsKey clientId key input)
      (active : after.interests.Active key)
      (persisted : get? key after.persistedOfficialKlines =
        get? key engine.persistedOfficialKlines)
      (official : key ∈ after.officialKlineSources ↔ key ∈ engine.officialKlineSources ∨
        get? key engine.persistedOfficialKlines ≠ none)
      (view : after.viewAt key = (engine.replayOutcome key).1)
      (sent : ∀ owner bar, sends owner bar ↔
        owner = clientId ∧ bar ∈ (engine.replayOutcome key).2)

theorem keyStep_quiet {post : RelayEngine} {input : RelayInput}
    {sends : ClientId → RelayKlineRow → Prop} (same : SameOfficial engine post key)
    (view : post.viewAt key = engine.viewAt key)
    (act : post.interests.Active key ↔ engine.interests.Active key)
    (unpushed : rowsOf calendar key.symbol input = [])
    (unbr : 0 < key.durationNs → officialRowsOf key input = [])
    (unset : ∀ clientId, ¬SetsKey clientId key input)
    (silent : ∀ clientId bar, ¬sends clientId bar) :
    KeyStep calendar engine key input post sends :=
  .stays same (fun _ => act.mp) (fun _ => view) (fun hid => .inl ⟨fun shown => hid (act.mpr shown), view⟩)
    (fun _ _ _ => unpushed) unbr (fun clientId sets => absurd sets (unset clientId)) silent

/-! ## Rows pushed -/

variable {reg : InterestRegistry} {clientId : ClientId} {input : RelayInput}

theorem keyStep_klineFrames (indexed : engine.interests.Indexed) {cache : MarketCache}
    (cap : engine.cache.SameCapacity cache) {sym : String} {row : RelayTickRow}
    (pushed : ∀ alt, rowsOf calendar alt input = if sym = alt then [row] else [])
    (unbrought : officialRowsOf key input = []) (unset : ∀ clientId, ¬SetsKey clientId key input)
    {frames : List DownstreamFrame} (silent : ∀ clientId bar, ¬SendsRow frames clientId key bar) :
    KeyStep calendar engine key input ({ engine with cache }.klineFrames sym row).1 fun owner bar =>
      SendsRow (frames ++ ({ engine with cache }.klineFrames sym row).2) owner key bar := by
  obtain ⟨feed, taken, kept, sent⟩ := @klineFrames_spec { engine with cache } indexed sym row
  have same : SameOfficial engine ({ engine with cache }.klineFrames sym row).1 key :=
    ⟨by rw [feed.persisted], by rw [feed.official]⟩
  by_cases takes : engine.Takes sym key
  · refine .takes row same ?_ takes.2.2.1 takes.2.2.2 ?_ fun clientId bar => ?_
    · rw [pushed, if_pos takes.1.symm]
    · rw [taken key takes]
      exact congrArg (fun cap => (some ((engine.synthesisOf key).pushTick row).1,
        recordRows cap (engine.viewAt key).2 ((engine.synthesisOf key).pushTick row).2)) cap.2
    · rw [sendsRow_append, sent]
      constructor
      · rintro (told | ⟨-, done, shown⟩)
        · exact absurd told (silent clientId bar)
        · exact ⟨done, shown⟩
      · exact fun told => .inr ⟨takes, told.1, told.2⟩
  · refine .stays same (fun _ act => ?_) (fun _ => kept key takes) (fun hid => .inl ⟨?_, kept key
      takes⟩) (fun act pos free => ?_) (fun _ => unbrought) (fun clientId sets => absurd sets (unset
      clientId)) fun clientId bar => ?_
    · rw [feed.interests] at act
      exact act
    · rw [feed.interests] at hid
      exact hid
    · rw [pushed, if_neg fun here => takes ⟨here.symm, pos, act, free⟩]
    · rw [sendsRow_append, sent]
      rintro (told | ⟨alts, -⟩)
      · exact silent clientId bar told
      · exact takes alts

theorem MarketCache.pushQuote_sameCapacity (c : MarketCache) (sym : String)
    (q : RelayQuote) : c.SameCapacity (c.pushQuote sym q).1 := by
  have same := c.admit_sameCapacity sym (c.hasTicks sym)
  unfold MarketCache.pushQuote
  dsimp only
  split
  · exact same
  · exact same

theorem keyStep_tick (indexed : engine.interests.Indexed) (sym : String) (row : RelayTickRow) :
    KeyStep calendar engine key (.tick sym row) (engine.ingestTick sym row).1
      fun owner bar => SendsRow (engine.ingestTick sym row).2 owner key bar := by
  refine keyStep_klineFrames indexed (engine.cache.pushTick_sameCapacity sym row)
    (fun _ => rfl) rfl (fun _ => id) fun clientId bar => ?_
  rw [sendsRow_append]
  rintro (told | told)
  · exact silent_quoteFrames told
  · exact silent_tickChartFrames told

theorem keyStep_quote (indexed : engine.interests.Indexed) (sym : String) (quote : RelayQuote) :
    KeyStep calendar engine key (.quote sym quote) (ingestQuote calendar engine sym quote).1
      fun owner bar => SendsRow (ingestQuote calendar engine sym quote).2 owner key bar := by
  unfold ingestQuote
  dsimp only
  cases made : quoteToSyntheticTick calendar quote with
  | none =>
    refine keyStep_quiet ⟨rfl, Iff.rfl⟩ rfl Iff.rfl ?_ (fun _ => rfl) (fun _ => id)
      fun clientId bar => silent_quoteFrames
    rw [rowsOf, made]
    split <;> rfl
  | some row =>
    refine keyStep_klineFrames indexed
      (MarketCache.pushQuote_sameCapacity engine.cache sym quote) (fun
      alt => ?_) rfl (fun _ => id) fun clientId bar => silent_quoteFrames
    rw [rowsOf, made]
    rfl

/-! ## Official rows -/

theorem putOfficialRow_twice {cap : Nat} {rows : List RelayKlineRow} {row : RelayKlineRow} :
    putOfficialRow cap (putOfficialRow cap rows row) row = putOfficialRow cap rows row := by
  unfold putOfficialRow
  cases hit : hasRow RelayKlineRow.id rows row with
  | true =>
    obtain ⟨again, twice⟩ := overwriteRow_twice hit
    rw [if_pos rfl, if_pos again, twice]
  | false =>
    rw [if_neg Bool.false_ne_true]
    rcases Nat.eq_zero_or_pos cap with rfl | positive
    · simp [trimRing, hasRow]
    · have here : hasRow RelayKlineRow.id (trimRing cap (rows ++ [row])) row = true :=
        hasRow_eq_true.mpr ⟨row, mem_trimRing_append positive, rfl⟩
      rw [if_pos here]
      refine overwriteRow_eq_self fun existing mem same => ?_
      rcases mem_append.mp ((trimRing_sublist _ _).subset mem) with old | new
      · exact absurd same (hasRow_eq_false.mp hit existing old)
      · exact mem_singleton.mp new

theorem sendsRow_map_kline {subs : List ChartSubscription} {alt : KlineSourceKey}
    {row bar : RelayKlineRow} :
    SendsRow (subs.map fun sub =>
        ⟨sub.clientId, [.kline alt.symbol alt.durationNs row]⟩) clientId key bar ↔
      key = alt ∧ bar = row ∧ ∃ sub ∈ subs,
        sub.clientId = clientId := by
  constructor
  · rintro ⟨frm, mem, rfl, car⟩
    obtain ⟨sub, seen, rfl⟩ := mem_map.mp mem
    obtain ⟨symbol_eq, duration_eq, rfl⟩ := MarketUpdate.kline.inj (mem_singleton.mp car)
    refine ⟨?_, rfl, sub, seen, rfl⟩
    cases key
    cases alt
    exact KlineSourceKey.mk.injEq _ _ _ _ ▸ ⟨duration_eq, symbol_eq⟩
  · rintro ⟨rfl, rfl, sub, seen, rfl⟩
    exact ⟨_, mem_map_of_mem seen, rfl, mem_singleton_self _⟩

theorem foldl_ingestOfficialFor (row : RelayKlineRow) (alt : KlineSourceKey)
    (srcs : List SourceKey) (st : RelayEngine × List DownstreamFrame) :
    (srcs.foldl (ingestOfficialFor alt row) st).1.cache = st.1.cache ∧
    (srcs.foldl (ingestOfficialFor alt row) st).1.persistedOfficialKlines =
      st.1.persistedOfficialKlines ∧
    (key ∈ (srcs.foldl (ingestOfficialFor alt row) st).1.officialKlineSources ↔
      key ∈ st.1.officialKlineSources ∨ (key = alt ∧ srcs ≠ [])) ∧
    (srcs.foldl (ingestOfficialFor alt row) st).1.viewAt key =
      (if key = alt ∧ srcs ≠ [] then
        (none, some (putOfficialRow st.1.cache.klineCapacity (st.1.completedRows key) row))
      else st.1.viewAt key) ∧
    ∀ clientId bar, SendsRow (srcs.foldl (ingestOfficialFor alt row) st).2
        clientId key bar ↔
      SendsRow st.2 clientId key bar ∨ (key = alt ∧ bar = row ∧ ∃ src ∈ srcs,
        ∃ sub ∈ st.1.interests.chartSubscriptions src,
          sub.clientId = clientId) := by
  induction srcs generalizing st with
  | nil => simp
  | cons hd srcs ih =>
    obtain ⟨c, sav, off, view, sent⟩ := ih (ingestOfficialFor alt row st hd)
    rw [foldl_cons]
    refine ⟨c, sav, ?_, ?_, fun clientId bar => ?_⟩
    · rw [off]
      dsimp only [ingestOfficialFor]
      rw [mem_insert_iff]
      simp only [ne_eq, reduceCtorEq, not_false_eq_true, and_true]
      tauto
    · rw [view]
      dsimp only [ingestOfficialFor, viewAt, completedRows]
      by_cases same : key = alt
      · subst same
        rw [get?_erase_self, get?_insert_self, Option.getD_some, putOfficialRow_twice]
        refine Eq.trans ?_ (if_pos ⟨rfl, cons_ne_nil hd srcs⟩).symm
        split <;> rfl
      · rw [if_neg fun both => same both.1, if_neg fun both => same both.1, get?_erase,
          if_neg same, get?_insert_ne same]
    · rw [sent]
      dsimp only [ingestOfficialFor]
      rw [sendsRow_append, sendsRow_map_kline]
      simp only [mem_cons, exists_eq_or_imp, and_or_left, or_assoc]


theorem active_iff_sources (indexed : engine.interests.Indexed) :
    engine.interests.Active key ↔ (engine.interests.sourcesForSymbol key.symbol).filter
      (·.durationNs = key.durationNs) ≠ [] := by
  constructor
  · rintro ⟨clientId, ch, src, mapped, same, inn⟩
    exact ne_nil_of_mem (mem_filter.mpr
      ⟨(indexed.bySymbol _ _).mpr ⟨inn, clientId, ch, mapped⟩, decide_eq_true same⟩)
  · intro some
    obtain ⟨src, mem⟩ := exists_mem_of_ne_nil _ some
    obtain ⟨seen, same⟩ := mem_filter.mp mem
    obtain ⟨inn, clientId, ch, mapped⟩ := (indexed.bySymbol _ _).mp seen
    exact ⟨clientId, ch, src, mapped, of_decide_eq_true same, inn⟩

theorem keyStep_official (indexed : engine.interests.Indexed) (sym : String)
    (dur : Int) (row : RelayKlineRow) :
    KeyStep calendar engine key (.officialKline sym dur row)
      (engine.step calendar (.officialKline sym dur row)).1
      fun own bar => SendsRow
        (engine.step calendar (.officialKline sym dur row)).2 own key bar := by
  dsimp only [step, ingestOfficialKline]
  split
  · rename_i no
    refine keyStep_quiet ⟨rfl, Iff.rfl⟩ rfl Iff.rfl rfl (fun pos => if_neg ?_) (fun _ => id)
      fun clientId bar => sendsRow_nil
    rintro rfl
    exact absurd pos (not_lt.mpr no)
  · dsimp only [orRefused]
    obtain ⟨-, sav, off, view, sent⟩ := @foldl_ingestOfficialFor key row ⟨dur, sym⟩
      ((engine.interests.sourcesForSymbol sym).filter (·.durationNs = dur))
      (engine.recordPersistedOfficialKline ⟨dur, sym⟩ row, [])
    by_cases same : key = ⟨dur, sym⟩
    · subst same
      have seen : engine.interests.Active ⟨dur, sym⟩ ↔
          (engine.interests.sourcesForSymbol sym).filter (·.durationNs = dur) ≠ [] :=
        active_iff_sources indexed
      refine .official row rfl ?_ (fun act => ⟨?_, ?_⟩) (fun hid => ⟨?_, ?_⟩) fun clientId bar => ?_
      · rw [sav]
        exact get?_insert_self _ _ _
      · exact off.mpr (.inr ⟨rfl, seen.mp act⟩)
      · rw [view, if_pos ⟨rfl, seen.mp act⟩]
        rfl
      · rw [off]
        exact or_iff_left fun both => hid (seen.mpr both.2)
      · rw [view, if_neg fun both => hid (seen.mpr both.2)]
        rfl
      · rw [sent, indexed.shows_iff]
        constructor
        · rintro (told | ⟨-, rfl, shown⟩)
          · exact absurd told sendsRow_nil
          · exact ⟨rfl, shown⟩
        · exact fun told => .inr ⟨rfl, told⟩
    · refine keyStep_quiet ⟨?_, ?_⟩ ?_ ?_ rfl (fun _ => if_neg fun here => same here.symm)
        (fun _ => id) fun clientId bar => ?_
      · rw [sav]
        exact get?_insert_ne same _ _
      · rw [off]
        exact or_iff_left fun both => same both.1
      · rw [view, if_neg fun both => same both.1]
        rfl
      · rw [foldl_ingestOfficialFor_interests]
        rfl
      · rw [sent]
        rintro (told | others)
        · exact sendsRow_nil told
        · exact same others.1

theorem foldl_recordPersisted (alt : KlineSourceKey) (rows : List RelayKlineRow)
    (engine : RelayEngine) :
    get? key (rows.foldl (fun engine row =>
      engine.recordPersistedOfficialKline alt row) engine).persistedOfficialKlines =
      (if key = alt then rows.foldl (fun kept row =>
          some (putOfficialRow engine.cache.klineCapacity (kept.getD []) row))
            (get? key engine.persistedOfficialKlines)
        else get? key engine.persistedOfficialKlines) ∧
    (rows.foldl (fun engine row =>
      engine.recordPersistedOfficialKline alt row) engine).officialKlineSources =
        engine.officialKlineSources ∧
    (rows.foldl (fun engine row =>
      engine.recordPersistedOfficialKline alt row) engine).viewAt key = engine.viewAt key := by
  induction rows generalizing engine with
  | nil => exact ⟨by rw [foldl_nil, foldl_nil, ite_self], rfl, rfl⟩
  | cons hd rows ih =>
    obtain ⟨sav, off, view⟩ := ih (engine.recordPersistedOfficialKline alt hd)
    refine ⟨sav.trans ?_, off, view⟩
    dsimp only [recordPersistedOfficialKline, persistedRows]
    by_cases same : key = alt
    · subst same
      rw [if_pos rfl, if_pos rfl, get?_insert_self]
      rfl
    · rw [if_neg same, if_neg same, get?_insert_ne same]

theorem keyStep_restored (sym : String) (dur : Int) (rows : List RelayKlineRow) :
    KeyStep calendar engine key (.restoreOfficialKlines sym dur rows)
      (engine.step calendar (.restoreOfficialKlines sym dur rows)).1
      fun own bar => SendsRow
        (engine.step calendar (.restoreOfficialKlines sym dur rows)).2 own key bar := by
  dsimp only [step, restoreOfficialRollingKlines]
  split
  · rename_i no
    refine keyStep_quiet ⟨rfl, Iff.rfl⟩ rfl Iff.rfl rfl (fun pos => if_neg ?_) (fun _ => id)
      fun clientId bar => sendsRow_nil
    rintro rfl
    exact absurd pos (not_lt.mpr no)
  · obtain ⟨sav, off, view⟩ := @foldl_recordPersisted key ⟨dur, sym⟩ rows engine
    by_cases same : key = ⟨dur, sym⟩
    · subst same
      rw [if_pos rfl] at sav
      exact .restored rows rfl sav (iff_of_eq (congrArg _ off)) view
        fun clientId bar => sendsRow_nil
    · rw [if_neg same] at sav
      refine keyStep_quiet ⟨sav, iff_of_eq (congrArg _ off)⟩ view ?_ rfl
        (fun _ => if_neg fun here => same here.symm) (fun _ => id) fun clientId bar => sendsRow_nil
      dsimp only [Except.map, orRefused]
      rw [foldl_recordPersisted_interests]

/-! ## Charts -/

theorem active_of_removeChart {ch : String} (act : (reg.removeChart clientId ch).Active key) :
    reg.Active key := by
  obtain ⟨own, alt, src, mp, shown⟩ := act
  rw [InterestRegistry.chartOf_removeChart] at mp
  split at mp
  · cases mp
  · exact ⟨own, alt, src, mp, shown⟩

theorem active_of_removeClient (indexed : reg.Indexed)
    (act : (reg.removeClient clientId).Active key) :
    reg.Active key := by
  obtain ⟨own, alt, src, mp, shown⟩ := act
  rw [indexed.chartOf_removeClient] at mp
  split at mp
  · cases mp
  · exact ⟨own, alt, src, mp, shown⟩

theorem active_of_setChart {reg : InterestRegistry} {clientId : ClientId} {cmd : SetChartCommand}
    (act : (reg.setChart clientId cmd).Active key) (alt : ¬(key.durationNs = cmd.durationNs ∧
      key.symbol ∈ (InterestRegistry.sourceOf cmd).symbols)) : reg.Active key := by
  obtain ⟨own, ch, src, mp, same, seen⟩ := act
  rw [InterestRegistry.chartOf_setChart] at mp
  split at mp
  · obtain rfl := Option.some.inj mp
    exact absurd ⟨same.symm, seen⟩ alt
  · exact ⟨own, ch, src, mp, same, seen⟩

/-- Charts are set or taken away and nothing is replayed for the key. -/
theorem keyStep_pruned (indexed : reg.Indexed)
    (seen : 0 < key.durationNs → reg.Active key → engine.interests.Active key)
    (unpushed : rowsOf calendar key.symbol input = []) (unbr : officialRowsOf key input = [])
    (unset : ∀ clientId, SetsKey clientId key input → ¬0 < key.durationNs)
    {frms : List DownstreamFrame} (silent : ∀ clientId bar, ¬SendsRow frms clientId key bar) :
    KeyStep calendar engine key input
      { engine with interests := reg }.pruneInactiveKlineState
      fun own bar => SendsRow frms own key bar := by
  obtain ⟨-, kept, drop⟩ := @pruneInactiveKlineState_spec { engine with interests := reg } indexed
  exact .stays ⟨rfl, Iff.rfl⟩ seen (kept key) (fun hid => .inr (drop key hid))
    (fun _ _ _ => unpushed) (fun _ => unbr) unset silent

theorem keyStep_replay (indexed : reg.Indexed) {cmd : SetChartCommand} (syms : cmd.symbols ≠ [])
    (pos : 0 < cmd.durationNs) (act : key.durationNs = (InterestRegistry.sourceOf cmd).durationNs ∧
      key.symbol ∈ (InterestRegistry.sourceOf cmd).symbols → reg.Active key)
    (seen : reg.Active key → ¬(key.durationNs =
        (InterestRegistry.sourceOf cmd).durationNs ∧
      key.symbol ∈ (InterestRegistry.sourceOf cmd).symbols) → engine.interests.Active key)
    {sub : ChartSubscription} (own : sub.clientId = clientId) :
    KeyStep calendar engine key (.command clientId (.setChart cmd))
      ({ engine with interests := reg }.pruneInactiveKlineState.replayCachedKlineFrames
        sub (InterestRegistry.sourceOf cmd)).1
      fun own bar => SendsRow
        ({ engine with interests := reg }.pruneInactiveKlineState.replayCachedKlineFrames
          sub (InterestRegistry.sourceOf cmd)).2 own key bar := by
  obtain ⟨feed, kept, drop⟩ :=
    @pruneInactiveKlineState_spec { engine with interests := reg } indexed
  obtain ⟨-, wants, sav, off, view, sent⟩ := @replayCachedKlineFrames_spec
    { engine with interests := reg }.pruneInactiveKlineState
    (InterestRegistry.sourceOf cmd) sub (nodup_sourceOf cmd) pos
  by_cases mine : key.durationNs = (InterestRegistry.sourceOf cmd).durationNs ∧
      key.symbol ∈ (InterestRegistry.sourceOf cmd).symbols
  · have out := @replayOutcome_congr engine
      { engine with interests := reg }.pruneInactiveKlineState key feed.cache
      feed.persisted (kept key (act mine))
    refine .replayed clientId cmd rfl ⟨rfl, syms, mine.1, mine.2⟩ ?_ ?_ ?_ ?_ fun alt bar => ?_
    · rw [wants]
      exact act mine
    · rw [sav]
      rfl
    · rw [off]
      exact or_congr Iff.rfl (and_iff_right mine)
    · rw [view, if_pos mine, out]
    · rw [sent, own, out]
      exact and_congr_right fun _ => and_iff_right mine
  · refine .stays ⟨?_, ?_⟩ (fun _ act => ?_) (fun act => ?_) (fun hid => .inr ?_)
      (fun _ _ _ => rfl) (fun _ => rfl) (fun alt sets => ?_) fun alt bar => ?_
    · rw [sav]
      rfl
    · rw [off]
      exact or_iff_left fun both => mine both.1
    · rw [wants] at act
      exact seen act mine
    · rw [wants] at act
      rw [view, if_neg mine]
      exact kept key act
    · rw [wants] at hid
      rw [view, if_neg mine]
      exact drop key hid
    · have sets : SetsKey alt key (.command clientId (.setChart cmd)) := sets
      exact absurd ⟨sets.2.2.1, sets.2.2.2⟩ mine
    · rw [sent]
      exact fun told => mine told.2.1

theorem keyStep_setChart (indexed : engine.interests.Indexed) (clientId : ClientId)
    (cmd : SetChartCommand) :
    KeyStep calendar engine key (.command clientId (.setChart cmd))
      (engine.step calendar (.command clientId (.setChart cmd))).1
      fun own bar => SendsRow
        (engine.step calendar (.command clientId (.setChart cmd))).2 own key bar := by
  have ixdPost := indexed_interestsAfter indexed (.command clientId (.setChart cmd))
  dsimp only [step, handleCommand]
  rcases setChart_cases clientId cmd with ⟨dels, out⟩ | ⟨no, ref, out⟩ |
    ⟨⟨symbols, accepted⟩, sub, own, unsynthesized, synthesized⟩
  · rw [out]
    refine keyStep_pruned (indexed.removeChart _ _) (fun _ => active_of_removeChart) rfl rfl
      (fun alt sets => ?_) fun alt bar => ?_
    · have sets : SetsKey alt key (.command clientId (.setChart cmd)) := sets
      exact absurd dels sets.2.1
    · rintro ⟨frm, mem, -, car⟩
      obtain rfl := mem_singleton.mp mem
      rw [mem_singleton] at car
      cases car
  · rw [out]
    refine .stays ⟨rfl, Iff.rfl⟩ (fun _ => id) (fun _ => rfl) (fun hid => .inl ⟨hid, rfl⟩)
      (fun _ _ _ => rfl) (fun _ => rfl) (fun alt sets pos => ?_) fun alt bar => sendsRow_nil
    have durs := sets.2.2.1
    have tick := no.2.1
    omega
  · rcases interestsAfter_setChart engine.interests clientId cmd with
      ⟨empty, -⟩ | ⟨no, -⟩ | ⟨-, after⟩
    · exact absurd empty symbols
    · exact absurd no accepted
    rw [after] at ixdPost
    by_cases pos : 0 < cmd.durationNs
    · rw [synthesized pos]
      refine keyStep_replay ixdPost symbols pos (fun mine => ?_)
        (fun act alt => active_of_setChart act fun same => alt ⟨same.1, same.2⟩) own
      exact ⟨clientId, cmd.chartId, InterestRegistry.sourceOf cmd,
        by rw [InterestRegistry.chartOf_setChart, if_pos ⟨rfl, rfl⟩], mine.1.symm, mine.2⟩
    · obtain ⟨frms, out, unsent⟩ := unsynthesized (by omega)
      rw [out]
      refine keyStep_pruned ixdPost (fun held act => ?_) rfl rfl (fun alt sets held => ?_)
        fun alt bar => unsent alt key bar
      · exact active_of_setChart act fun same => pos (same.1 ▸ held)
      · have sets : SetsKey alt key (.command clientId (.setChart cmd)) := sets
        exact pos (sets.2.2.1 ▸ held)

theorem step_key (indexed : engine.interests.Indexed) (input : RelayInput) :
    KeyStep calendar engine key input (engine.step calendar input).1
      fun own bar => SendsRow (engine.step calendar input).2 own key bar := by
  cases input with
  | command clientId command =>
    cases command with
    | subscribeQuote syms =>
      refine keyStep_quiet ⟨rfl, Iff.rfl⟩ rfl ?_ rfl (fun _ => rfl) (fun _ => id)
        fun alt bar => silent_cachedQuoteFrames
      exact exists_congr fun alt => exists_congr fun ch => exists_congr fun src =>
        and_congr_left fun _ =>
          iff_of_eq (congrArg (· = some src) (InterestRegistry.chartOf_setQuotes syms _ _))
    | peekMessage =>
      exact keyStep_quiet ⟨rfl, Iff.rfl⟩ rfl Iff.rfl rfl (fun _ => rfl) (fun _ => id) fun alt bar => sendsRow_nil
    | setChart command => exact keyStep_setChart indexed clientId command
  | tick sym row => exact keyStep_tick indexed sym row
  | quote sym quote => exact keyStep_quote indexed sym quote
  | officialKline sym dur row => exact keyStep_official indexed sym dur row
  | restoreTicks sym rows =>
    exact keyStep_quiet ⟨rfl, Iff.rfl⟩ rfl Iff.rfl rfl (fun _ => rfl) (fun _ => id) fun alt bar => sendsRow_nil
  | restoreOfficialKlines sym dur rows => exact keyStep_restored sym dur rows
  | removeClient clientId =>
    exact keyStep_pruned (indexed.removeClient clientId)
      (fun _ => active_of_removeClient indexed) rfl rfl (fun _ => False.elim) fun alt bar => sendsRow_nil

theorem interestsAfter_of_pushed {sym : String} (push : rowsOf calendar sym input ≠ []) :
    interestsAfter registry input = registry := by
  cases input with
  | tick alt row => rfl
  | quote alt quote => rfl
  | command clientId command => exact absurd rfl push
  | officialKline alt dur row => rfl
  | restoreTicks alt rows => rfl
  | restoreOfficialKlines alt dur rows => rfl
  | removeClient clientId => exact absurd rfl push

theorem Pruned.step (pruned : engine.Pruned) (indexed : engine.interests.Indexed)
    (input : RelayInput) : (engine.step calendar input).1.Pruned := by
  intro key inactive
  have wants := @interests_step calendar engine indexed input
  cases @step_key calendar engine key indexed input with
  | stays same seen kept hid unpushed unbr unset silent =>
    rcases hid inactive with ⟨pre, view⟩ | view
    · exact view.trans (pruned key pre)
    · exact view
  | takes row same push act synth view sent =>
    have some : rowsOf calendar key.symbol input ≠ [] := by
      rw [push]
      exact cons_ne_nil _ _
    rw [wants, interestsAfter_of_pushed some] at inactive
    exact absurd act inactive
  | official row got sav shown hid sent =>
    rw [wants, got] at inactive
    exact (hid inactive).2.trans (pruned key inactive)
  | restored rows got sav official view silent =>
    rw [wants, got] at inactive
    exact view.trans (pruned key inactive)
  | replayed clientId cmd got sets act sav official view sent => exact absurd act inactive

theorem Pruned.run (pruned : engine.Pruned) (indexed : engine.interests.Indexed)
    (ins : List RelayInput) : (run calendar engine ins).1.Pruned := by
  induction ins generalizing engine with
  | nil => exact pruned
  | cons input ins ih =>
    refine ih (pruned.step indexed input) ?_
    rw [interests_step indexed]
    exact indexed_interestsAfter indexed input

theorem Fresh.pruned (new : Fresh engine) : engine.Pruned := by
  intro key _
  rw [viewAt, new.klines, new.completed]
  rfl

end RelayEngine

end Tqsdk
