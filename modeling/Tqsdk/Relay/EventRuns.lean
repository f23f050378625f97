import Tqsdk.Relay.CacheAdmission
import Tqsdk.Relay.KlineCoverage

/-!
# Ticks and quotes along a run of the relay

From the chart on that makes a key active, its synthesizer is fed with the cached ticks and then
with every tick and quote of the symbol.
-/

namespace Tqsdk

open List

/-! ## The cached ticks -/

namespace MarketCache

/-- The ring of the symbol is the same, or evicted. -/
def KeepsRing (before after : MarketCache) (symbol : String) : Prop :=
  after.tickRing symbol = none ∨ after.tickRing symbol = before.tickRing symbol

theorem KeepsRing.trans {hd snd third : MarketCache} {sym : String}
    (left : KeepsRing hd snd sym) (right : KeepsRing snd third sym) :
    KeepsRing hd third sym := by
  rcases right with gone | same
  · exact .inl gone
  · rw [KeepsRing, same]
    exact left

theorem KeepsRing.empty {pre post : MarketCache} {sym : String}
    (kept : KeepsRing pre post sym) (empty : (pre.tickRing sym).getD [] = []) :
    (post.tickRing sym).getD [] = [] := by
  rcases kept with gone | same
  · rw [gone]
    rfl
  · rw [same]
    exact empty

variable (c : MarketCache)

theorem keepsRing_evictSymbol (vic sym : String) :
    c.KeepsRing (c.evictSymbol vic) sym := by
  unfold evictSymbol
  split
  · exact .inr rfl
  · rw [KeepsRing, tickRing]
    dsimp only
    rw [OrdMap.get?_erase]
    split
    · exact .inl rfl
    · exact .inr rfl

theorem keepsRing_makeRoom {adm : Admission} {alts : List String} {c : MarketCache}
    {gone : Nat} {sym : String} :
    c.KeepsRing (adm.makeRoom alts c gone).1 sym := by
  induction alts generalizing c gone with
  | nil =>
    unfold Admission.makeRoom
    split <;> exact .inr rfl
  | cons vic alts ih =>
    unfold Admission.makeRoom
    split
    · exact (c.keepsRing_evictSymbol vic sym).trans ih
    · exact .inr rfl

theorem keepsRing_admitWrite (put : String) (hasTick : Bool) (sym : String) :
    c.KeepsRing (c.admitWrite put hasTick).1 sym := by
  unfold admitWrite
  split
  · exact .inr rfl
  · exact keepsRing_makeRoom

theorem keepsRing_pushQuote (put : String) (q : RelayQuote) (sym : String) :
    c.KeepsRing (c.pushQuote put q).1 sym := by
  have kept := c.keepsRing_admitWrite put (c.hasTicks put) sym
  unfold pushQuote
  dsimp only
  split
  · exact kept
  · exact kept

theorem keepsRing_pushTick (c : MarketCache) {put sym : String}
    (alt : sym ≠ put) (row : RelayTickRow) :
    c.KeepsRing (c.pushTick put row).1 sym := by
  have kept := c.keepsRing_admitWrite put true sym
  unfold pushTick
  dsimp only
  split
  · exact kept
  · rw [KeepsRing, tickRing]
    dsimp only
    rw [OrdMap.get?_insert_ne alt]
    exact kept

end MarketCache

namespace RelayEngine

variable {calendar : String → Option Int} {engine : RelayEngine} {key : KlineSourceKey}
  {rows : List RelayTickRow}

/-- Ticks of the symbol are restored. -/
def RestoresTicks (symbol : String) : RelayInput → Prop
  | .restoreTicks other _ => other = symbol
  | _ => False

theorem cache_command (cid : ClientId) (cmd : DownstreamCommand) :
    (engine.step calendar (.command cid cmd)).1.cache = engine.cache := by
  cases cmd with
  | subscribeQuote syms => rfl
  | peekMessage => rfl
  | setChart cmd =>
    dsimp only [step, handleCommand]
    rcases setChart_cases cid cmd with ⟨-, out⟩ | ⟨-, ref, out⟩ |
      ⟨-, sub, -, unsynthesized, synthesized⟩
    · rw [out]
      rfl
    · rw [out]
      rfl
    · by_cases pos : 0 < cmd.durationNs
      · rw [synthesized pos]
        exact (replayCachedKlineFrames_spec sub (nodup_sourceOf cmd) pos).1
      · obtain ⟨frms, out, -⟩ := unsynthesized (by omega)
        rw [out]
        rfl

theorem foldl_ingestOfficialFor_cache (alt : KlineSourceKey) (row : RelayKlineRow)
    (srcs : List SourceKey) (st : RelayEngine × List DownstreamFrame) :
    (srcs.foldl (ingestOfficialFor alt row) st).1.cache = st.1.cache :=
  (@foldl_ingestOfficialFor alt row alt srcs st).1

/-- Only a tick of the symbol, or restored ones, make a ring for it. -/
theorem keepsRing_step (indexed : engine.interests.Indexed) {inp : RelayInput} {sym : String}
    (unpushed : rowsOf calendar sym inp = []) (unrestored : ¬RestoresTicks sym inp) :
    engine.cache.KeepsRing (engine.step calendar inp).1.cache sym := by
  cases inp with
  | command cid command => exact .inr (by rw [cache_command])
  | removeClient cid => exact .inr rfl
  | tick alt row =>
    have ne : sym ≠ alt := by
      rintro rfl
      rw [rowsOf, if_pos rfl] at unpushed
      cases unpushed
    obtain ⟨feed, -⟩ := @klineFrames_spec
      { engine with cache := (engine.cache.pushTick alt row).1 } indexed alt row
    dsimp only [step, ingestTick]
    rw [feed.cache]
    exact engine.cache.keepsRing_pushTick ne row
  | quote alt quote =>
    dsimp only [step, ingestQuote]
    split
    · exact engine.cache.keepsRing_pushQuote alt quote sym
    · rename_i row _
      obtain ⟨feed, -⟩ := @klineFrames_spec
        { engine with cache := (engine.cache.pushQuote alt quote).1 } indexed alt row
      dsimp only
      rw [feed.cache]
      exact engine.cache.keepsRing_pushQuote alt quote sym
  | officialKline alt dur row =>
    dsimp only [step, ingestOfficialKline]
    split
    · exact .inr rfl
    · refine .inr ?_
      dsimp only [orRefused]
      rw [foldl_ingestOfficialFor_cache]
      rfl
  | restoreTicks alt tks =>
    have ne : sym ≠ alt := fun same => unrestored same.symm
    have kept : ∀ (tks : List RelayTickRow) (c : MarketCache), c.KeepsRing
        (tks.foldl (fun c row => (c.pushTick alt row).1) c) sym := by
      intro tks
      induction tks with
      | nil => exact fun _ => .inr rfl
      | cons row tks ih => exact fun c => (c.keepsRing_pushTick ne row).trans (ih _)
    exact kept tks engine.cache
  | restoreOfficialKlines alt dur tks =>
    have kept : ∀ (tks : List RelayKlineRow) (engine : RelayEngine),
        (tks.foldl (fun engine row =>
          engine.recordPersistedOfficialKline ⟨dur, alt⟩ row) engine).cache = engine.cache := by
      intro tks
      induction tks with
      | nil => exact fun _ => rfl
      | cons row tks ih => exact fun engine => ih _
    dsimp only [step, restoreOfficialRollingKlines]
    split
    · exact .inr rfl
    · refine .inr ?_
      dsimp only [orRefused, Except.map]
      rw [kept]

/-! ## From a chart on -/

/-- The input brings official rows of the key. -/
def BringsOfficial (key : KlineSourceKey) : RelayInput → Prop
  | .officialKline symbol durationNs _ => symbol = key.symbol ∧ durationNs = key.durationNs
  | .restoreOfficialKlines symbol durationNs _ => symbol = key.symbol ∧ durationNs = key.durationNs
  | _ => False

/-- No official row of the key has come. -/
structure Unofficial (engine : RelayEngine) (key : KlineSourceKey) : Prop where
  indexed : engine.interests.Indexed
  official : key ∉ engine.officialKlineSources
  persisted : OrdMap.get? key engine.persistedOfficialKlines = none

theorem Unofficial.of_same {post : RelayEngine} (unofficial : Unofficial engine key)
    (same : SameOfficial engine post key) (indexed : post.interests.Indexed) :
    Unofficial post key :=
  ⟨indexed, fun seen => unofficial.official (same.official.mp seen),
    same.persisted.trans unofficial.persisted⟩

theorem Unofficial.step (unofficial : Unofficial engine key) {inp : RelayInput}
    (synth : ¬BringsOfficial key inp) :
    Unofficial (engine.step calendar inp).1 key := by
  have indexed : (engine.step calendar inp).1.interests.Indexed := by
    rw [interests_step unofficial.indexed]
    exact indexed_interestsAfter unofficial.indexed inp
  cases @step_key calendar engine key unofficial.indexed inp with
  | stays same known kept hid unpushed unbr unset silent => exact unofficial.of_same same indexed
  | takes row same push act synth view sent => exact unofficial.of_same same indexed
  | official row got sav shown hid sent =>
    rw [got] at synth
    exact absurd ⟨rfl, rfl⟩ synth
  | restored rows got sav official view silent =>
    rw [got] at synth
    exact absurd ⟨rfl, rfl⟩ synth
  | replayed cid cmd got sets act sav official view sent =>
    refine ⟨indexed, fun seen => ?_, sav.trans unofficial.persisted⟩
    rcases official.mp seen with old | stored
    · exact unofficial.official old
    · exact stored unofficial.persisted

/-- The synthesizer of the key has been fed with the rows, or there is none yet. -/
structure Follows (engine : RelayEngine) (key : KlineSourceKey) (rows : List RelayTickRow) :
    Prop where
  unofficial : Unofficial engine key
  view : (rows = [] ∧ engine.viewAt key = (none, none) ∧
      (engine.cache.tickRing key.symbol).getD [] = []) ∨
    ((engine.viewAt key).1 = some (synthesized key.durationNs rows) ∧
      ∀ bar ∈ engine.completedRows key, bar ∈ completedBars key.durationNs rows)

theorem mem_recordRow {cap : Nat} {rows : List RelayKlineRow} {row bar : RelayKlineRow}
    (mem : bar ∈ recordRow cap rows row) : bar ∈ rows ∨ bar = row := by
  unfold recordRow at mem
  split at mem
  · exact .inl mem
  · rcases mem_append.mp ((trimRing_sublist _ _).subset mem) with old | new
    · exact .inl old
    · exact .inr (mem_singleton.mp new)

theorem mem_recordRows {cap : Nat} {rows : Option (List RelayKlineRow)} {done : List RelayKlineRow}
    {bar : RelayKlineRow} (mem : bar ∈ (recordRows cap rows done).getD []) :
    bar ∈ rows.getD [] ∨ bar ∈ done := by
  unfold recordRows at mem
  induction done generalizing rows with
  | nil => exact .inl mem
  | cons row done ih =>
    rcases ih mem with early | later
    · rcases mem_recordRow early with old | rfl
      · exact .inl old
      · exact .inr mem_cons_self
    · exact .inr (mem_cons_of_mem _ later)

theorem Follows.synthesisOf (fol : Follows engine key rows) :
    engine.synthesisOf key = synthesized key.durationNs rows ∧
      ∀ bar ∈ engine.completedRows key, bar ∈ completedBars key.durationNs rows := by
  rw [synthesisOf_eq]
  rcases fol.view with ⟨rfl, view, -⟩ | ⟨made, kept⟩
  · rw [show engine.completedRows key = (engine.viewAt key).2.getD [] from rfl, view, synthesized,
      KlineSynthesis.pushTicks]
    exact ⟨rfl, forall_mem_nil _⟩
  · rw [made]
    exact ⟨rfl, kept⟩

theorem replayOutcome_of_unmade (sav : OrdMap.get? key engine.persistedOfficialKlines = none)
    (unmade : engine.viewAt key = (none, none))
    (ring : (engine.cache.tickRing key.symbol).getD [] = []) :
    engine.replayOutcome key = ((none, none), []) := by
  rw [replayOutcome, sav, unmade, ring]
  rfl

theorem replayOutcome_of_made {synth : KlineSynthesis}
    (sav : OrdMap.get? key engine.persistedOfficialKlines = none)
    (made : (engine.viewAt key).1 = some synth) :
    engine.replayOutcome key = (engine.viewAt key, engine.completedRows key) := by
  have rebuilt : rebuiltView engine.cache.klineCapacity key.durationNs
      ((engine.cache.tickRing key.symbol).getD []) (engine.viewAt key) =
        some (engine.viewAt key) := by
    rw [rebuiltView, made]
    rfl
  rw [replayOutcome, sav, restoredView, rebuilt]
  rfl

/-- What one input does to a synthesizer in use: it takes the rows of the input, and every row
sent is one of its bars. -/
theorem Follows.step (fol : Follows engine key rows) (pos : 0 < key.durationNs)
    {inp : RelayInput} (synthesized : ¬BringsOfficial key inp)
    (unrestored : ¬RestoresTicks key.symbol inp) (active : engine.interests.Active key)
    (actAft : (engine.step calendar inp).1.interests.Active key) :
    Follows (engine.step calendar inp).1 key (rows ++ rowsOf calendar key.symbol inp) ∧
    (∀ own bar, SendsRow (engine.step calendar inp).2 own key bar →
      bar ∈ completedBars key.durationNs (rows ++ rowsOf calendar key.symbol inp)) ∧
    ∀ bar ∈ completedBars key.durationNs (rows ++ rowsOf calendar key.symbol inp),
      bar ∈ completedBars key.durationNs rows ∨ ∀ own, engine.interests.Shows own key →
        SendsRow (engine.step calendar inp).2 own key bar := by
  have indexed := fol.unofficial.indexed
  have unofficial := @Unofficial.step calendar engine key fol.unofficial inp synthesized
  cases @step_key calendar engine key indexed inp with
  | stays same seen kept hid unpushed unbr unset silent =>
    have emp := unpushed active pos fol.unofficial.official
    have view := kept actAft
    rw [emp, append_nil]
    refine ⟨⟨unofficial, ?_⟩, fun own bar sent => absurd sent (silent own bar),
      fun bar mem => .inl mem⟩
    rw [show (engine.step calendar inp).1.completedRows key =
      ((engine.step calendar inp).1.viewAt key).2.getD [] from rfl, view]
    rcases fol.view with ⟨none, unmade, ring⟩ | made
    · exact .inl ⟨none, unmade, (keepsRing_step indexed emp unrestored).empty ring⟩
    · exact .inr made
  | takes row same push active free view sent =>
    obtain ⟨synth, old⟩ := fol.synthesisOf
    rw [push, completedBars_snoc]
    rw [pushedView, synth] at view
    refine ⟨⟨unofficial, .inr ⟨?_, fun bar mem => ?_⟩⟩, fun own bar told => ?_, fun bar mem => ?_⟩
    · rw [view, synthesized_snoc]
    · rw [show (engine.step calendar inp).1.completedRows key =
        ((engine.step calendar inp).1.viewAt key).2.getD [] from rfl, view] at mem
      rw [completedBars_snoc]
      rcases mem_recordRows mem with kept | new
      · exact mem_append_left _ (old bar kept)
      · exact mem_append_right _ new
    · rw [sent, synth] at told
      exact mem_append_right _ told.1
    · rcases mem_append.mp mem with kept | new
      · exact .inl kept
      · refine .inr fun own shown => ?_
        rw [sent, synth]
        exact ⟨new, shown⟩
  | official row got sav shown hid sent =>
    rw [got] at synthesized
    exact absurd ⟨rfl, rfl⟩ synthesized
  | restored rows got sav official view silent =>
    rw [got] at synthesized
    exact absurd ⟨rfl, rfl⟩ synthesized
  | replayed cid cmd got sets active' sav official view sent =>
    have emp : rowsOf calendar key.symbol inp = [] := by
      rw [got]
      rfl
    rw [emp, append_nil]
    refine ⟨⟨unofficial, ?_⟩, fun own bar told => ?_, fun bar mem => .inl mem⟩
    · rw [show (engine.step calendar inp).1.completedRows key =
        ((engine.step calendar inp).1.viewAt key).2.getD [] from rfl, view]
      rcases fol.view with ⟨none, unmade, ring⟩ | ⟨made, kept⟩
      · rw [replayOutcome_of_unmade fol.unofficial.persisted unmade ring]
        exact .inl ⟨none, rfl, (keepsRing_step indexed emp unrestored).empty ring⟩
      · rw [replayOutcome_of_made fol.unofficial.persisted made]
        exact .inr ⟨made, kept⟩
    · have told := ((sent own bar).mp told).2
      rcases fol.view with ⟨none, unmade, ring⟩ | ⟨made, kept⟩
      · rw [replayOutcome_of_unmade fol.unofficial.persisted unmade ring] at told
        cases told
      · rw [replayOutcome_of_made fol.unofficial.persisted made] at told
        exact kept bar told

/-- The chart that makes a key active has its synthesizer made from the cached ticks. -/
theorem follows_setChart (unofficial : Unofficial engine key) (pruned : engine.Pruned)
    (inactive : ¬engine.interests.Active key) (pos : 0 < key.durationNs) {cid : ClientId}
    {cmd : SetChartCommand} (sets : SetsKey cid key (.command cid (.setChart cmd))) :
    Follows (engine.step calendar (.command cid (.setChart cmd))).1 key
      ((engine.cache.tickRing key.symbol).getD []) ∧
    ∀ own bar, SendsRow (engine.step calendar (.command cid (.setChart cmd))).2
      own key bar → bar ∈ completedBars key.durationNs
        ((engine.cache.tickRing key.symbol).getD []) := by
  have post := @Unofficial.step calendar engine key unofficial (.command cid (.setChart cmd)) id
  have c := @cache_command calendar engine cid (.setChart cmd)
  cases @step_key calendar engine key unofficial.indexed (.command cid (.setChart cmd)) with
  | stays same seen kept hid unpushed unbr unset silent => exact absurd pos (unset cid sets)
  | takes row same push act free view sent => cases push
  | official row got sav shown hid sent => cases got
  | restored rows got sav official view silent => cases got
  | replayed clientId' command' got sets' act sav official view sent =>
    have unmade := pruned key inactive
    by_cases ring : (engine.cache.tickRing key.symbol).getD [] = []
    · rw [replayOutcome_of_unmade unofficial.persisted unmade ring] at view sent
      refine ⟨⟨post, .inl ⟨ring, view, ?_⟩⟩, fun own bar told => ?_⟩
      · rw [c]
        exact ring
      · cases ((sent own bar).mp told).2
    · have out : engine.replayOutcome key =
          ((some (synthesized key.durationNs ((engine.cache.tickRing key.symbol).getD [])),
              recordRows engine.cache.klineCapacity none (completedBars key.durationNs
                ((engine.cache.tickRing key.symbol).getD []))),
            (recordRows engine.cache.klineCapacity none (completedBars key.durationNs
              ((engine.cache.tickRing key.symbol).getD []))).getD []) := by
        rw [replayOutcome, unofficial.persisted, unmade, restoredView, rebuiltView,
          if_neg (by simp), if_neg ring]
        rfl
      rw [out] at view sent
      have note : ∀ bar ∈ (recordRows engine.cache.klineCapacity none
          (completedBars key.durationNs ((engine.cache.tickRing key.symbol).getD []))).getD [],
          bar ∈ completedBars key.durationNs ((engine.cache.tickRing key.symbol).getD []) := by
        intro bar mem
        rcases mem_recordRows mem with none | completed
        · cases none
        · exact completed
      refine ⟨⟨post, .inr ⟨by rw [view], fun bar mem => note bar ?_⟩⟩,
        fun own bar told => note bar ((sent own bar).mp told).2⟩
      rw [completedRows, (Prod.mk.inj view).2] at mem
      exact mem

/-- The cached ticks of the symbol and the rows of the inputs since. -/
def rowsSince (calendar : String → Option Int) (engine : RelayEngine) (symbol : String)
    (inputs : List RelayInput) : List RelayTickRow :=
  (engine.cache.tickRing symbol).getD [] ++ inputs.flatMap (rowsOf calendar symbol)

/-- A run in which the key stays active and no official row of it comes. -/
structure KeepsSynthesis (calendar : String → Option Int) (engine : RelayEngine)
    (key : KlineSourceKey) (inputs : List RelayInput) : Prop where
  synthesized : ∀ input ∈ inputs, ¬BringsOfficial key input
  unrestored : ∀ input ∈ inputs, ¬RestoresTicks key.symbol input
  active : ∀ earlier later, inputs = earlier ++ later →
    (run calendar engine earlier).1.interests.Active key

theorem KeepsSynthesis.of_append {ins rest : List RelayInput}
    (hold : KeepsSynthesis calendar engine key (ins ++ rest)) :
    KeepsSynthesis calendar engine key ins :=
  ⟨fun pre mem => hold.synthesized pre (mem_append_left _ mem),
    fun pre mem => hold.unrestored pre (mem_append_left _ mem),
    fun pre post same => hold.active pre (post ++ rest) (by rw [same, append_assoc])⟩

/-- From a state on that follows the rows, all rows of the inputs are followed. -/
theorem Follows.along (fol : Follows engine key rows) (pos : 0 < key.durationNs)
    {ins : List RelayInput} (hold : KeepsSynthesis calendar engine key ins) :
    Follows (run calendar engine ins).1 key
      (rows ++ ins.flatMap (rowsOf calendar key.symbol)) := by
  induction ins using List.reverseRecOn with
  | nil =>
    rw [flatMap_nil, append_nil]
    exact fol
  | append_singleton ins inp ih =>
    have act := hold.active ins [inp] rfl
    have actAft := hold.active (ins ++ [inp]) [] (append_nil _).symm
    have last := mem_append_right ins (mem_singleton_self inp)
    rw [run_snoc] at actAft
    rw [run_snoc, flatMap_append, flatMap_singleton, ← append_assoc]
    exact ((ih hold.of_append).step pos (hold.synthesized inp last)
      (hold.unrestored inp last) act actAft).1

theorem Follows.sends (fol : Follows engine key rows) (pos : 0 < key.durationNs)
    {ins : List RelayInput} {inp : RelayInput}
    (hold : KeepsSynthesis calendar engine key (ins ++ [inp])) :
    (∀ own bar, SendsRow ((run calendar engine ins).1.step calendar inp).2 own key bar →
      bar ∈ completedBars key.durationNs
        (rows ++ (ins ++ [inp]).flatMap (rowsOf calendar key.symbol))) ∧
    ∀ bar ∈ completedBars key.durationNs
        (rows ++ (ins ++ [inp]).flatMap (rowsOf calendar key.symbol)),
      bar ∈ completedBars key.durationNs
          (rows ++ ins.flatMap (rowsOf calendar key.symbol)) ∨
        ∀ own, (run calendar engine ins).1.interests.Shows own key →
          SendsRow ((run calendar engine ins).1.step calendar inp).2 own key bar := by
  have act := hold.active ins [inp] rfl
  have actAft := hold.active (ins ++ [inp]) [] (append_nil _).symm
  have last := mem_append_right ins (mem_singleton_self inp)
  rw [run_snoc] at actAft
  rw [flatMap_append, flatMap_singleton, ← append_assoc]
  exact ((fol.along pos hold.of_append).step pos (hold.synthesized inp last)
    (hold.unrestored inp last) act actAft).2

/-- Every row sent along the run is a completed bar. -/
theorem Follows.sound (fol : Follows engine key rows) (pos : 0 < key.durationNs)
    {ins : List RelayInput} (hold : KeepsSynthesis calendar engine key ins) {own : ClientId}
    {bar : RelayKlineRow} (sent : SendsRow (run calendar engine ins).2 own key bar) :
    bar ∈ completedBars key.durationNs
      (rows ++ ins.flatMap (rowsOf calendar key.symbol)) := by
  induction ins using List.reverseRecOn with
  | nil => exact absurd sent sendsRow_nil
  | append_singleton ins inp ih =>
    rw [run_snoc] at sent
    rcases sendsRow_append.mp sent with pre | last
    · rw [flatMap_append, ← append_assoc]
      exact (completedBars_append _ _ _).subset (ih hold.of_append pre)
    · exact (fol.sends pos hold).1 own bar last

theorem Unofficial.along (unofficial : Unofficial engine key) {ins : List RelayInput}
    (synth : ∀ inp ∈ ins, ¬BringsOfficial key inp) :
    Unofficial (run calendar engine ins).1 key := by
  induction ins generalizing engine with
  | nil => exact unofficial
  | cons inp ins ih =>
    exact ih (unofficial.step (synth inp mem_cons_self))
      fun post mem => synth post (mem_cons_of_mem _ mem)

theorem Fresh.unofficial (new : Fresh engine) : Unofficial engine key :=
  ⟨new.indexed, by rw [new.official]; exact not_mem_nil, by rw [new.persisted]; rfl⟩

/-- From the chart on that makes a key active, as long as some chart shows it and no official row
comes: when neither the times nor the ids of the cached ticks, the ticks and the quotes decrease,
the bars cover them all, a window is completed by the first of them after it, and the clients
that show the key get exactly these bars. -/
theorem bars_cover_ticks_and_quotes {sizes : EntrySizes} {tickCapacity klineCapacity : Nat}
    {limits : MarketCacheLimits} {before after : List RelayInput} {clientId : ClientId}
    {command : SetChartCommand} {engine : RelayEngine} {key : KlineSourceKey}
    (positive : 0 < key.durationNs)
    (reached : engine =
      (run calendar (newMemoryOnly sizes tickCapacity klineCapacity limits) before).1)
    (unofficial : ∀ input ∈ before, ¬BringsOfficial key input)
    (inactive : ¬engine.interests.Active key)
    (sets : SetsKey clientId key (.command clientId (.setChart command)))
    (keeps : KeepsSynthesis calendar
      (engine.step calendar (.command clientId (.setChart command))).1 key after)
    (times : (rowsSince calendar engine key.symbol after).Pairwise fun earlier later =>
      earlier.datetime ≤ later.datetime)
    (ids : (rowsSince calendar engine key.symbol after).Pairwise fun earlier later =>
      earlier.id ≤ later.id) :
    (∀ earlier later, after = earlier ++ later →
      Complete key.durationNs (rowsSince calendar engine key.symbol earlier)
        (completedBars key.durationNs (rowsSince calendar engine key.symbol earlier))) ∧
    (∀ owner bar,
      SendsRow (run calendar engine (.command clientId (.setChart command) :: after)).2
        owner key bar →
      bar ∈ completedBars key.durationNs (rowsSince calendar engine key.symbol after)) ∧
    ∀ earlier input later, after = earlier ++ input :: later →
      ∀ bar ∈ completedBars key.durationNs
          (rowsSince calendar engine key.symbol (earlier ++ [input])),
        bar ∈ completedBars key.durationNs (rowsSince calendar engine key.symbol earlier) ∨
        ∀ owner, (run calendar engine
            (.command clientId (.setChart command) :: earlier)).1.interests.Shows owner key →
          SendsRow ((run calendar engine
            (.command clientId (.setChart command) :: earlier)).1.step calendar input).2
              owner key bar := by
  subst reached
  have new := fresh_newMemoryOnly sizes tickCapacity klineCapacity limits
  have began := @Unofficial.along calendar _ key new.unofficial before unofficial
  obtain ⟨next, replayed⟩ := @follows_setChart calendar _ key began
    (new.pruned.run new.indexed before) inactive positive clientId command sets
  refine ⟨fun earlier later same => ?_, fun owner bar sent => ?_, fun earlier input later same => ?_⟩
  · rw [same, rowsSince, flatMap_append, ← append_assoc, pairwise_append] at times ids
    exact complete_completedBars positive ids.1 times.1
  · rw [run] at sent
    rcases sendsRow_append.mp sent with hd | rest
    · exact (completedBars_append _ _ _).subset (replayed owner bar hd)
    · exact next.sound positive keeps rest
  · rw [same, ← singleton_append, ← append_assoc] at keeps
    exact (next.sends positive keeps.of_append).2

/-- Ticks, then a quote that completes the first bar, then another quote. -/
def quotesAfterTicks : List RelayInput :=
  [.tick "a" ⟨1, 10, .finite 5, 0, 0⟩, .tick "a" ⟨2, 30, .finite 9, 3, 0⟩,
    .quote "a" ⟨"a", "70", .finite 7, 3, 0⟩, .quote "a" ⟨"a", "130", .finite 6, 3, 0⟩]

theorem bars_cover_ticks_and_quotes_mixed :
    completedBars 60 (rowsSince (fun _ => none)
      (newMemoryOnly ⟨24, 300, 32, 48⟩ 8 8 ⟨4, 100000⟩) "a" quotesAfterTicks) =
      [⟨0, 0, .finite 5, .finite 9, .finite 5, .finite 9, 3, 0, 0⟩,
        ⟨1, 60, .finite 7, .finite 7, .finite 7, .finite 7, 0, 0, 0⟩] ∧
    Complete 60 (rowsSince (fun _ => none)
        (newMemoryOnly ⟨24, 300, 32, 48⟩ 8 8 ⟨4, 100000⟩) "a" quotesAfterTicks)
      (completedBars 60 (rowsSince (fun _ => none)
        (newMemoryOnly ⟨24, 300, 32, 48⟩ 8 8 ⟨4, 100000⟩) "a" quotesAfterTicks)) := by
  refine ⟨by decide +kernel, ?_⟩
  have kept : ∀ inp ∈ quotesAfterTicks, ¬Replaces 1 "chart" inp := by
    simp [quotesAfterTicks, Replaces]
  have indexed := (fresh_newMemoryOnly ⟨24, 300, 32, 48⟩ 8 8 ⟨4, 100000⟩).indexed
  refine (@bars_cover_ticks_and_quotes (fun _ => none) ⟨24, 300, 32, 48⟩ 8 8 ⟨4, 100000⟩ []
    quotesAfterTicks 1 ⟨"chart", ["a"], 60, 8⟩ _ ⟨60, "a"⟩ (by decide) rfl
    (forall_mem_nil _) ?_ ?_ ⟨?_, ?_, fun pre post same => ?_⟩ (by decide +kernel)
    (by decide +kernel)).1 quotesAfterTicks [] (append_nil _).symm
  · rintro ⟨cid, cht, src, mp, -⟩
    cases mp
  · exact ⟨rfl, cons_ne_nil _ _, rfl, by decide +kernel⟩
  · simp [quotesAfterTicks, BringsOfficial]
  · simp [quotesAfterTicks, RestoresTicks]
  · refine ⟨1, "chart", ⟨["a"], 60, 8⟩, ?_, rfl, mem_singleton_self _⟩
    rw [chartOf_run_of_not_replaces]
    · decide +kernel
    · exact @indexed_run (fun _ => none) _ [.command 1 (.setChart ⟨"chart", ["a"], 60, 8⟩)] indexed
    · exact fun inp mem => kept inp (by rw [same]; exact mem_append_left _ mem)

/-- A quote comes between two ticks. -/
def quoteBetweenTicks : List RelayInput :=
  [.command 1 (.setChart ⟨"chart", ["a"], 60, 8⟩), .tick "a" ⟨1, 10, .finite 5, 0, 0⟩,
    .quote "a" ⟨"a", "20", .finite 7, 1, 0⟩, .tick "a" ⟨2, 30, .finite 100, 2, 0⟩,
    .quote "a" ⟨"a", "70", .finite 7, 3, 0⟩]

/-- The ticks of a new id epoch follow those of the old one. -/
def restartedIds : List RelayInput :=
  [.command 1 (.setChart ⟨"chart", ["a"], 60, 8⟩), .tick "a" ⟨1000, 10, .finite 5, 0, 0⟩,
    .tick "a" ⟨1, 70, .finite 6, 1, 0⟩, .tick "a" ⟨2, 130, .finite 7, 2, 0⟩]

/-- The client is sent a bar that leaves out the tick after the quote, and no bar at all once the
ids restart. -/
theorem quote_hides_tick :
    (∃ bar, SendsRow (run (fun _ => none) (newMemoryOnly ⟨24, 300, 32, 48⟩ 8 8 ⟨4, 100000⟩)
        quoteBetweenTicks).2 1 ⟨60, "a"⟩ bar ∧
      ¬Covers 60 (rowsSince (fun _ => none) (newMemoryOnly ⟨24, 300, 32, 48⟩ 8 8 ⟨4, 100000⟩) "a"
        quoteBetweenTicks) bar) ∧
    rowsSince (fun _ => none) (newMemoryOnly ⟨24, 300, 32, 48⟩ 8 8 ⟨4, 100000⟩) "a" restartedIds =
      [⟨1000, 10, .finite 5, 0, 0⟩, ⟨1, 70, .finite 6, 1, 0⟩, ⟨2, 130, .finite 7, 2, 0⟩] ∧
    ∀ clientId bar, ¬SendsRow (run (fun _ => none)
      (newMemoryOnly ⟨24, 300, 32, 48⟩ 8 8 ⟨4, 100000⟩) restartedIds).2 clientId ⟨60, "a"⟩ bar := by
  refine ⟨⟨⟨0, 0, .finite 5, .finite 7, .finite 5, .finite 7, 1, 0, 0⟩,
    ⟨⟨1, [.kline "a" 60 ⟨0, 0, .finite 5, .finite 7, .finite 5, .finite 7, 1, 0, 0⟩]⟩,
      by decide +kernel, rfl, mem_singleton_self _⟩, fun cov => ?_⟩, by decide +kernel, ?_⟩
  · have bnds := cov.prices ⟨2, 30, .finite 100, 2, 0⟩ (by decide +kernel) (by decide)
      (by decide)
    exact absurd bnds.2 (by decide +kernel)
  · have silent : (run (fun _ => none) (newMemoryOnly ⟨24, 300, 32, 48⟩ 8 8 ⟨4, 100000⟩)
        restartedIds).2 = [] := by decide +kernel
    rw [silent]
    exact fun clientId bar => sendsRow_nil

/-! ## The cache along a run -/

/-- The writes of an input to the cache. -/
def cacheWrites : RelayInput → List MarketCache.CacheWrite
  | .tick symbol row => [.tick symbol row]
  | .quote symbol quote => [.quote symbol quote]
  | .restoreTicks symbol rows => rows.map (.tick symbol)
  | _ => []

theorem cache_step (indexed : engine.interests.Indexed) (inp : RelayInput) :
    (engine.step calendar inp).1.cache = engine.cache.run (cacheWrites inp) := by
  cases inp with
  | command cid command => exact cache_command cid command
  | removeClient cid => rfl
  | tick sym row =>
    exact (@klineFrames_spec { engine with cache := (engine.cache.pushTick sym row).1 } indexed sym
      row).1.cache
  | quote sym quote =>
    dsimp only [step, ingestQuote]
    split
    · rfl
    · rename_i row _
      exact (@klineFrames_spec
        { engine with cache := (engine.cache.pushQuote sym quote).1 } indexed sym
        row).1.cache
  | restoreTicks sym rows =>
    rw [cacheWrites, MarketCache.run, foldl_map]
    rfl
  | officialKline sym dur row =>
    dsimp only [step, ingestOfficialKline]
    split
    · rfl
    · exact foldl_ingestOfficialFor_cache _ _ _ _
  | restoreOfficialKlines sym dur rows =>
    dsimp only [step, restoreOfficialRollingKlines]
    split
    · rfl
    · exact foldlRecOn (motive := fun after : RelayEngine => after.cache = engine.cache)
        rows _ rfl fun _ same _ _ => same

theorem cache_run (indexed : engine.interests.Indexed) (ins : List RelayInput) :
    (run calendar engine ins).1.cache = engine.cache.run (ins.flatMap cacheWrites) := by
  induction ins generalizing engine with
  | nil => rfl
  | cons inp ins ih =>
    rw [run, ih (interests_step indexed inp ▸ indexed_interestsAfter indexed inp),
      cache_step indexed,
      flatMap_cons]
    exact foldl_append.symm

/-- Whatever the clients ask for and whichever official rows come, the cache of a run is that of its
ticks and quotes, and it is accounted for, within its limits. -/
theorem cache_of_run {sizes : EntrySizes} {tickCapacity klineCapacity : Nat}
    {limits : MarketCacheLimits}
    (accepted : (MarketCache.withLimits sizes tickCapacity klineCapacity limits).Accepted)
    (inputs : List RelayInput) (unsaturated : MarketCache.Unsaturated (inputs.flatMap cacheWrites)
      (.withLimits sizes tickCapacity klineCapacity limits)) :
    let after := run calendar (newMemoryOnly sizes tickCapacity klineCapacity limits) inputs
    after.1.cache = (MarketCache.withLimits sizes tickCapacity klineCapacity limits).run
      (inputs.flatMap cacheWrites) ∧ after.1.cache.Accounted := by
  have same := @cache_run calendar _
    (fresh_newMemoryOnly sizes tickCapacity klineCapacity limits).indexed inputs
  refine ⟨same, same ▸ ?_⟩
  exact ((MarketCache.accounted_withLimits ..).run accepted.2.2.1 unsaturated
    (nil_sublist ([] : List String).dedup)).1

/-- Room for two symbols: the quote of the third evicts the ticks of the first, whatever the client
asked for. -/
theorem cache_of_run_evicting :
    let after := run (fun _ => none)
      (newMemoryOnly ⟨24, 320, 32, 48⟩ 2 64 ⟨2, MarketCache.usizeMax⟩)
      [.command 1 (.subscribeQuote ["a", "b"]), .command 1 (.setChart ⟨"c", ["a"], 60, 8⟩),
        .restoreTicks "a" [⟨1, 10, .finite 5, 0, 0⟩, ⟨2, 70, .finite 6, 0, 0⟩],
        .tick "b" ⟨1, 10, .finite 5, 0, 0⟩,
        .officialKline "a" 60 ⟨7, 60, .finite 5, .finite 6, .finite 5, .finite 6, 2, 0, 0⟩,
        .removeClient 1, .quote "c" ⟨"c", "", .finite 7, 0, 0⟩]
    after.1.cache.Accounted ∧ after.1.cache.lru = ["b", "c"] ∧ after.1.cache.tickRing "a" = none := by
  intro after
  obtain ⟨same, accounted⟩ := @cache_of_run (fun _ => none) ⟨24, 320, 32, 48⟩ 2 64
    ⟨2, MarketCache.usizeMax⟩ ⟨by decide, by decide, by decide, by decide, min_le_left _ _⟩
    [.command 1 (.subscribeQuote ["a", "b"]), .command 1 (.setChart ⟨"c", ["a"], 60, 8⟩),
      .restoreTicks "a" [⟨1, 10, .finite 5, 0, 0⟩, ⟨2, 70, .finite 6, 0, 0⟩],
      .tick "b" ⟨1, 10, .finite 5, 0, 0⟩,
      .officialKline "a" 60 ⟨7, 60, .finite 5, .finite 6, .finite 5, .finite 6, 2, 0, 0⟩,
      .removeClient 1, .quote "c" ⟨"c", "", .finite 7, 0, 0⟩]
    ⟨by decide, by decide, by decide, by decide, trivial⟩
  refine ⟨accounted, ?_, ?_⟩ <;> rw [same] <;> decide +kernel

end RelayEngine

end Tqsdk
