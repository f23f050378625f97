import Tqsdk.Relay.KeySteps

/-!
# Official rows in place of synthesized ones

Official rows of a key are kept apart from the synthesized ones, and take their place when a chart
of the key gets one or is set.
-/

namespace Tqsdk

open List OrdMap

/-- The row is the last one received with its id. -/
def Latest (received : List RelayKlineRow) (row : RelayKlineRow) : Prop :=
  ∃ earlier later, received = earlier ++ row :: later ∧ ∀ other ∈ later, other.id ≠ row.id

theorem latest_snoc (received : List RelayKlineRow) (row : RelayKlineRow) :
    Latest (received ++ [row]) row :=
  ⟨received, [], rfl, forall_mem_nil _⟩

variable {received : List RelayKlineRow}

theorem Latest.snoc {row alt : RelayKlineRow} (last : Latest received row) (ne : row.id ≠ alt.id) :
    Latest (received ++ [alt]) row := by
  obtain ⟨pre, later, rfl, unmatched⟩ := last
  refine ⟨pre, later ++ [alt], by simp, fun post mem => ?_⟩
  rcases mem_append.mp mem with old | new
  · exact unmatched post old
  · rw [mem_singleton.mp new]
    exact ne.symm

/-- Kept rows with distinct ids, each the last one received with its id. -/
structure KeepsLatest (received kept : List RelayKlineRow) : Prop where
  distinct : (kept.map (·.id)).Nodup
  latest : ∀ row ∈ kept, Latest received row

theorem keepsLatest_nil : KeepsLatest [] [] := ⟨.nil, forall_mem_nil _⟩

open RelayEngine (putOfficialRow)

theorem KeepsLatest.put {kept : List RelayKlineRow} (hold : KeepsLatest received kept)
    (cap : Nat) (row : RelayKlineRow) :
    KeepsLatest (received ++ [row]) (putOfficialRow cap kept row) := by
  unfold putOfficialRow
  cases hit : hasRow RelayKlineRow.id kept row with
  | true =>
    rw [if_pos rfl]
    refine ⟨?_, fun alt mem => ?_⟩
    · rw [map_id_overwriteRow hold.distinct]
      exact hold.distinct
    · rcases (mem_overwriteRow hold.distinct).mp mem with ⟨rfl, -⟩ | ⟨old, ne⟩
      · exact latest_snoc _ _
      · exact (hold.latest alt old).snoc ne
  | false =>
    rw [if_neg Bool.false_ne_true]
    have fresh := hasRow_eq_false.mp hit
    have trim := trimRing_sublist cap (kept ++ [row])
    refine ⟨(trim.map _).nodup ?_, fun alt mem => ?_⟩
    · rw [map_append, nodup_append]
      refine ⟨hold.distinct, nodup_singleton _, fun id old alt new => ?_⟩
      obtain ⟨existing, mem, rfl⟩ := mem_map.mp old
      rw [mem_singleton.mp new]
      exact fresh existing mem
    · rcases mem_append.mp (trim.subset mem) with old | new
      · exact (hold.latest alt old).snoc (fresh alt old)
      · rw [mem_singleton.mp new]
        exact latest_snoc _ _

theorem KeepsLatest.foldl_put {kept : List RelayKlineRow} (hold : KeepsLatest received kept)
    (cap : Nat) (rows : List RelayKlineRow) :
    KeepsLatest (received ++ rows) (rows.foldl (putOfficialRow cap) kept) := by
  induction rows generalizing received kept with
  | nil =>
    rw [append_nil]
    exact hold
  | cons row rows ih =>
    have post := ih (hold.put cap row)
    rw [append_assoc] at post
    exact post

namespace RelayEngine

variable {calendar : String → Option Int} {engine : RelayEngine} {key : KlineSourceKey}

/-- Official rows can take the place of what is kept: the first one for an active key meets no
synthesized row, restored rows no active key, and a chart a ring with ticks but without bars. -/
def Gives (engine : RelayEngine) (key : KlineSourceKey) : RelayInput → Prop
  | .officialKline symbol durationNs row => (⟨durationNs, symbol⟩ : KlineSourceKey) = key →
      engine.interests.Active key → get? key engine.persistedOfficialKlines = none →
        putOfficialRow engine.cache.klineCapacity (engine.completedRows key) row =
          putOfficialRow engine.cache.klineCapacity [] row
  | .restoreOfficialKlines symbol durationNs rows =>
    (⟨durationNs, symbol⟩ : KlineSourceKey) = key → rows ≠ [] → ¬engine.interests.Active key
  | .command clientId command =>
    SetsKey clientId key (.command clientId command) →
      ∀ kept, get? key engine.persistedOfficialKlines = some kept →
        (kept ≠ [] → (engine.cache.tickRing key.symbol).getD [] ≠ []) ∧
        recordRows engine.cache.klineCapacity (some kept)
          (completedBars key.durationNs ((engine.cache.tickRing key.symbol).getD [])) = some kept
  | _ => True

/-- The official rows received so far have the place of the synthesized ones. -/
structure Displaces (engine : RelayEngine) (key : KlineSourceKey)
    (received : List RelayKlineRow) : Prop where
  indexed : engine.interests.Indexed
  pruned : engine.Pruned
  keeps : KeepsLatest received (engine.persistedRows key)
  without : received = [] → get? key engine.persistedOfficialKlines = none ∧
    key ∉ engine.officialKlineSources
  stored : received ≠ [] → get? key engine.persistedOfficialKlines ≠ none
  shown : received ≠ [] → engine.interests.Active key → key ∈ engine.officialKlineSources ∧
    engine.completedRows key = engine.persistedRows key

theorem persistedRows_eq {post : RelayEngine}
    (sav : get? key post.persistedOfficialKlines = get? key engine.persistedOfficialKlines) :
    post.persistedRows key = engine.persistedRows key := by
  rw [persistedRows, persistedRows, sav]

/-- What one step sends and keeps once there is an official row. -/
structure Displaced (after : RelayEngine) (key : KlineSourceKey) (input : RelayInput)
    (received : List RelayKlineRow) (frames : List DownstreamFrame) : Prop where
  sent : ∀ clientId bar, SendsRow frames clientId key bar → Latest received bar
  completed : KeepsLatest received (after.completedRows key)
  persisted : KeepsLatest received (after.persistedRows key)
  replied : ∀ clientId, SetsKey clientId key input →
    ∀ bar ∈ after.persistedRows key, SendsRow frames clientId key bar

variable {received : List RelayKlineRow} {input : RelayInput}

theorem keepsLatest_nil_of : KeepsLatest received [] :=
  ⟨.nil, forall_mem_nil _⟩

theorem completedRows_eq : engine.completedRows key = (engine.viewAt key).2.getD [] := rfl

theorem Displaces.displaced {received : List RelayKlineRow} {input : RelayInput}
    {frms : List DownstreamFrame} (disp : Displaces engine key received) (isRow : received ≠ [])
    (sent : ∀ cid bar, SendsRow frms cid key bar → Latest received bar)
    (replied : ∀ cid, SetsKey cid key input →
      ∀ bar ∈ engine.persistedRows key, SendsRow frms cid key bar) :
    Displaced engine key input received frms := by
  refine ⟨sent, ?_, disp.keeps, replied⟩
  by_cases act : engine.interests.Active key
  · rw [(disp.shown isRow act).2]
    exact disp.keeps
  · rw [completedRows_eq, disp.pruned key act]
    exact keepsLatest_nil_of

theorem getD_foldl_put (cap : Nat) (rows : List RelayKlineRow)
    (kept : Option (List RelayKlineRow)) :
    (rows.foldl (fun kept row => some (putOfficialRow cap (kept.getD []) row)) kept).getD [] =
      rows.foldl (putOfficialRow cap) (kept.getD []) := by
  induction rows generalizing kept with
  | nil => rfl
  | cons row rows ih => exact ih _

theorem foldl_put_ne_none (cap : Nat) {rows : List RelayKlineRow}
    {kept : Option (List RelayKlineRow)} (isRow : kept ≠ none ∨ rows ≠ []) :
    rows.foldl (fun kept row => some (putOfficialRow cap (kept.getD []) row)) kept ≠ none := by
  induction rows generalizing kept with
  | nil => exact isRow.resolve_right fun none => none rfl
  | cons row rows ih => exact ih (.inl (Option.some_ne_none _))

/-- The replay of official rows, where the cached ticks add nothing to them. -/
theorem replayOutcome_of_stored {kept : List RelayKlineRow}
    (got : get? key engine.persistedOfficialKlines = some kept)
    (ring : kept ≠ [] → (engine.cache.tickRing key.symbol).getD [] ≠ [])
    (adds : recordRows engine.cache.klineCapacity (some kept)
      (completedBars key.durationNs ((engine.cache.tickRing key.symbol).getD [])) = some kept) :
    (engine.replayOutcome key).1.2.getD [] = kept ∧ (engine.replayOutcome key).2 = kept := by
  rw [replayOutcome, got, restoredView, rebuiltView, if_neg (by simp)]
  by_cases emp : (engine.cache.tickRing key.symbol).getD [] = []
  · rw [if_pos emp]
    have none : kept = [] := by_contra fun some => ring some emp
    exact ⟨rfl, none.symm⟩
  · rw [if_neg emp]
    have adds : recordRows engine.cache.klineCapacity (some kept)
        ((KlineSynthesis.new key.durationNs).pushTicks
          ((engine.cache.tickRing key.symbol).getD [])).2 = some kept := adds
    rw [adds]
    exact ⟨rfl, rfl⟩

theorem officialRowsOf_of_pushed {sym : String} (push : rowsOf calendar sym input ≠ []) :
    officialRowsOf key input = [] := by
  cases input with
  | tick alt row => rfl
  | quote alt quote => rfl
  | command cid command => rfl
  | officialKline alt dur row => exact absurd rfl push
  | restoreTicks alt rows => rfl
  | restoreOfficialKlines alt dur rows => exact absurd rfl push
  | removeClient cid => rfl

theorem Displaces.step (disp : Displaces engine key received) (pos : 0 < key.durationNs)
    (gives : Gives engine key input) :
    Displaces (engine.step calendar input).1 key (received ++ officialRowsOf key input) ∧
    (received ++ officialRowsOf key input ≠ [] →
      Displaced (engine.step calendar input).1 key input (received ++ officialRowsOf key input)
        (engine.step calendar input).2) := by
  have wants := @interests_step calendar engine disp.indexed input
  have indexed : (engine.step calendar input).1.interests.Indexed := by
    rw [wants]
    exact indexed_interestsAfter disp.indexed input
  have pruned := @Pruned.step calendar engine disp.pruned disp.indexed input
  cases @step_key calendar engine key disp.indexed input with
  | stays same known kept forgotten unpushed unbr unset silent =>
    rw [unbr pos, append_nil]
    have rows := persistedRows_eq same.persisted
    have post : Displaces (engine.step calendar input).1 key received := by
      refine ⟨indexed, pruned, rows ▸ disp.keeps, fun none => ?_, fun isRow => ?_, fun isRow act => ?_⟩
      · obtain ⟨sav, official⟩ := disp.without none
        exact ⟨same.persisted.trans sav, fun seen => official (same.official.mp seen)⟩
      · rw [same.persisted]
        exact disp.stored isRow
      · obtain ⟨official, done⟩ := disp.shown isRow (known pos act)
        rw [completedRows_eq, kept act, rows]
        exact ⟨same.official.mpr official, done⟩
    exact ⟨post, fun isRow => post.displaced isRow (fun cid bar sent => absurd sent (silent cid
      bar)) fun cid sets => absurd pos (unset cid sets)⟩
  | takes row same push act synth view sent =>
    have some_pushed : rowsOf calendar key.symbol input ≠ [] := by
      rw [push]
      exact cons_ne_nil _ _
    have none : received = [] := by_contra fun isRow => synth (disp.shown isRow act).1
    obtain ⟨sav, official⟩ := disp.without none
    rw [officialRowsOf_of_pushed some_pushed, append_nil]
    refine ⟨⟨indexed, pruned, persistedRows_eq same.persisted ▸ disp.keeps, fun _ => ?_, fun isRow =>
      absurd none isRow, fun isRow => absurd none isRow⟩, fun isRow => absurd none isRow⟩
    exact ⟨same.persisted.trans sav, fun seen => official (same.official.mp seen)⟩
  | official row got sav shown hid sent =>
    subst got
    have brought : officialRowsOf key (.officialKline key.symbol key.durationNs row) = [row] :=
      if_pos rfl
    have isRow : received ++ [row] ≠ [] := by simp
    have rows : (engine.step calendar
        (.officialKline key.symbol key.durationNs row)).1.persistedRows key =
          putOfficialRow engine.cache.klineCapacity (engine.persistedRows key) row := by
      rw [persistedRows, sav]
      rfl
    rw [brought]
    have post : Displaces (engine.step calendar
        (.officialKline key.symbol key.durationNs row)).1 key (received ++ [row]) := by
      refine ⟨indexed, pruned, ?_, fun none => absurd none isRow, fun _ => ?_, fun _ act => ?_⟩
      · rw [rows]
        exact disp.keeps.put _ row
      · rw [sav]
        exact Option.some_ne_none _
      · rw [wants] at act
        obtain ⟨official, view⟩ := shown act
        refine ⟨official, ?_⟩
        rw [completedRows_eq, view, rows]
        by_cases none : received = []
        · have unstored := (disp.without none).1
          have emp : engine.persistedRows key = [] := by
            rw [persistedRows, unstored]
            rfl
          rw [emp]
          exact gives rfl act unstored
        · rw [(disp.shown none act).2]
          rfl
    refine ⟨post, fun _ => post.displaced isRow (fun cid bar told => ?_) fun cid => False.elim⟩
    rw [((sent cid bar).mp told).1]
    exact latest_snoc received row
  | restored rows got sav official view silent =>
    subst got
    have brought : officialRowsOf key
        (.restoreOfficialKlines key.symbol key.durationNs rows) = rows := if_pos rfl
    rw [brought]
    have post : Displaces (engine.step calendar
        (.restoreOfficialKlines key.symbol key.durationNs rows)).1 key (received ++ rows) := by
      refine ⟨indexed, pruned, ?_, fun none => ?_, fun isRow => ?_, fun isRow act => ?_⟩
      · rw [persistedRows, sav, getD_foldl_put]
        exact disp.keeps.foldl_put _ rows
      · obtain ⟨hd, rfl⟩ := append_eq_nil_iff.mp none
        obtain ⟨unstored, unl⟩ := disp.without hd
        exact ⟨sav.trans unstored, fun seen => unl (official.mp seen)⟩
      · rw [sav]
        refine foldl_put_ne_none _ ?_
        by_cases none : rows = []
        · rw [none, append_nil] at isRow
          exact .inl (disp.stored isRow)
        · exact .inr none
      · rw [wants] at act
        by_cases none : rows = []
        · subst none
          rw [append_nil] at isRow
          obtain ⟨seen, done⟩ := disp.shown isRow act
          rw [completedRows_eq, view, persistedRows_eq sav]
          exact ⟨official.mpr seen, done⟩
        · exact absurd act (gives rfl none)
    exact ⟨post, fun isRow => post.displaced isRow
      (fun cid bar told => absurd told (silent cid bar)) fun cid => False.elim⟩
  | replayed cid cmd got sets act sav official view sent =>
    subst got
    have rows := persistedRows_eq sav
    rw [show officialRowsOf key (.command cid (.setChart cmd)) = [] from rfl, append_nil]
    by_cases none : received = []
    · obtain ⟨unstored, unl⟩ := disp.without none
      refine ⟨⟨indexed, pruned, rows ▸ disp.keeps, fun _ => ⟨sav.trans unstored, ?_⟩, fun isRow =>
        absurd none isRow, fun isRow => absurd none isRow⟩, fun isRow => absurd none isRow⟩
      intro seen
      rcases official.mp seen with old | stored
      · exact unl old
      · exact stored unstored
    · obtain ⟨kept, stored⟩ := Option.ne_none_iff_exists'.mp (disp.stored none)
      obtain ⟨ring, adds⟩ := gives sets kept stored
      obtain ⟨done, replayed⟩ := replayOutcome_of_stored stored ring adds
      have same : engine.persistedRows key = kept := by
        rw [persistedRows, stored]
        rfl
      have post : Displaces (engine.step calendar (.command cid (.setChart cmd))).1
          key received := by
        refine ⟨indexed, pruned, rows ▸ disp.keeps, fun emp => absurd emp none,
          fun _ => ?_, fun _ _ => ⟨official.mpr (.inr (disp.stored none)), ?_⟩⟩
        · rw [sav]
          exact disp.stored none
        · rw [completedRows_eq, view, rows, done, same]
      refine ⟨post, fun _ => post.displaced none (fun own bar told => ?_)
        fun own sets' bar mem => ?_⟩
      · have told := ((sent own bar).mp told).2
        rw [replayed, ← same] at told
        exact disp.keeps.latest bar told
      · rw [rows, same, ← replayed] at mem
        exact (sent own bar).mpr ⟨sets'.1.symm, mem⟩

/-! ## Runs -/

/-- Every input of the run gives way to official rows. -/
def RunGives (calendar : String → Option Int) (engine : RelayEngine) (key : KlineSourceKey) :
    List RelayInput → Prop
  | [] => True
  | input :: inputs =>
    Gives engine key input ∧ RunGives calendar (engine.step calendar input).1 key inputs

theorem runGives_append {pre post : List RelayInput} :
    RunGives calendar engine key (pre ++ post) ↔ RunGives calendar engine key pre ∧
      RunGives calendar (run calendar engine pre).1 key post := by
  induction pre generalizing engine with
  | nil => exact ⟨fun gives => ⟨trivial, gives⟩, And.right⟩
  | cons hd pre ih => rw [cons_append, RunGives, ih, RunGives, run, and_assoc]

theorem Fresh.displaces (new : Fresh engine) : Displaces engine key [] := by
  have got : get? key engine.persistedOfficialKlines = none := by
    rw [new.persisted]
    rfl
  refine ⟨new.indexed, new.pruned, ?_, fun _ => ⟨got, ?_⟩, fun isRow => absurd rfl isRow,
    fun isRow => absurd rfl isRow⟩
  · rw [persistedRows, got]
    exact keepsLatest_nil
  · rw [new.official]
    exact not_mem_nil

theorem Displaces.along (disp : Displaces engine key received) (pos : 0 < key.durationNs)
    {ins : List RelayInput} (gives : RunGives calendar engine key ins) :
    Displaces (run calendar engine ins).1 key
      (received ++ ins.flatMap (officialRowsOf key)) := by
  induction ins generalizing engine received with
  | nil =>
    rw [flatMap_nil, append_nil]
    exact disp
  | cons input ins ih =>
    have post := ih (disp.step pos gives.1).1 gives.2
    rw [append_assoc] at post
    exact post

/-- In a run that gives way to official rows, from the first one received on: every row sent and
every row kept is the last official one received with its id, ids are distinct, and a chart that is
set gets all official rows that are kept. -/
theorem official_rows_displace {sizes : EntrySizes} {tickCapacity klineCapacity : Nat}
    {limits : MarketCacheLimits} {key : KlineSourceKey} (positive : 0 < key.durationNs)
    {inputs : List RelayInput}
    (gives : RunGives calendar (newMemoryOnly sizes tickCapacity klineCapacity limits) key inputs)
    (before : List RelayInput) (input : RelayInput) (after : List RelayInput)
    (split : inputs = before ++ input :: after)
    (received : (before ++ [input]).flatMap (officialRowsOf key) ≠ []) :
    Displaced
      (run calendar (newMemoryOnly sizes tickCapacity klineCapacity limits) (before ++ [input])).1
      key input ((before ++ [input]).flatMap (officialRowsOf key))
      ((run calendar (newMemoryOnly sizes tickCapacity klineCapacity limits) before).1.step calendar
        input).2 := by
  have new := fresh_newMemoryOnly sizes tickCapacity klineCapacity limits
  rw [split, runGives_append] at gives
  have disp := (@Fresh.displaces _ key new).along positive gives.1
  rw [flatMap_append, flatMap_singleton] at received ⊢
  rw [run_snoc]
  exact (disp.step positive gives.2.1).2 received

def officialRow (id datetime : Int) (price : ℚ) : RelayKlineRow :=
  ⟨id, datetime, .finite price, .finite price, .finite price, .finite price, 1, 0, 0⟩

/-- Official rows are restored, a tick is cached, and then a chart is set and gets one more. -/
def officialRun : List RelayInput :=
  [.restoreOfficialKlines "a" 60 [officialRow 7 0 5], .tick "a" ⟨1, 130, .finite 6, 0, 0⟩,
    .command 1 (.setChart ⟨"chart", ["a"], 60, 8⟩), .officialKline "a" 60 (officialRow 8 60 6)]

theorem runGives_officialRun : RunGives (fun _ => none)
    (newMemoryOnly ⟨24, 300, 32, 48⟩ 8 8 ⟨4, 100000⟩) ⟨60, "a"⟩ officialRun := by
  refine ⟨fun _ _ => ?_, trivial, fun _ kept got => ?_, fun _ _ unstored => ?_, trivial⟩
  · rintro ⟨cid, ch, src, mp, -⟩
    cases mp
  · have here : kept = [officialRow 7 0 5] := Option.some.inj (got.symm.trans (by decide +kernel))
    subst here
    exact ⟨fun _ => by decide +kernel, by decide +kernel⟩
  · exact absurd unstored (by decide +kernel)

theorem official_rows_displace_restored :
    (run (fun _ => none) (newMemoryOnly ⟨24, 300, 32, 48⟩ 8 8 ⟨4, 100000⟩)
      officialRun).1.completedRows ⟨60, "a"⟩ = [officialRow 7 0 5, officialRow 8 60 6] ∧
    Displaced (run (fun _ => none) (newMemoryOnly ⟨24, 300, 32, 48⟩ 8 8 ⟨4, 100000⟩)
        officialRun).1 ⟨60, "a"⟩ (.officialKline "a" 60 (officialRow 8 60 6))
      [officialRow 7 0 5, officialRow 8 60 6]
      ((run (fun _ => none) (newMemoryOnly ⟨24, 300, 32, 48⟩ 8 8 ⟨4, 100000⟩)
        (officialRun.take 3)).1.step (fun _ => none)
          (.officialKline "a" 60 (officialRow 8 60 6))).2 :=
  ⟨by decide +kernel, official_rows_displace (by decide) runGives_officialRun
    (officialRun.take 3) (.officialKline "a" 60 (officialRow 8 60 6)) [] rfl (by decide)⟩

/-- Official rows are restored and a chart is set, with no tick cached. -/
def unreplayedRun : List RelayInput :=
  [.restoreOfficialKlines "a" 60 [officialRow 7 0 5],
    .command 1 (.setChart ⟨"chart", ["a"], 60, 8⟩)]

/-- Without a cached tick the chart gets no row; with a bar already synthesized the official row is
kept beside it; and once rows are restored under a chart, ticks still complete bars for it. -/
theorem official_rows_do_not_displace :
    (run (fun _ => none) (newMemoryOnly ⟨24, 300, 32, 48⟩ 8 8 ⟨4, 100000⟩)
      unreplayedRun).1.persistedRows ⟨60, "a"⟩ = [officialRow 7 0 5] ∧
    (run (fun _ => none) (newMemoryOnly ⟨24, 300, 32, 48⟩ 8 8 ⟨4, 100000⟩) unreplayedRun).2 = [] ∧
    (run (fun _ => none) (newMemoryOnly ⟨24, 300, 32, 48⟩ 8 8 ⟨4, 100000⟩)
      [.command 1 (.setChart ⟨"chart", ["a"], 60, 8⟩), .tick "a" ⟨1, 10, .finite 5, 0, 0⟩,
        .tick "a" ⟨2, 70, .finite 6, 0, 0⟩,
        .officialKline "a" 60 (officialRow 8 60 6)]).1.completedRows ⟨60, "a"⟩ =
      [⟨0, 0, .finite 5, .finite 5, .finite 5, .finite 5, 0, 0, 0⟩, officialRow 8 60 6] ∧
    (run (fun _ => none) (newMemoryOnly ⟨24, 300, 32, 48⟩ 8 8 ⟨4, 100000⟩)
      [.command 1 (.setChart ⟨"chart", ["a"], 60, 8⟩), .tick "a" ⟨1, 10, .finite 5, 0, 0⟩,
        .restoreOfficialKlines "a" 60 [officialRow 7 0 5],
        .tick "a" ⟨2, 70, .finite 6, 0, 0⟩]).1.completedRows ⟨60, "a"⟩ =
      [⟨0, 0, .finite 5, .finite 5, .finite 5, .finite 5, 0, 0, 0⟩] :=
  ⟨by decide +kernel, by decide +kernel, by decide +kernel, by decide +kernel⟩

end RelayEngine

end Tqsdk
