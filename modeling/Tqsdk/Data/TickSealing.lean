import Tqsdk.Data.DayPartitions
import Tqsdk.Data.MinuteCoverage
import Tqsdk.Data.TickReads
import Tqsdk.Data.TickSettled

/-!
# Compacting and sealing ticks

Where stored ticks pass through `canonicalizeTickRows` once more: the forced compaction of a
partition (`update` of `tqbn/container.rs`) and `migrate_tick_series_to_current`, which collects the
daily partitions of a closed month in a month pack and, where it was interrupted, compares the
partitions that are left with the pack.
-/

namespace Tqsdk

open List Neighbours

/-! ## Canonical rows of days -/

def Tick.tradingDay (row : Tick) : Int := tradingDayForTimestampNs row.datetime

/-- `canonical_day`. -/
def canonicalDay (rows : List Tick) : List Tick :=
  if rows.IsChain fun left right => left.datetime < right.datetime ∧ left.id < right.id then rows
  else canonicalizeTickRows rows

/-- `canonical`. -/
def canonical (rows : List Tick) : List Tick :=
  (OrdMap.grouped Tick.tradingDay rows).flatMap fun group => canonicalDay group.2

/-- The rows of a partition behind `update`, where `due` are the other reasons for a compaction. -/
def updatedRows (stored incoming : List Tick) (due forceCompact : Bool) : List Tick :=
  if forceCompact || due then canonical (stored ++ incoming) else stored ++ canonical incoming

/-- The loop of `rangeset_difference` for one range. -/
def differenceFrom (cursor stop : Int) : List (Int × Int) → List (Int × Int)
  | [] => if cursor < stop then [(cursor, stop)] else []
  | covered :: rest =>
    if covered.2 ≤ cursor then differenceFrom cursor stop rest
    else if stop ≤ covered.1 then if cursor < stop then [(cursor, stop)] else []
    else
      (if cursor < covered.1 then [(cursor, min covered.1 stop)] else []) ++
        if stop ≤ max cursor covered.2 then []
        else differenceFrom (max cursor covered.2) stop rest

def rangesetDifference (base covered : List (Int × Int)) : List (Int × Int) :=
  base.flatMap fun range => if range.2 ≤ range.1 then [] else differenceFrom range.1 range.2 covered

/-! ## Months -/

/-- What a partition holds.  A provisional interval has a start, a complete end and its time. -/
structure TqbnSeriesState where
  rows : List Tick
  coverage : List (Int × Int)
  provisional : List (Int × Int × Int)
  deriving DecidableEq

def validateClosedTickMonthState (state : TqbnSeriesState) : Except DataError Unit :=
  if !state.provisional.isEmpty then
    .error (.invalidState "closed Tick month still has provisional coverage")
  else .ok ()

def validateTickDailySourceContainedInPack (source pack : TqbnSeriesState) :
    Except DataError Unit :=
  let packKeys := pack.rows.map fun row => (row.id, row.datetime)
  let rowsContained := source.rows.all fun row => decide ((row.id, row.datetime) ∈ packKeys)
  let coverageContained := (rangesetDifference source.coverage pack.coverage).isEmpty
  if !rowsContained || !coverageContained then
    .error (.invalidState "closed Tick daily source is not contained in published month pack")
  else .ok ()

/-- The state that the daily partitions of a month make. -/
def collected (sources : List TqbnSeriesState) : TqbnSeriesState where
  rows := sources.flatMap TqbnSeriesState.rows
  coverage := sources.flatMap TqbnSeriesState.coverage
  provisional := (sources.flatMap TqbnSeriesState.provisional).foldl (fun kept checkpoint =>
    if checkpoint ∈ kept then kept else kept ++ [checkpoint]) []

/-- What `container::rewrite` writes of a state. -/
def rewritten (state : TqbnSeriesState) : TqbnSeriesState :=
  { state with rows := canonical state.rows }

/-- What a migration that finds the pack checks of a daily partition. -/
def checkSource (pack source : TqbnSeriesState) : Except DataError Unit := do
  validateClosedTickMonthState source
  validateTickDailySourceContainedInPack source pack

/-- `migrate_tick_series_to_current` for one closed month: the pack before it removes the daily
partitions. -/
def sealTickMonth (pack : Option TqbnSeriesState) (sources : List TqbnSeriesState) :
    Except DataError TqbnSeriesState :=
  match pack with
  | some state => do
      validateClosedTickMonthState state
      sources.forM (checkSource state)
      return state
  | none => do
      let state := collected sources
      validateClosedTickMonthState state
      return rewritten { state with coverage := mergeRanges state.coverage }

/-! ## Days -/

theorem isChain_iff_pairwise {rows : List Tick} :
    (rows.IsChain fun left right => left.datetime < right.datetime ∧ left.id < right.id) ↔
      rows.Pairwise fun left right => left.datetime < right.datetime ∧ left.id < right.id := by
  have trans : IsTrans Tick fun left right => left.datetime < right.datetime ∧ left.id < right.id :=
    ⟨fun _ _ _ hd snd => ⟨hd.1.trans snd.1, hd.2.trans snd.2⟩⟩
  exact List.isChain_iff_pairwise

theorem canonicalDay_sorted (rows : List Tick) :
    (canonicalDay rows).Pairwise fun left right => left.orderKey < right.orderKey := by
  unfold canonicalDay
  split
  · rename_i incr
    exact (isChain_iff_pairwise.mp incr).imp fun less => Prod.Lex.toLex_lt_toLex.mpr (.inl less.1)
  · exact canonicalizeTickRows_sorted rows

theorem subset_canonicalDay (rows : List Tick) : canonicalDay rows ⊆ rows := by
  unfold canonicalDay
  split
  · exact List.Subset.refl _
  · exact subset_canonicalizeTickRows rows

/-- Rows whose times and ids increase share no id and no time. -/
theorem settled_of_increasing {rows : List Tick}
    (incr : rows.Pairwise fun left right => left.datetime < right.datetime ∧ left.id < right.id) :
    Settled rows := by
  have differ {left right : Tick} (leftMem : left ∈ rows) (rightMem : right ∈ rows)
      (alt : left ≠ right) : left.datetime ≠ right.datetime ∧ left.id ≠ right.id := by
    have symmetric : Std.Symm fun left right : Tick =>
        left.datetime ≠ right.datetime ∧ left.id ≠ right.id :=
      ⟨fun _ _ differ => ⟨differ.1.symm, differ.2.symm⟩⟩
    have sep : rows.Pairwise fun left right : Tick =>
        left.datetime ≠ right.datetime ∧ left.id ≠ right.id :=
      incr.imp fun less => ⟨less.1.ne, less.2.ne⟩
    exact sep.forall leftMem rightMem alt
  intro left right next replays
  have alt : left ≠ right := by
    rintro rfl
    exact lt_irrefl _ next.less
  obtain ⟨otherTime, otherId⟩ := differ next.left_mem next.right_mem alt
  rcases replays with same | ⟨sameId, -⟩ | ⟨-, -, again, againMem, different, sameId, -⟩
  · exact otherTime same
  · exact otherId sameId
  · exact (differ againMem next.left_mem different).2 sameId

theorem canonicalDay_eq_self_iff {rows : List Tick}
    (srt : rows.Pairwise fun left right => left.orderKey < right.orderKey) :
    canonicalDay rows = rows ↔ Settled rows := by
  unfold canonicalDay
  split
  · rename_i incr
    exact iff_of_true rfl (settled_of_increasing (isChain_iff_pairwise.mp incr))
  · exact canonicalizeTickRows_eq_self_iff srt

/-- The rows of a trading day. -/
def dayRows (rows : List Tick) (day : Int) : List Tick :=
  rows.filter fun row => decide (row.tradingDay = day)

theorem mem_dayRows {rows : List Tick} {day : Int} {row : Tick} :
    row ∈ dayRows rows day ↔ row ∈ rows ∧ row.tradingDay = day := by
  unfold dayRows
  rw [mem_filter, decide_eq_true_eq]

theorem mem_canonical {rows : List Tick} {row : Tick} :
    row ∈ canonical rows ↔ row ∈ canonicalDay (dayRows rows row.tradingDay) := by
  unfold canonical
  rw [mem_flatMap]
  constructor
  · rintro ⟨⟨day, grp⟩, mem, inDay⟩
    obtain ⟨rfl, -⟩ := OrdMap.mem_grouped.mp mem
    have isDay := (mem_dayRows.mp (subset_canonicalDay _ inDay)).2
    rw [isDay]
    exact inDay
  · intro inDay
    refine ⟨(row.tradingDay, dayRows rows row.tradingDay), OrdMap.mem_grouped.mpr ⟨rfl, ?_⟩, inDay⟩
    exact ne_nil_of_mem (subset_canonicalDay _ inDay)

theorem subset_canonical (rows : List Tick) : canonical rows ⊆ rows := fun _ mem =>
  (mem_dayRows.mp (subset_canonicalDay _ (mem_canonical.mp mem))).1

theorem earlier_of_tradingDay_lt {left right : Tick} (before : left.tradingDay < right.tradingDay) :
    left.orderKey < right.orderKey := by
  have pre : left.datetime < right.datetime := by
    by_contra behind
    have ord := tradingDayForTimestampNs_mono (not_lt.mp behind)
    unfold Tick.tradingDay at before
    omega
  exact Prod.Lex.toLex_lt_toLex.mpr (.inl pre)

theorem canonical_sorted (rows : List Tick) :
    (canonical rows).Pairwise fun left right => left.orderKey < right.orderKey := by
  unfold canonical
  rw [pairwise_flatMap]
  refine ⟨fun grp _ => canonicalDay_sorted grp.2, ?_⟩
  refine (OrdMap.sorted_grouped Tick.tradingDay rows).imp_of_mem ?_
  rintro ⟨leftDay, leftRows⟩ ⟨rightDay, rightRows⟩ lMem rMem pre left inLeft right inRight
  obtain ⟨rfl, -⟩ := OrdMap.mem_grouped.mp lMem
  obtain ⟨rfl, -⟩ := OrdMap.mem_grouped.mp rMem
  have isLeft := (mem_dayRows.mp (subset_canonicalDay _ inLeft)).2
  have isRight := (mem_dayRows.mp (subset_canonicalDay _ inRight)).2
  exact earlier_of_tradingDay_lt (isLeft ▸ isRight ▸ pre)

/-- Rows in order stay as they are if and only if the rows of every day are settled. -/
theorem canonical_eq_self_iff {rows : List Tick}
    (srt : rows.Pairwise fun left right => left.orderKey < right.orderKey) :
    canonical rows = rows ↔ ∀ day, Settled (dayRows rows day) := by
  have daySorted (day : Int) := srt.filter fun row : Tick => decide (row.tradingDay = day)
  have dayIff (day : Int) := canonicalDay_eq_self_iff (daySorted day)
  constructor
  · intro kept day
    refine (dayIff day).mp (eq_of_sorted (canonicalDay_sorted _) (daySorted day) fun row =>
      ⟨fun mem => subset_canonicalDay _ mem, fun mem => ?_⟩)
    obtain ⟨inRows, isDay⟩ := mem_dayRows.mp mem
    rw [← kept, mem_canonical, isDay] at inRows
    exact inRows
  · intro done
    refine eq_of_sorted (canonical_sorted rows) srt fun row =>
      ⟨fun mem => subset_canonical rows mem, fun mem => mem_canonical.mpr ?_⟩
    have same := (dayIff row.tradingDay).mpr (done row.tradingDay)
    have inDay : row ∈ dayRows rows row.tradingDay := mem_dayRows.mpr ⟨mem, rfl⟩
    unfold dayRows at inDay ⊢
    rw [same]
    exact inDay

/-! ## Coverage -/

theorem differenceFrom_eq_nil {cur stop : Int} {cov : List (Int × Int)}
    (nrm : Ranges.Normal cov) {outer : Int × Int} (mem : outer ∈ cov)
    (lo : outer.1 ≤ cur) (stops : stop ≤ outer.2) (ne : cur < stop) :
    differenceFrom cur stop cov = [] := by
  induction cov with
  | nil => cases mem
  | cons rng rest ih =>
    unfold differenceFrom
    rcases mem_cons.mp mem with rfl | later
    · rw [if_neg (by omega), if_neg (by omega), if_neg (by omega), if_pos (by omega)]
      rfl
    · have pre := rel_of_pairwise_cons nrm.2 later
      rw [if_pos (by omega)]
      exact ih nrm.tail later

theorem rangesetDifference_mergeRanges {base rngs : List (Int × Int)} (subset : base ⊆ rngs) :
    rangesetDifference base (mergeRanges rngs) = [] := by
  unfold rangesetDifference
  refine flatMap_eq_nil_iff.mpr fun rng mem => ?_
  split
  · rfl
  · rename_i ne
    obtain ⟨outer, outerMem, lo, stop⟩ := (normal_mergeRanges rngs).exists_enclosing
      (not_le.mp ne) fun p lo stop => covers_mergeRanges.mpr ⟨rng, subset mem, lo, stop⟩
    exact differenceFrom_eq_nil (normal_mergeRanges rngs) outerMem lo stop (not_le.mp ne)

/-! ## Sealing a month -/

/-- The rows of a partition, in order. -/
structure StoredTicks where
  rows : List Tick
  sorted : rows.Pairwise fun left right => left.orderKey < right.orderKey

/-- The daily partitions of a closed month, in the order of their days. -/
structure ClosedMonth where
  sources : List (Int × TqbnSeriesState)
  ascending : sources.Pairwise fun left right => left.1 < right.1
  ofDay : ∀ source ∈ sources, ∀ row ∈ source.2.rows, row.tradingDay = source.1
  sorted : ∀ source ∈ sources,
    source.2.rows.Pairwise fun left right => left.orderKey < right.orderKey
  final : ∀ source ∈ sources, source.2.provisional = []

namespace ClosedMonth

variable (month : ClosedMonth)

def states : List TqbnSeriesState := month.sources.map Prod.snd

/-- The rows that a read over the daily partitions returns. -/
def rows : List Tick := month.states.flatMap TqbnSeriesState.rows

/-- The pack that the first migration publishes. -/
def pack : TqbnSeriesState :=
  rewritten { collected month.states with
    coverage := mergeRanges (collected month.states).coverage }

theorem mem_rows {row : Tick} :
    row ∈ month.rows ↔ ∃ src ∈ month.sources, row ∈ src.2.rows := by
  unfold rows states
  rw [flatMap_map, mem_flatMap]

theorem rows_sorted :
    month.rows.Pairwise fun left right => left.orderKey < right.orderKey := by
  unfold rows states
  rw [flatMap_map, pairwise_flatMap]
  refine ⟨month.sorted, month.ascending.imp_of_mem ?_⟩
  intro src other sourceMem altM pre left inS right inOther
  have isSource := month.ofDay src sourceMem left inS
  have alt := month.ofDay other altM right inOther
  exact earlier_of_tradingDay_lt (by omega)

theorem dayRows_eq {src : Int × TqbnSeriesState} (mem : src ∈ month.sources) :
    dayRows month.rows src.1 = src.2.rows := by
  refine eq_of_sorted (month.rows_sorted.filter _) (month.sorted src mem) fun row => ?_
  rw [mem_dayRows, mem_rows]
  constructor
  · rintro ⟨⟨alt, altM, inOther⟩, isDay⟩
    have sameDay := (month.ofDay alt altM row inOther).symm.trans isDay
    have symmetric : Std.Symm fun left right : Int × TqbnSeriesState => left.1 ≠ right.1 :=
      ⟨fun _ _ ne => Ne.symm ne⟩
    have sep : month.sources.Pairwise fun left right => left.1 ≠ right.1 :=
      month.ascending.imp fun less => ne_of_lt less
    by_cases same : alt = src
    · rwa [same] at inOther
    · exact absurd sameDay (sep.forall altM mem same)
  · intro inS
    exact ⟨⟨src, mem, inS⟩, month.ofDay src mem row inS⟩

theorem collected_provisional : (collected month.states).provisional = [] := by
  have nothing : month.states.flatMap TqbnSeriesState.provisional = [] := by
    unfold states
    rw [flatMap_map]
    exact flatMap_eq_nil_iff.mpr month.final
  unfold collected
  rw [nothing]
  rfl

theorem sealTickMonth_none : sealTickMonth none month.states = .ok month.pack := by
  have fine : validateClosedTickMonthState (collected month.states) = .ok () := by
    unfold validateClosedTickMonthState
    rw [month.collected_provisional]
    rfl
  unfold sealTickMonth
  dsimp only
  rw [fine]
  rfl

/-- A daily partition is found in the pack if and only if its rows are settled. -/
theorem contained_iff {src : Int × TqbnSeriesState} (mem : src ∈ month.sources) :
    validateTickDailySourceContainedInPack src.2 month.pack = .ok () ↔ Settled src.2.rows := by
  have cov : rangesetDifference src.2.coverage month.pack.coverage = [] := by
    refine rangesetDifference_mergeRanges fun rng inS => ?_
    exact mem_flatMap.mpr ⟨src.2, mem_map.mpr ⟨src, mem, rfl⟩, inS⟩
  have packRows : month.pack.rows = canonical month.rows := rfl
  have kept {row : Tick} (inS : row ∈ src.2.rows) :
      (row.id, row.datetime) ∈ month.pack.rows.map (fun row => (row.id, row.datetime)) ↔
        row ∈ canonicalDay src.2.rows := by
    have inRows : row ∈ month.rows := month.mem_rows.mpr ⟨src, mem, inS⟩
    have inPack : row ∈ canonical month.rows ↔ row ∈ canonicalDay src.2.rows := by
      rw [mem_canonical, month.ofDay src mem row inS, month.dayRows_eq mem]
    rw [packRows, mem_map, ← inPack]
    constructor
    · rintro ⟨alt, altM, same⟩
      obtain ⟨sameId, sameTime⟩ := Prod.mk.inj same
      have isRow := eq_of_key_eq month.rows_sorted (subset_canonical _ altM) inRows
        (by unfold Tick.orderKey; rw [sameId, sameTime])
      rwa [isRow] at altM
    · exact fun inCanonical => ⟨row, inCanonical, rfl⟩
  have every : (src.2.rows.all fun row => decide ((row.id, row.datetime) ∈
      month.pack.rows.map fun row => (row.id, row.datetime))) = true ↔
        canonicalDay src.2.rows = src.2.rows := by
    simp only [all_eq_true, decide_eq_true_eq]
    constructor
    · intro contained
      exact eq_of_sorted (canonicalDay_sorted _) (month.sorted src mem) fun row =>
        ⟨fun inDay => subset_canonicalDay _ inDay, fun inS => (kept inS).mp (contained row inS)⟩
    · intro unchanged row inS
      exact (kept inS).mpr (by rwa [unchanged])
  rw [← canonicalDay_eq_self_iff (month.sorted src mem), ← every]
  unfold validateTickDailySourceContainedInPack
  dsimp only
  rw [cov]
  cases src.2.rows.all fun row => decide ((row.id, row.datetime) ∈
      month.pack.rows.map fun row => (row.id, row.datetime)) with
  | false => exact iff_of_false (fun fine => by cases fine) Bool.false_ne_true
  | true => exact iff_of_true rfl rfl

/-- A migration that finds the pack returns if and only if the partitions that are left are
settled. -/
theorem sealTickMonth_pack {rem : List (Int × TqbnSeriesState)} (subset : rem ⊆ month.sources) :
    sealTickMonth (some month.pack) (rem.map Prod.snd) = .ok month.pack ↔
      ∀ src ∈ rem, Settled src.2.rows := by
  have checks : sealTickMonth (some month.pack) (rem.map Prod.snd) = .ok month.pack ↔
      (rem.map Prod.snd).forM (checkSource month.pack) = .ok () := by
    have fine : validateClosedTickMonthState month.pack = .ok () := by
      unfold validateClosedTickMonthState
      rw [show month.pack.provisional = [] from month.collected_provisional]
      rfl
    unfold sealTickMonth
    dsimp only
    rw [fine, Result.ok_bind]
    cases (rem.map Prod.snd).forM (checkSource month.pack) with
    | error error => exact iff_of_false (fun ok => by cases ok) fun ok => by cases ok
    | ok _ => exact iff_of_true rfl rfl
  rw [checks, Result.forM_eq_ok]
  simp only [forall_mem_map]
  refine forall₂_congr fun src inRemaining => ?_
  have fin : validateClosedTickMonthState src.2 = .ok () := by
    unfold validateClosedTickMonthState
    rw [month.final src (subset inRemaining)]
    rfl
  unfold checkSource
  rw [fin, Result.ok_bind]
  exact month.contained_iff (subset inRemaining)

end ClosedMonth

open HistoryContainer.TickReader in
/-- Rows that every read returns alike are the same rows. -/
theorem reads_eq_iff {rows alts : List Tick} :
    (∀ rng, rows.filter (inside rng) = alts.filter (inside rng)) ↔ rows = alts := by
  refine ⟨fun same => ?_, fun same rng => by rw [same]⟩
  obtain ⟨rng, win⟩ := Ranges.exists_enclosing ((rows ++ alts).map Tick.datetime)
  have all {part : List Tick} (subset : part ⊆ rows ++ alts) : part.filter (inside rng) = part :=
    filter_eq_self.mpr fun row mem =>
      decide_eq_true (win row.datetime (mem_map_of_mem (subset mem)))
  rw [← all (subset_append_left rows alts), same rng, all (subset_append_right rows alts)]

theorem ClosedMonth.settled_iff (month : ClosedMonth) :
    (∀ day, Settled (dayRows month.rows day)) ↔ ∀ src ∈ month.sources, Settled src.2.rows := by
  constructor
  · intro done src mem
    rw [← month.dayRows_eq mem]
    exact done src.1
  · intro done day left right next
    obtain ⟨inRows, isDay⟩ := mem_dayRows.mp next.left_mem
    obtain ⟨src, mem, inS⟩ := month.mem_rows.mp inRows
    have sameDay : src.1 = day := (month.ofDay src mem left inS).symm.trans isDay
    rw [← sameDay, month.dayRows_eq mem] at next ⊢
    exact done src mem left right next

open HistoryContainer.TickReader in
/-- A pass returns of every time and id at most the row written last, in order.  It is idempotent
where no row is dropped between two that are kept and that a pass takes for replays of one another
as soon as they are neighbours.  Where every day is settled, and only there, a compaction and a month
pack keep what reads return and an interrupted migration can be finished. -/
theorem canonicalization_settles (rows : List Tick) (stored : StoredTicks) (due : Bool)
    (month : ClosedMonth) :
    ((canonicalizeTickRows rows).Subperm rows ∧
      (canonicalizeTickRows rows).Pairwise (fun left right => left.orderKey < right.orderKey) ∧
      (∀ row ∈ canonicalizeTickRows rows, ∃ order, rows[order]? = some row ∧
        ∀ (later : Nat) (other : Tick), rows[later]? = some other → other.orderKey = row.orderKey →
          later ≤ order) ∧
      (canonicalizeTickRows (canonicalizeTickRows rows) = canonicalizeTickRows rows ↔
        ∀ left middle right, ¬ Hides rows left middle right)) ∧
    ((∀ range, (updatedRows stored.rows [] due true).filter (inside range) =
        stored.rows.filter (inside range)) ↔
      ∀ day, Settled (dayRows stored.rows day)) ∧
    sealTickMonth none month.states = .ok month.pack ∧
    ((∀ range, month.pack.rows.filter (inside range) = month.rows.filter (inside range)) ↔
      ∀ source ∈ month.sources, Settled source.2.rows) ∧
    ∀ left : Int → Bool,
      sealTickMonth (some month.pack)
          ((month.sources.filter fun source => left source.1).map Prod.snd) = .ok month.pack ↔
        ∀ source ∈ month.sources.filter fun source => left source.1, Settled source.2.rows := by
  refine ⟨⟨subperm_canonicalizeTickRows rows, canonicalizeTickRows_sorted rows,
    fun row => last_of_mem_canonicalizeTickRows, idempotent_iff rows⟩, ?_,
    month.sealTickMonth_none, ?_, fun left => ?_⟩
  · unfold updatedRows
    rw [Bool.true_or, if_pos rfl, append_nil, reads_eq_iff]
    exact canonical_eq_self_iff stored.sorted
  · rw [reads_eq_iff, ← month.settled_iff]
    exact canonical_eq_self_iff month.rows_sorted
  · exact month.sealTickMonth_pack (filter_subset_self _)

/-- Three rows of one id and one payload, written in the order 10 ms, 0 ms, 20 ms: the last one is
compared with the first one only when the one in the middle is gone. -/
theorem canonicalization_not_idempotent :
    let row (millis : Int) : Tick :=
      ⟨1, 1704178800000000000 + millis * 1000000, replicate 27 0, none⟩
    let once := canonicalizeTickRows [row 10, row 0, row 20]
    let src : TqbnSeriesState := ⟨once, [(1704178800000000000, 1704178801000000000)], []⟩
    once = [row 0, row 20] ∧ canonicalizeTickRows once = [row 20] ∧
      updatedRows once [] false true = [row 20] ∧
      ((sealTickMonth none [src]).bind fun pack => sealTickMonth (some pack) [src]) =
        .error (.invalidState
          "closed Tick daily source is not contained in published month pack") := by
  decide +kernel

end Tqsdk
