import Tqsdk.Lib.Calendar
import Tqsdk.Data.TickStore

/-!
# The partitions of tick history

The days and months of `history_series_cache/tqbn/mod.rs` as the writer, the reader and the check
of a file use them: the writer goes by the trading day of a row, the reader by the partitions of
its range, and a file is checked against the range of the day or month in its path.
-/

namespace Tqsdk

open Result

/-! ## Months -/

/-- The first day of a month, `NaiveDate::from_ymd_opt(year, number, 1)`. -/
def firstOfMonth (year number : Int) : Int := Calendar.monthStart (12 * year + number - 3)

/-- A label of six digits that names a month. -/
def isPartitionMonth (month : Int) : Bool :=
  decide (0 ≤ month ∧ month < 1000000 ∧ 1 ≤ month % 100 ∧ month % 100 ≤ 12)

def tradingMonthRange (month : Int) : Except DataError (Int × Int) := do
  if !isPartitionMonth month then .error (.invalidState "invalid Tick partition month")
  else
    let year := month / 100
    let number := month % 100
    let next := if number = 12 then firstOfMonth (year + 1) 1 else firstOfMonth year (number + 1)
    let first ← tradingDayRange (firstOfMonth year number)
    let next ← tradingDayRange next
    return (first.startNs, next.startNs)

/-! ## Paths -/

/-- The directory of a file: one of a day, or one of a month pack. -/
inductive TickPhysicalPartition
  | day (day : Int)
  | month (month : Int)
  deriving DecidableEq

/-- A month pack replaces the files of its days. -/
def partitionSeriesPath (packs : Int → Bool) (day : Int) : TickPhysicalPartition :=
  if packs (tradingMonth day) then .month (tradingMonth day) else .day day

/-- The paths of a range, each once. -/
def partitionPathsForRange (packs : Int → Bool) (startNs endNs : Int) :
    Except DataError (List TickPhysicalPartition) := do
  let partitions ← partitionRanges startNs endNs
  return (partitions.map fun partition => partitionSeriesPath packs partition.day).eraseDups

/-- The partition scheme and the range that a file at a path is checked against. -/
def physicalPartition : TickPhysicalPartition → Except DataError (Nat × (Int × Int))
  | .day day => do
      let range ← tradingDayRange day
      if range.tradingDay ≠ day then
        .error (.invalidState "Tick partition is not trading day")
      else return (1, (range.startNs, range.endNs))
  | .month month => do
      let range ← tradingMonthRange month
      return (2, range)

/-! ## Days and timestamps -/

/-- The timestamp at which trading starts for a day, or, of a weekend, for the Monday after it. -/
def dayStartNs (day : Int) : Int := dayEndNs (previousTradingDay (normalizeWeekendTradingDay day))

theorem dayStartNs_le_iff {day ts : Int} :
    dayStartNs day ≤ ts ↔ day ≤ tradingDayForTimestampNs ts := by
  unfold dayStartNs dayEndNs tradingDayForTimestampNs previousTradingDay normalizeWeekendTradingDay
  unfold isWeekend weekday cstOffsetNs nanosPerHour nanosPerDay nanosPerSecond
  simp only [decide_eq_true_eq]
  split_ifs <;> omega

/-- A day that is traded ends where the next one starts. -/
theorem dayStartNs_next {day : Int} (notWeekend : isWeekend day = false) :
    dayStartNs (day + 1) = dayEndNs day := by
  have prev : previousTradingDay (normalizeWeekendTradingDay (day + 1)) = day := by
    revert notWeekend
    unfold previousTradingDay normalizeWeekendTradingDay isWeekend weekday
    simp only [decide_eq_true_eq, decide_eq_false_iff_not]
    intro notWeekend
    split_ifs <;> omega
  unfold dayStartNs
  rw [prev]

/-- The trading day of a timestamp is the one whose range encloses it. -/
theorem tradingDayForTimestampNs_eq_iff {day ts : Int} (wday : isWeekend day = false) :
    tradingDayForTimestampNs ts = day ↔ dayStartNs day ≤ ts ∧ ts < dayEndNs day := by
  have next := @dayStartNs_le_iff (day + 1) ts
  rw [dayStartNs_next wday] at next
  rw [dayStartNs_le_iff, ← not_le, next]
  omega

theorem lt_dayEndNs (ts : Int) : ts < dayEndNs (tradingDayForTimestampNs ts) :=
  ((tradingDayForTimestampNs_eq_iff (not_isWeekend_tradingDayForTimestampNs ts)).mp rfl).2

theorem tradingDayRange_mem {day ts : Int} {rng : TradingDayRange}
    (wday : isWeekend day = false) (ok : tradingDayRange day = .ok rng) :
    tradingDayForTimestampNs ts = day ↔ rng.startNs ≤ ts ∧ ts < rng.endNs := by
  obtain ⟨-, -, rfl⟩ := (tradingDayRange_iff wday).mp ok
  rw [tradingDayForTimestampNs_eq_iff wday]
  unfold dayStartNs
  rw [normalizeWeekendTradingDay_eq wday]

theorem startNs_of_tradingDayRange {day : Int} {rng : TradingDayRange}
    (ok : tradingDayRange day = .ok rng) : rng.startNs = dayStartNs day := by
  obtain ⟨-, -, rfl⟩ := tradingDayRange_normalized.mp ok
  rfl

/-! ## Months and timestamps -/

theorem tradingMonth_eq (day : Int) :
    tradingMonth day = (Calendar.monthIndex day + 2) / 12 * 100 +
      (Calendar.monthIndex day + 2) % 12 + 1 := by
  have yearBound : 0 ≤ Calendar.dayOfYear ((day + 719468) % 146097) ∧
      Calendar.dayOfYear ((day + 719468) % 146097) ≤ 365 := by
    obtain ⟨cent, quad, year, dayOf, ps⟩ :=
      @Calendar.exists_parts ((day + 719468) % 146097) (by omega) (by omega)
    rw [ps.dayOfYear_eq]
    exact ps.dayBounds
  have unfolded : tradingMonth day =
      let shiftedMonth := (5 * Calendar.dayOfYear ((day + 719468) % 146097) + 2) / 153
      let mo := if shiftedMonth < 10 then shiftedMonth + 3 else shiftedMonth - 9
      let year := Calendar.yearOfEra ((day + 719468) % 146097) +
        (day + 719468) / 146097 * 400 + (if mo ≤ 2 then 1 else 0)
      year * 100 + mo := rfl
  rw [unfolded]
  unfold Calendar.monthIndex
  dsimp only
  generalize Calendar.dayOfYear ((day + 719468) % 146097) = dayOfYear at yearBound ⊢
  generalize Calendar.yearOfEra ((day + 719468) % 146097) = yearOfEra
  split_ifs <;> omega

/-- The trading month of a day is the one whose days enclose it. -/
theorem tradingMonth_eq_iff {day year num : Int} (fine : 1 ≤ num ∧ num ≤ 12) :
    tradingMonth day = year * 100 + num ↔
      firstOfMonth year num ≤ day ∧ day < firstOfMonth year (num + 1) := by
  have next : 12 * year + (num + 1) - 3 = 12 * year + num - 3 + 1 := by omega
  unfold firstOfMonth
  rw [next, ← Calendar.monthIndex_eq_iff, tradingMonth_eq]
  omega

theorem firstOfMonth_thirteen (year : Int) : firstOfMonth year 13 = firstOfMonth (year + 1) 1 := by
  unfold firstOfMonth
  congr 1
  omega

/-- The range of a month pack holds the timestamps whose trading day is of the month. -/
theorem tradingMonthRange_mem {mo ts : Int} {rng : Int × Int}
    (ok : tradingMonthRange mo = .ok rng) :
    (rng.1 ≤ ts ∧ ts < rng.2) ↔ tradingMonth (tradingDayForTimestampNs ts) = mo := by
  unfold tradingMonthRange at ok
  split at ok
  · cases ok
  rename_i fine
  obtain ⟨hd, fst, ok⟩ := of_bind ok
  obtain ⟨next, isNext, ok⟩ := of_bind ok
  obtain rfl := Except.ok.inj ok
  have bnds : 1 ≤ mo % 100 ∧ mo % 100 ≤ 12 := by
    unfold isPartitionMonth at fine
    simp only [Bool.not_eq_true, Bool.not_eq_false', decide_eq_true_eq] at fine
    exact fine.2.2
  have label : mo / 100 * 100 + mo % 100 = mo := by omega
  have sameNext : (if mo % 100 = 12 then firstOfMonth (mo / 100 + 1) 1
      else firstOfMonth (mo / 100) (mo % 100 + 1)) =
      firstOfMonth (mo / 100) (mo % 100 + 1) := by
    split
    · rename_i december
      rw [december, ← firstOfMonth_thirteen]
      rfl
    · rfl
  rw [sameNext] at isNext
  dsimp only
  rw [startNs_of_tradingDayRange fst, startNs_of_tradingDayRange isNext, ← not_le,
    dayStartNs_le_iff, dayStartNs_le_iff, not_le, ← tradingMonth_eq_iff bnds, label]

/-! ## Tilings -/

/-- Partitions that are not empty and follow each other from a start to an end. -/
inductive Tiles : Int → Int → List TqbnPartitionRange → Prop
  | nil (endNs : Int) : Tiles endNs endNs []
  | cons {partition : TqbnPartitionRange} {endNs : Int} {rest : List TqbnPartitionRange} :
      partition.startNs < partition.endNs → Tiles partition.endNs endNs rest →
      Tiles partition.startNs endNs (partition :: rest)

theorem tradingDayForTimestampNs_mono {preNs laterNs : Int} (ord : preNs ≤ laterNs) :
    tradingDayForTimestampNs preNs ≤ tradingDayForTimestampNs laterNs :=
  dayStartNs_le_iff.mp ((dayStartNs_le_iff.mpr (le_refl _)).trans ord)

theorem Tiles.exists_partition {startNs hi ts : Int} {ps : List TqbnPartitionRange}
    (tiles : Tiles startNs hi ps) (lo : startNs ≤ ts) (stop : ts < hi) :
    ∃ part ∈ ps, part.startNs ≤ ts ∧ ts < part.endNs := by
  induction tiles with
  | nil hi => omega
  | @cons part hi rest ne tiles ih =>
    rcases lt_or_ge ts part.endNs with here | later
    · exact ⟨part, List.mem_cons_self, lo, here⟩
    · obtain ⟨hit, mem, inn⟩ := ih later stop
      exact ⟨hit, List.mem_cons_of_mem _ mem, inn⟩

/-- The timestamps of a partition have its trading day. -/
def OneDay (partition : TqbnPartitionRange) : Prop :=
  ∀ timestampNs, partition.startNs ≤ timestampNs → timestampNs < partition.endNs →
    tradingDayForTimestampNs timestampNs = partition.day

/-- With enough fuel the loop ends, and its partitions are a tiling by days. -/
theorem partitionLoop_tiles {hi cur : Int} {fuel : Nat} (low : I64.minimum ≤ cur) (ord : cur ≤ hi)
    (high : dayEndNs (tradingDayForTimestampNs (hi - 1)) ≤ I64.maximum)
    (fits : EnoughFuel hi cur fuel) :
    ∃ ps, partitionLoop hi fuel cur = .ok ps ∧ Tiles cur hi ps ∧ ∀ part ∈ ps, OneDay part := by
  induction fuel generalizing cur with
  | zero =>
    have done : cur = hi := by
      unfold EnoughFuel nanosPerDay nanosPerSecond at fits
      omega
    rw [done]
    exact ⟨[], rfl, .nil hi, by simp⟩
  | succ fuel ih =>
    unfold partitionLoop
    split
    · rename_i inn
      have post := lt_dayEndNs cur
      have wday := not_isWeekend_tradingDayForTimestampNs cur
      have sameDay : dayEndNs (tradingDayForTimestampNs cur) ≤
          dayEndNs (tradingDayForTimestampNs (hi - 1)) := by
        have mono := @tradingDayForTimestampNs_mono cur (hi - 1) (by omega)
        unfold dayEndNs nanosPerDay nanosPerSecond
        omega
      have bdry : tradingDayEndNs (tradingDayForTimestampNs cur) =
          .ok (dayEndNs (tradingDayForTimestampNs cur)) :=
        tradingDayBoundaryNs_eq_ok.mpr ⟨⟨by omega, by omega⟩, rfl⟩
      dsimp only
      rw [bdry, ok_bind, if_neg (by omega)]
      have more := enoughFuel_next post ⟨_, rfl⟩ fits
      obtain ⟨rest, isRest, tiles, days⟩ := ih (by omega) (min_le_right _ _) more
      rw [isRest]
      refine ⟨_, rfl, @Tiles.cons ⟨tradingDayForTimestampNs cur, cur, min (dayEndNs
        (tradingDayForTimestampNs cur)) hi⟩ hi rest (lt_min post inn) tiles, fun part mem => ?_⟩
      rcases List.mem_cons.mp mem with rfl | later
      · intro ts lo stop
        have own := (tradingDayForTimestampNs_eq_iff wday).mp rfl
        exact (tradingDayForTimestampNs_eq_iff wday).mpr
          ⟨own.1.trans lo, stop.trans_le (min_le_left _ _)⟩
      · exact days part later
    · have done : cur = hi := by omega
      rw [done]
      exact ⟨[], rfl, .nil hi, by simp⟩

/-- A range whose first timestamp and whose last trading day are `i64`s is cut into partitions. -/
theorem partitionRanges_tiles {lo hi : Int} (ord : lo < hi) (low : I64.minimum ≤ lo)
    (high : dayEndNs (tradingDayForTimestampNs (hi - 1)) ≤ I64.maximum) :
    ∃ ps, partitionRanges lo hi = .ok ps ∧ Tiles lo hi ps ∧ ∀ part ∈ ps, OneDay part := by
  unfold partitionRanges validateCoverageRange
  rw [if_neg (not_le.mpr ord), ok_bind]
  exact partitionLoop_tiles low ord.le high (enoughFuel_partitionFuel lo hi)

/-! ## Supported timestamps -/

/-- A timestamp 40 days or more from the ends of an `i64`: the bounds of its trading month are
timestamps too. -/
def Supported (timestampNs : Int) : Prop :=
  I64.minimum + 40 * nanosPerDay ≤ timestampNs ∧ timestampNs + 40 * nanosPerDay ≤ I64.maximum

instance (timestampNs : Int) : Decidable (Supported timestampNs) :=
  inferInstanceAs (Decidable (_ ∧ _))

/-- A trading day has at most three days. -/
theorem tradingDay_near (ts : Int) :
    ts < dayEndNs (tradingDayForTimestampNs ts) ∧
      dayEndNs (tradingDayForTimestampNs ts) ≤ ts + 3 * nanosPerDay := by
  have wday := not_isWeekend_tradingDayForTimestampNs ts
  obtain ⟨lo, stop⟩ := (tradingDayForTimestampNs_eq_iff wday).mp rfl
  unfold dayStartNs at lo
  rw [normalizeWeekendTradingDay_eq wday] at lo
  have pos : 0 < nanosPerDay := by decide
  rcases dayStart_cases wday with ⟨-, len⟩ | ⟨-, len⟩ <;> omega

theorem normalizeWeekendTradingDay_bounds (day : Int) :
    day ≤ normalizeWeekendTradingDay day ∧ normalizeWeekendTradingDay day ≤ day + 2 := by
  unfold normalizeWeekendTradingDay
  split_ifs <;> omega

theorem previousTradingDay_bounds (day : Int) :
    day - 3 ≤ previousTradingDay day ∧ previousTradingDay day < day := by
  unfold previousTradingDay
  split_ifs <;> omega

/-- A day near the trading day of a supported timestamp has a range. -/
theorem tradingDayRange_isOk {ts day : Int} (supported : Supported ts)
    (near : tradingDayForTimestampNs ts - 31 ≤ day ∧ day ≤ tradingDayForTimestampNs ts + 31) :
    ∃ rng, tradingDayRange day = .ok rng := by
  have around := tradingDay_near ts
  have norm := normalizeWeekendTradingDay_bounds day
  have prev := previousTradingDay_bounds (normalizeWeekendTradingDay day)
  have mem : ∀ alt, tradingDayForTimestampNs ts - 34 ≤ alt →
      alt ≤ tradingDayForTimestampNs ts + 33 → I64.InRange (dayEndNs alt) := by
    intro alt low high
    unfold Supported at supported
    unfold I64.InRange
    unfold dayEndNs nanosPerDay nanosPerSecond at *
    omega
  exact ⟨_, tradingDayRange_normalized.mpr
    ⟨mem _ (by omega) (by omega), mem _ (by omega) (by omega), rfl⟩⟩

/-- The trading month of a supported timestamp is a month of the four-digit years and has a
range. -/
theorem tradingMonthRange_isOk {ts : Int} (supported : Supported ts) :
    ∃ rng, tradingMonthRange (tradingMonth (tradingDayForTimestampNs ts)) = .ok rng := by
  have around := tradingDay_near ts
  generalize isDay : tradingDayForTimestampNs ts = day at around ⊢
  have days : -110000 ≤ day ∧ day ≤ 110000 := by
    unfold Supported I64.minimum I64.maximum at supported
    unfold dayEndNs nanosPerDay nanosPerHour nanosPerSecond at *
    omega
  obtain ⟨hd, next⟩ := Calendar.monthIndex_bounds day
  have len := Calendar.monthStart_succ (Calendar.monthIndex day)
  have label := tradingMonth_eq day
  generalize Calendar.monthIndex day = index at hd next len label
  have late : 0 ≤ index := by
    by_contra early
    have pre := Calendar.strictMono_monthStart.monotone (show index + 1 ≤ 0 by omega)
    have epoch : Calendar.monthStart 0 = -719468 := by decide
    omega
  have early : index ≤ 100000 := by
    by_contra late
    have post := Calendar.strictMono_monthStart.monotone (show (100000 : Int) ≤ index by omega)
    have distant : Calendar.monthStart 100000 = 2324219 := by decide
    omega
  have year : tradingMonth day / 100 = (index + 2) / 12 := by omega
  have num : tradingMonth day % 100 = (index + 2) % 12 + 1 := by omega
  have firstEq : firstOfMonth ((index + 2) / 12) ((index + 2) % 12 + 1) =
      Calendar.monthStart index := by
    unfold firstOfMonth
    congr 1
    omega
  have nextEq : (if (index + 2) % 12 + 1 = 12 then firstOfMonth ((index + 2) / 12 + 1) 1
      else firstOfMonth ((index + 2) / 12) ((index + 2) % 12 + 1 + 1)) =
      Calendar.monthStart (index + 1) := by
    unfold firstOfMonth
    split <;> congr 1 <;> omega
  obtain ⟨firstRange, fst⟩ := @tradingDayRange_isOk ts
    (Calendar.monthStart index) supported (by omega)
  obtain ⟨nextRange, isNext⟩ := @tradingDayRange_isOk ts
    (Calendar.monthStart (index + 1)) supported (by omega)
  have fine : isPartitionMonth (tradingMonth day) = true :=
    decide_eq_true ⟨by omega, by omega, by omega, by omega⟩
  unfold tradingMonthRange
  rw [fine, Bool.not_true, if_neg Bool.false_ne_true]
  dsimp only
  rw [year, num, firstEq, nextEq, fst, ok_bind, isNext]
  exact ⟨_, rfl⟩

/-! ## One partition for a row -/

/-- Wherever the file of a row is, it is among the paths of every range that the row is in, and is
checked against a range that the row is in. -/
theorem partitionSeriesPath_agrees (packs : Int → Bool) {ts startNs hi : Int} (lo : startNs ≤ ts)
    (stop : ts < hi) (hd : Supported startNs) (last : Supported (hi - 1)) :
    (∃ paths, partitionPathsForRange packs startNs hi = .ok paths ∧
        partitionSeriesPath packs (tradingDayForTimestampNs ts) ∈ paths) ∧
      ∃ scheme rng,
        physicalPartition (partitionSeriesPath packs (tradingDayForTimestampNs ts)) =
          .ok (scheme, rng) ∧ rng.1 ≤ ts ∧ ts < rng.2 := by
  have pos : 0 < nanosPerDay := by decide
  have supported : Supported ts := by
    unfold Supported at *
    omega
  constructor
  · have around := tradingDay_near (hi - 1)
    obtain ⟨ps, isPartitions, tiles, days⟩ := @partitionRanges_tiles startNs hi
      (by omega) (by unfold Supported at hd; omega) (by unfold Supported at last; omega)
    obtain ⟨part, mem, inn⟩ := tiles.exists_partition lo stop
    unfold partitionPathsForRange
    rw [isPartitions]
    refine ⟨_, rfl, List.mem_eraseDups.mpr (List.mem_map.mpr ⟨part, mem, ?_⟩)⟩
    rw [days part mem ts inn.1 inn.2]
  · unfold partitionSeriesPath
    split
    · obtain ⟨rng, isRange⟩ := tradingMonthRange_isOk supported
      have inn := (@tradingMonthRange_mem _ ts _ isRange).mpr rfl
      refine ⟨2, rng, ?_, inn⟩
      unfold physicalPartition
      dsimp only
      rw [isRange]
      rfl
    · obtain ⟨rng, isRange⟩ := @tradingDayRange_isOk ts
        (tradingDayForTimestampNs ts) supported (by omega)
      have wday := not_isWeekend_tradingDayForTimestampNs ts
      have inn := (@tradingDayRange_mem _ ts _ wday isRange).mp rfl
      have sameDay : rng.tradingDay = tradingDayForTimestampNs ts := by
        obtain ⟨-, -, rfl⟩ := (tradingDayRange_iff wday).mp isRange
        rfl
      refine ⟨1, (rng.startNs, rng.endNs), ?_, inn⟩
      unfold physicalPartition
      dsimp only
      rw [isRange, ok_bind, if_neg (not_not.mpr sameDay)]
      rfl

/-- Trading days tile time, months are made of whole days, and a row has one partition. -/
theorem trading_days_tile_time :
    (∀ startNs endNs, startNs < endNs → Supported startNs → Supported (endNs - 1) →
      ∃ partitions, partitionRanges startNs endNs = .ok partitions ∧
        Tiles startNs endNs partitions ∧ ∀ partition ∈ partitions, OneDay partition) ∧
    (∀ day range, isWeekend day = false → tradingDayRange day = .ok range → ∀ timestampNs,
      tradingDayForTimestampNs timestampNs = day ↔
        range.startNs ≤ timestampNs ∧ timestampNs < range.endNs) ∧
    (∀ month range, tradingMonthRange month = .ok range → ∀ timestampNs,
      (range.1 ≤ timestampNs ∧ timestampNs < range.2) ↔
        tradingMonth (tradingDayForTimestampNs timestampNs) = month) ∧
    ∀ packs timestampNs startNs endNs, startNs ≤ timestampNs → timestampNs < endNs →
      Supported startNs → Supported (endNs - 1) →
      (∃ paths, partitionPathsForRange packs startNs endNs = .ok paths ∧
          partitionSeriesPath packs (tradingDayForTimestampNs timestampNs) ∈ paths) ∧
        ∃ scheme range,
          physicalPartition (partitionSeriesPath packs (tradingDayForTimestampNs timestampNs)) =
            .ok (scheme, range) ∧ range.1 ≤ timestampNs ∧ timestampNs < range.2 := by
  refine ⟨fun startNs endNs ord hd last => ?_, fun day range wday ok timestampNs =>
    tradingDayRange_mem wday ok, fun month range ok timestampNs =>
    tradingMonthRange_mem ok, fun packs timestampNs startNs endNs lo stop hd last =>
    partitionSeriesPath_agrees packs lo stop hd last⟩
  have around := tradingDay_near (endNs - 1)
  have pos : 0 < nanosPerDay := by decide
  unfold Supported at hd last
  exact partitionRanges_tiles ord (by omega) (by omega)

end Tqsdk
