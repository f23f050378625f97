import Tqsdk.Data.KlineMerge
import Tqsdk.Lib.Ranges

/-!
# Reads of K-line partitions

Both ways to read a range of a K-line partition give the last rows of the range, by id.  A read of a
part of the range and a read behind a compaction give the same rows where every id was written with
one time.
-/

namespace Tqsdk

open List Except

open LastWrites

/-- `prepare_tqbn_partition`, and the rows that its reader gives. -/
def TqbnKlineFile.readKlines (blocks : List RecordsBlock) (range : Int × Int) :
    Except DataError (List Kline) :=
  match planStreamingBlocks blocks range with
  | some plans =>
    TqbnStreamingPartition.collect range
      ((plans.flatMap TqbnStreamingBlockPlan.records).length + 1) ⟨plans, []⟩
  | none => .ok (parseRowsForRange blocks range)

/-! ## Plans -/

variable {range : Int × Int}

theorem planBlocks_spec {ents : List (RecordsBlock × Nat)} {plans : List TqbnStreamingBlockPlan}
    (described : ∀ ent ∈ ents, ∀ idx, ent.1.index = some idx → idx.Describes ent.1.rows)
    (planned : planBlocks range ents = some plans) :
    (∀ plan ∈ plans, plan.Sound range) ∧
      (plans.flatMap fun plan => plan.records.filter (inRange range)) =
        (ents.flatMap fun ent => ent.1.rows.filter (inRange range)) ∧
      (plans.map TqbnStreamingBlockPlan.blockOrder).Sublist (ents.map Prod.snd) := by
  induction ents generalizing plans with
  | nil =>
    obtain rfl : [] = plans := Option.some.inj planned
    exact ⟨fun _ member => (by cases member), rfl, List.Sublist.refl _⟩
  | cons ent ents ih =>
    obtain ⟨blk, ord⟩ := ent
    have isDescribed := described (blk, ord) mem_cons_self
    have rest {plans : List TqbnStreamingBlockPlan}
        (planned : planBlocks range ents = some plans) :=
      ih (fun ent member => described ent (mem_cons_of_mem _ member)) planned
    have hit : (blk.scan range).Finds (blk.rows.filter (inRange range)) :=
      RecordsBlock.scan_finds isDescribed
    -- A block without rows in the range has no plan.
    have skipped (nothing : blk.rows.filter (inRange range) = [])
        (planned : planBlocks range ents = some plans) := by
      obtain ⟨sound, sameRows, ords⟩ := rest planned
      refine (⟨sound, ?_, ords.cons _⟩ : (∀ plan ∈ plans, plan.Sound range) ∧
        (plans.flatMap fun plan => plan.records.filter (inRange range)) =
          (((blk, ord) :: ents).flatMap fun ent => ent.1.rows.filter (inRange range)) ∧
        (plans.map TqbnStreamingBlockPlan.blockOrder).Sublist (((blk, ord) :: ents).map Prod.snd))
      rw [flatMap_cons, nothing, nil_append]
      exact sameRows
    unfold planBlocks at planned
    split at planned
    · rename_i out
      rw [Bool.not_eq_true'] at out
      exact skipped (filter_eq_nil_of_not_intersects isDescribed out) planned
    cases isScan : blk.scan range with
    | empty =>
      rw [isScan] at planned hit
      exact skipped hit planned
    | nonIncreasing =>
      rw [isScan] at planned
      cases planned
    | strictlyIncreasing firstId lastId =>
      rw [isScan] at planned hit
      obtain ⟨alts, isOthers, rfl⟩ := Option.map_eq_some_iff.mp planned
      obtain ⟨sound, sameRows, ords⟩ := rest isOthers
      refine ⟨fun plan member => ?_, ?_, ?_⟩
      · rcases mem_cons.mp member with rfl | member
        · exact ⟨hit.1, hit.2⟩
        · exact sound plan member
      · rw [flatMap_cons, flatMap_cons, sameRows]
      · exact ords.cons_cons ord

namespace TqbnKlineFile

variable (file : TqbnKlineFile)

/-- The merge of a plan gives the last rows of the range. -/
theorem collect_eq {plans : List TqbnStreamingBlockPlan}
    (planned : planStreamingBlocks file.blocks range = some plans) :
    TqbnStreamingPartition.collect range
        ((plans.flatMap TqbnStreamingBlockPlan.records).length + 1) ⟨plans, []⟩ =
      .ok (lastOf Kline.id (file.rows.filter (inRange range))) := by
  obtain ⟨unsorted, isUnsorted, rfl⟩ := Option.map_eq_some_iff.mp planned
  obtain ⟨sound, sameRows, ords⟩ := planBlocks_spec (fun ent mem =>
    file.indexed ent.1 (fst_mem_of_mem_zipIdx mem)) isUnsorted
  have isRows : (unsorted.flatMap fun plan => plan.records.filter (inRange range)) =
      file.rows.filter (inRange range) := by
    rw [sameRows, TqbnKlineFile.rows, filter_flatMap]
    conv_rhs => rw [← zipIdx_map_fst 0 file.blocks]
    rw [flatMap_map]
  have ascending : unsorted.Pairwise fun left right => left.blockOrder < right.blockOrder := by
    refine pairwise_map.mp (List.Pairwise.sublist ords ?_)
    rw [zipIdx_map_snd]
    exact pairwise_lt_range'
  have srt := @Neighbours.pairwise_insertionSort _ _ _
    (fun plan : TqbnStreamingBlockPlan => toLex (plan.firstId, plan.blockOrder)) _
    (ascending.imp fun less same => less.ne (Prod.mk.inj (toLex.injective same)).2)
  have mem {plan : TqbnStreamingBlockPlan} : plan ∈ unsorted.insertionSort (fun left right =>
      toLex (left.firstId, left.blockOrder) ≤ toLex (right.firstId, right.blockOrder)) ↔
        plan ∈ unsorted := mem_insertionSort _
  have hld (ord : Nat) (row : Kline) :
      TqbnStreamingPartition.Holds range ⟨unsorted.insertionSort (fun left right =>
        toLex (left.firstId, left.blockOrder) ≤ toLex (right.firstId, right.blockOrder)), []⟩
          ord row ↔ ∃ plan ∈ unsorted, plan.blockOrder = ord ∧
            row ∈ plan.records.filter (inRange range) := by
    unfold TqbnStreamingPartition.Holds
    simp only [not_mem_nil, false_and, exists_false, false_or, mem]
  refine TqbnStreamingPartition.collect_eq ⟨fun _ mem => (by cases mem),
    fun plan inPlans => sound plan (mem.mp inPlans), ?_, ?_⟩ (sorted_lastOf _) ?_ ?_
  · exact srt.imp fun less => (Prod.Lex.toLex_lt_toLex.mp less).elim le_of_lt fun same => same.1.le
  · intro ord row alt heldRow heldOther same
    obtain ⟨plan, inPlans, isOrder, inPlan⟩ := (hld ord row).mp heldRow
    obtain ⟨alt2, inPlans', isOrder', inPlan'⟩ := (hld ord alt).mp heldOther
    obtain rfl := Neighbours.eq_of_key_eq ascending inPlans inPlans' (isOrder.trans isOrder'.symm)
    exact Neighbours.eq_of_key_eq (sound plan inPlans).increasing inPlan inPlan' same
  · intro row
    have all : file.rows.filter (inRange range) = (unsorted.map fun plan =>
        (plan.blockOrder, plan.records.filter (inRange range))).flatMap Prod.snd := by
      rw [flatMap_map, ← isRows]
    rw [all, mem_lastOf_groups (pairwise_map.mpr ascending) ?_]
    · constructor
      · rintro ⟨grp, inGroups, inGroup, new⟩
        obtain ⟨plan, inPlans, rfl⟩ := mem_map.mp inGroups
        refine ⟨plan.blockOrder, (hld _ row).mpr ⟨plan, inPlans, rfl, inGroup⟩,
          fun ord alt2 held same => ?_⟩
        obtain ⟨alt, inOthers, rfl, inOther⟩ := (hld ord alt2).mp held
        exact new _ (mem_map_of_mem inOthers) alt2 inOther same
      · rintro ⟨ord, held, new⟩
        obtain ⟨plan, inPlans, rfl, inPlan⟩ := (hld ord row).mp held
        refine ⟨_, mem_map_of_mem inPlans, inPlan, fun grp inGroups alt2 inGroup same => ?_⟩
        obtain ⟨alt, inOthers, rfl⟩ := mem_map.mp inGroups
        exact new alt.blockOrder alt2 ((hld _ alt2).mpr ⟨alt, inOthers, rfl, inGroup⟩) same
    · intro grp inGroups
      obtain ⟨plan, inPlans, rfl⟩ := mem_map.mp inGroups
      exact (sound plan inPlans).increasing
  · have samePlans := (List.Perm.flatMap_right TqbnStreamingBlockPlan.records
      (perm_insertionSort (fun left right : TqbnStreamingBlockPlan =>
        toLex (left.firstId, left.blockOrder) ≤ toLex (right.firstId, right.blockOrder))
        unsorted)).length_eq
    have fewer : (lastOf Kline.id (file.rows.filter (inRange range))).length ≤
        (file.rows.filter (inRange range)).length := length_lastOf_le _
    have shorter := length_filter_le (inRange range)
      (unsorted.flatMap TqbnStreamingBlockPlan.records)
    rw [filter_flatMap, isRows] at shorter
    omega

theorem readKlines_eq (range : Int × Int) :
    TqbnKlineFile.readKlines file.blocks range =
      .ok (lastOf Kline.id (file.rows.filter (inRange range))) := by
  unfold readKlines
  cases plan : planStreamingBlocks file.blocks range with
  | none => exact congrArg Except.ok (file.parseRowsForRange_eq range)
  | some plans => exact file.collect_eq plan

end TqbnKlineFile

/-! ## Compaction -/

section Compaction

variable {storedPrice : F64 → Except DataError F64}

theorem rows_of_flush {blocks put : List RecordsBlock} {pend : PendingTqbnRecordsBlock}
    (fld : flushIndexedRecordsBlock blocks pend = .ok put) :
    put.flatMap RecordsBlock.rows = blocks.flatMap RecordsBlock.rows ++ pend.records := by
  unfold flushIndexedRecordsBlock at fld
  split at fld
  · rename_i emp
    rw [← ok.inj fld, isEmpty_iff.mp emp, append_nil]
  · split at fld
    · rw [← ok.inj fld, flatMap_append]
      simp
    all_goals cases fld

/-- A segment that is written whole adds its stored rows. -/
theorem rows_of_appendRecords {rows : List Kline} {blocks : List RecordsBlock}
    {pend : PendingTqbnRecordsBlock}
    (app : (appendRecords storedPrice blocks pend rows).2 = .ok ()) :
    ∃ recs, rows.mapM (storedKline storedPrice) = .ok recs ∧
      (appendRecords storedPrice blocks pend rows).1.flatMap RecordsBlock.rows =
        blocks.flatMap RecordsBlock.rows ++ pend.records ++ recs := by
  induction rows generalizing blocks pend with
  | nil =>
    unfold appendRecords at app ⊢
    cases fld : flushIndexedRecordsBlock blocks pend with
    | error error =>
      rw [fld] at app
      cases app
    | ok put => exact ⟨[], rfl, by rw [append_nil]; exact rows_of_flush fld⟩
  | cons row rows ih =>
    unfold appendRecords at app ⊢
    cases got : storedKline storedPrice row with
    | error error =>
      rw [got] at app
      cases app
    | ok rcd =>
      rw [got] at app
      dsimp only at app ⊢
      split at app
      · cases app
      rename_i put fld
      split at app
      · cases app
      rename_i rangeEndNs isEnd
      obtain ⟨recs, isRecords, sameRows⟩ := ih app
      refine ⟨rcd :: recs, ?_, ?_⟩
      · rw [mapM_cons, got, isRecords]
        rfl
      · rw [sameRows]
        split at fld
        · rename_i full
          rw [if_pos full, rows_of_flush fld]
          simp [PendingTqbnRecordsBlock.add]
        · rename_i notFull
          rw [if_neg notFull, ← ok.inj fld]
          simp [PendingTqbnRecordsBlock.add]

theorem compact_cases (file : TqbnKlineFile) (dur : Int) :
    ((∃ error, (file.compact storedPrice dur).2 = .error error) ∧
        (file.compact storedPrice dur).1 = file) ∨
      ((file.compact storedPrice dur).2 = .ok () ∧
        (lastOf Kline.id file.rows).mapM (storedKline storedPrice) =
          .ok (file.compact storedPrice dur).1.rows) := by
  unfold TqbnKlineFile.compact
  dsimp only
  split
  · rename_i isOk
    refine .inr ⟨isOk, ?_⟩
    have both : ((appendRecords storedPrice [] {} (compactRows file.rows)).2 >>= fun _ =>
        validateSegmentRanges dur (compactRows file.rows)) = .ok () := isOk
    obtain ⟨_, app, -⟩ := Result.of_bind both
    obtain ⟨recs, isRecords, sameRows⟩ := rows_of_appendRecords app
    rw [← compactRows_eq, isRecords]
    exact congrArg Except.ok sameRows.symm
  · exact .inl ⟨⟨_, rfl⟩, rfl⟩

end Compaction

/-! ## When reads agree -/

/-- An id was written with one time only. -/
def OneTime (rows : List Kline) : Prop :=
  ∀ row ∈ rows, ∀ other ∈ rows, row.id = other.id → row.datetime = other.datetime

theorem OneTime.lastOf_filter {rows : List Kline} (oneTime : OneTime rows) (range : Int × Int) :
    lastOf Kline.id (rows.filter (inRange range)) = (lastOf Kline.id rows).filter (inRange range) :=
  LastWrites.lastOf_filter fun row mem alt altM same => by
    unfold inRange
    rw [oneTime row mem alt altM same]

/-- Where a row of an id has another time than the last row, a read of that time gives a row that the
last rows do not have. -/
theorem oneTime_of_agree {rows : List Kline}
    (agr : ∀ range : Int × Int, ∀ row ∈ lastOf Kline.id (rows.filter (inRange range)),
      ∃ last ∈ lastOf Kline.id rows, last.id = row.id ∧ inRange range last = true) :
    OneTime rows := by
  have fin {row last : Kline} (mem : row ∈ rows) (inLast : last ∈ lastOf Kline.id rows)
      (same : last.id = row.id) : row.datetime = last.datetime := by
    have pick : row ∈ rows.filter (inRange (row.datetime, row.datetime + 1)) :=
      mem_filter.mpr ⟨mem, decide_eq_true ⟨le_rfl, lt_add_one _⟩⟩
    obtain ⟨hit, inFound, sameFound⟩ := @exists_lastOf _ _ _ Kline.id _ _ pick
    obtain ⟨alt, altM, sameId, inn⟩ := agr _ hit inFound
    have fin := Neighbours.eq_of_key_eq (sorted_lastOf rows) altM inLast
      ((sameId.trans sameFound).trans same.symm)
    have bnds := of_decide_eq_true inn
    rw [fin] at bnds
    dsimp only at bnds
    omega
  intro row mem alt altM same
  obtain ⟨last, inLast, sameLast⟩ := @exists_lastOf _ _ _ Kline.id _ _ mem
  rw [fin mem inLast sameLast, fin altM inLast (sameLast.trans same)]

namespace TqbnKlineFile

variable (file : TqbnKlineFile)

/-- Reads of parts of ranges agree where every id has one time, and only there. -/
theorem subranges_agree_iff :
    (∀ outer inner : Int × Int, outer.1 ≤ inner.1 → inner.2 ≤ outer.2 →
      TqbnKlineFile.readKlines file.blocks inner =
        (TqbnKlineFile.readKlines file.blocks outer).map (List.filter (inRange inner))) ↔
      OneTime file.rows := by
  constructor
  · intro agr
    refine oneTime_of_agree fun inner row mem => ?_
    obtain ⟨whole, win⟩ := Ranges.exists_enclosing (file.rows.map Kline.datetime)
    have sameRows := agr (min whole.1 inner.1, max whole.2 inner.2) inner (min_le_right _ _)
      (le_max_right _ _)
    have all : file.rows.filter (inRange (min whole.1 inner.1, max whole.2 inner.2)) = file.rows :=
      filter_eq_self.mpr fun row mem => by
        have bnds := win row.datetime (mem_map_of_mem mem)
        exact decide_eq_true ⟨(min_le_left _ _).trans bnds.1, lt_max_of_lt_left bnds.2⟩
    rw [readKlines_eq, readKlines_eq, all] at sameRows
    rw [ok.inj sameRows] at mem
    obtain ⟨inLast, inn⟩ := mem_filter.mp mem
    exact ⟨row, inLast, rfl, inn⟩
  · intro oneTime outer inner lo stop
    rw [readKlines_eq, readKlines_eq]
    refine congrArg Except.ok ?_
    rw [oneTime.lastOf_filter, oneTime.lastOf_filter, filter_filter]
    refine filter_congr fun row _ => ?_
    unfold inRange
    rw [← Bool.decide_and]
    exact decide_eq_decide.mpr ⟨fun bnds => ⟨bnds, by omega⟩, fun both => both.1⟩

/-- A compaction keeps every read where every id has one time and the last rows are stored as they
are read, and only there. -/
theorem compact_agrees_iff {storedPrice : F64 → Except DataError F64} {dur : Int}
    (compacted : (file.compact storedPrice dur).2 = .ok ()) :
    (∀ range, TqbnKlineFile.readKlines (file.compact storedPrice dur).1.blocks range =
        TqbnKlineFile.readKlines file.blocks range) ↔
      OneTime file.rows ∧
        ∀ row ∈ lastOf Kline.id file.rows, storedKline storedPrice row = .ok row := by
  have isRows : (lastOf Kline.id file.rows).mapM (storedKline storedPrice) =
      .ok (file.compact storedPrice dur).1.rows := by
    rcases compact_cases file dur with ⟨⟨error, err⟩, -⟩ | ⟨-, isRows⟩
    · rw [err] at compacted
      cases compacted
    · exact isRows
  constructor
  · intro agr
    have same (range : Int × Int) :
        lastOf Kline.id ((file.compact storedPrice dur).1.rows.filter (inRange range)) =
          lastOf Kline.id (file.rows.filter (inRange range)) := by
      have sameRead := agr range
      rw [readKlines_eq, readKlines_eq] at sameRead
      exact ok.inj sameRead
    have oneTime : OneTime file.rows := by
      refine oneTime_of_agree fun range row mem => ?_
      rw [← same] at mem
      obtain ⟨inRecords, inn⟩ := mem_filter.mp (subset_lastOf _ mem)
      obtain ⟨last, inLast, got⟩ := Result.of_mem_mapM isRows inRecords
      obtain ⟨sameId, sameTime⟩ := storedKline_eq_ok got
      refine ⟨last, inLast, sameId.symm, ?_⟩
      unfold inRange at inn ⊢
      rwa [← sameTime]
    have srt : (file.compact storedPrice dur).1.rows.Pairwise
        fun left right => left.id < right.id := by
      have ids := Result.map_of_mapM isRows fun row rcd got => (storedKline_eq_ok got).1
      refine pairwise_map.mp (?_ : (List.map Kline.id _).Pairwise (· < ·))
      rw [ids]
      exact pairwise_map.mpr (sorted_lastOf file.rows)
    refine ⟨oneTime, fun row mem => ?_⟩
    obtain ⟨rcd, inRecords, got⟩ := Result.mem_of_mapM isRows mem
    have pick : rcd ∈ (file.compact storedPrice dur).1.rows.filter
        (inRange (rcd.datetime, rcd.datetime + 1)) :=
      mem_filter.mpr ⟨inRecords, decide_eq_true ⟨le_rfl, lt_add_one _⟩⟩
    rw [← lastOf_of_sorted (srt.filter _), same, oneTime.lastOf_filter] at pick
    have inLast := (mem_filter.mp pick).1
    rw [got, Neighbours.eq_of_key_eq (sorted_lastOf file.rows) inLast mem (storedKline_eq_ok got).1]
  · rintro ⟨oneTime, stable⟩ range
    have kept : (file.compact storedPrice dur).1.rows = lastOf Kline.id file.rows := by
      have img := Result.mapM_eq_map (g := id) stable
      rw [List.map_id, isRows] at img
      exact ok.inj img
    rw [readKlines_eq, readKlines_eq, kept, oneTime.lastOf_filter,
      lastOf_of_sorted ((sorted_lastOf file.rows).filter _)]

end TqbnKlineFile

/-- The merge and the materialized rows of a range are the same.  Reads of parts of a range agree with
the read of the range, and a compaction that returns keeps all reads, if and only if every id was
written with one time and, behind a compaction, the last rows are stored as they were read. -/
theorem klineReads_consistent (storedPrice : F64 → Except DataError F64) (durationNs : Int)
    (file : TqbnKlineFile) :
    (∀ (range : Int × Int) (plans : List TqbnStreamingBlockPlan),
      planStreamingBlocks file.blocks range = some plans →
        TqbnStreamingPartition.collect range
            ((plans.flatMap TqbnStreamingBlockPlan.records).length + 1) ⟨plans, []⟩ =
          .ok (parseRowsForRange file.blocks range)) ∧
    ((∀ outer inner : Int × Int, outer.1 ≤ inner.1 → inner.2 ≤ outer.2 →
        TqbnKlineFile.readKlines file.blocks inner =
          (TqbnKlineFile.readKlines file.blocks outer).map (List.filter (inRange inner))) ↔
      OneTime file.rows) ∧
    (∀ error, (file.compact storedPrice durationNs).2 = .error error →
      (file.compact storedPrice durationNs).1 = file) ∧
    ((file.compact storedPrice durationNs).2 = .ok () →
      ((∀ range, TqbnKlineFile.readKlines (file.compact storedPrice durationNs).1.blocks range =
          TqbnKlineFile.readKlines file.blocks range) ↔
        OneTime file.rows ∧
          ∀ row ∈ lastOf Kline.id file.rows, storedKline storedPrice row = .ok row)) := by
  refine ⟨fun range plans plan => ?_, file.subranges_agree_iff, fun error err => ?_,
    file.compact_agrees_iff⟩
  · rw [file.collect_eq plan, file.parseRowsForRange_eq]
  · rcases compact_cases file durationNs with ⟨-, same⟩ | ⟨isOk, -⟩
    · exact same
    · rw [isOk] at err
      cases err

/-- A K-line at `datetime`. -/
def unitKline (id datetime : Int) : Kline :=
  ⟨id, datetime, .finite 1, .finite 1, .finite 1, .finite 1, 0, 0, 0, none⟩

/-- Two segments write one id at two times.  The first row is read alone, not in a read of both, and
not behind a compaction. -/
theorem klineReads_inconsistent :
    let empty : TqbnKlineFile := ⟨[], fun _ mem => by cases mem⟩
    let hd := (empty.append Except.ok 60 [unitKline 1 1000]).1
    let file := (hd.append Except.ok 60 [unitKline 1 2000]).1
    TqbnKlineFile.readKlines file.blocks (1000, 1001) = .ok [unitKline 1 1000] ∧
      (TqbnKlineFile.readKlines file.blocks (1000, 3000)).map (List.filter (inRange (1000, 1001))) = .ok [] ∧
      (file.compact Except.ok 60).2 = .ok () ∧
      TqbnKlineFile.readKlines (file.compact Except.ok 60).1.blocks (1000, 1001) = .ok [] := by
  decide +kernel

end Tqsdk
