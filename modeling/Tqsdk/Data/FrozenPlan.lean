import Tqsdk.Data.HistoryPlan

/-!
# When a frozen plan is a fresh one

`plan_range` repeats the choice of slices that `plan_request` made.  The guard of its minute branch
is the opposite one, a part of a main contract is cut to the requested range and not to its
segment, and a native daily request is given its own symbol as the physical one.
-/

namespace Tqsdk

open List

variable {parseDate : String → Except String Int} {cache : CacheMetadata}
  {request : ValidatedBacktestHistoryRequest} {requested : Int × Int}

/-! ## Segments -/

theorem intersectSegments_eq (segs : List BacktestHistoryPhysicalSegment) (requested : Int × Int) :
    intersectSegments segs requested =
      (overlapping segs requested).map (intersectSegment requested) := by
  rw [intersectSegments, overlapping, filter_map]
  rfl

theorem intersectSegments_whole (sym : String) (ne : requested.1 < requested.2) :
    intersectSegments [⟨sym, requested.1, requested.2⟩] requested =
      [⟨sym, requested.1, requested.2⟩] := by
  simp [intersectSegments, intersectSegment, ne]

theorem inside_of_mem_intersectSegments {segs : List BacktestHistoryPhysicalSegment}
    {seg : BacktestHistoryPhysicalSegment} (mem : seg ∈ intersectSegments segs requested) :
    requested.1 ≤ seg.startNs ∧ seg.endNs ≤ requested.2 := by
  obtain ⟨inMap, -⟩ := mem_filter.mp mem
  obtain ⟨all, -, rfl⟩ := mem_map.mp inMap
  exact ⟨le_max_right _ _, min_le_right _ _⟩

theorem ne_nil_of_covers {segs : List BacktestHistoryPhysicalSegment}
    (cov : segmentsCoverRange segs requested = true) : segs ≠ [] := by
  rintro rfl
  cases cov

theorem planMetadata_segments {sym : String} {cachedDaily : Option MinuteKlineCacheSnapshot}
    {metadata : Option BacktestHistoryMetadataSnapshot} {known : PlanMetadata}
    (nonempty : requested.1 < requested.2)
    (ok : planMetadata sym requested cachedDaily metadata = .ok known) :
    known.physicalSegments = intersectSegments known.sourceMappingSegments requested := by
  cases metadata with
  | none =>
    obtain rfl := Except.ok.inj ok
    exact (intersectSegments_whole sym nonempty).symm
  | some snap =>
    obtain ⟨-, -, ok⟩ := Result.of_bind ok
    obtain rfl := Except.ok.inj ok
    rfl

/-! ## Slices -/

section Slices

variable {baseSource : PlannedBaseSource} {tdays : Option (List BacktestHistoryTradingDay)}
  {slices : List PlannedSourceSlice} {msg : String}
  {done : (Int × Int) × List (Int × Int) × List PlannedSourceSlice}

theorem settleSlices_message
    (ok : settleSlices parseDate baseSource tdays slices msg = .ok done)
    (alt : String) : settleSlices parseDate baseSource tdays slices alt = .ok done := by
  cases slices with
  | nil => cases ok
  | cons cut rest => exact ok

theorem foldl_widen_le (slices : List PlannedSourceSlice) (hull : Int × Int) :
    ((slices.foldl widen hull).1 ≤ hull.1 ∧ hull.2 ≤ (slices.foldl widen hull).2) ∧
      ∀ cut ∈ slices, (slices.foldl widen hull).1 ≤ cut.range.1 ∧
        cut.range.2 ≤ (slices.foldl widen hull).2 := by
  induction slices generalizing hull with
  | nil => exact ⟨⟨le_rfl, le_rfl⟩, nofun⟩
  | cons cut rest ih =>
    obtain ⟨⟨left, right⟩, every⟩ := ih (widen hull cut)
    rw [foldl_cons]
    refine ⟨⟨left.trans (min_le_left _ _), (le_max_left _ _).trans right⟩, fun alt mem => ?_⟩
    cases mem with
    | head => exact ⟨left.trans (min_le_right _ _), (le_max_right _ _).trans right⟩
    | tail _ mem => exact every alt mem

theorem foldl_widen_inside {hull bd : Int × Int}
    (lo : bd.1 ≤ hull.1 ∧ hull.2 ≤ bd.2)
    (inn : ∀ cut ∈ slices, bd.1 ≤ cut.range.1 ∧ cut.range.2 ≤ bd.2) :
    bd.1 ≤ (slices.foldl widen hull).1 ∧ (slices.foldl widen hull).2 ≤ bd.2 := by
  induction slices generalizing hull with
  | nil => exact lo
  | cons cut rest ih =>
    have here := inn cut mem_cons_self
    exact ih ⟨le_min lo.1 here.1, max_le lo.2 here.2⟩ fun alt mem => inn alt (mem_cons_of_mem _ mem)

/-- The hull reaches over every slice, and no further than all of them. -/
theorem hullOf_spec {hull : Int × Int} (ok : hullOf slices msg = .ok hull) :
    (∀ cut ∈ slices, hull.1 ≤ cut.range.1 ∧ cut.range.2 ≤ hull.2) ∧
      ∀ bd : Int × Int, (∀ cut ∈ slices, bd.1 ≤ cut.range.1 ∧ cut.range.2 ≤ bd.2) →
        bd.1 ≤ hull.1 ∧ hull.2 ≤ bd.2 := by
  cases slices with
  | nil => cases ok
  | cons cut rest =>
    obtain rfl := Except.ok.inj ok
    obtain ⟨⟨left, right⟩, every⟩ := foldl_widen_le rest cut.range
    refine ⟨fun alt mem => ?_, fun bd inn => ?_⟩
    · cases mem with
      | head => exact ⟨left, right⟩
      | tail _ mem => exact every alt mem
    · exact foldl_widen_inside (inn cut mem_cons_self)
        fun alt mem => inn alt (mem_cons_of_mem _ mem)

theorem settleSlices_hull (ok : settleSlices parseDate baseSource tdays slices msg = .ok done) :
    hullOf slices msg = .ok done.1 := by
  obtain ⟨hull, join, ok⟩ := Result.of_bind ok
  obtain ⟨emp, -, ok⟩ := Result.of_bind ok
  obtain rfl := Except.ok.inj ok
  exact join

theorem settleSlices_slices (notTick : baseSource ≠ .tick)
    (ok : settleSlices parseDate baseSource tdays slices msg = .ok done) :
    done.2.2 = slices := by
  obtain ⟨hull, -, ok⟩ := Result.of_bind ok
  obtain ⟨emp, isEmpty, ok⟩ := Result.of_bind ok
  rw [provenEmptyIn, if_neg notTick] at isEmpty
  obtain rfl := Except.ok.inj isEmpty
  obtain rfl := Except.ok.inj ok
  rfl

theorem expandTickSourceRange_le {dur : Option Int} {ses : KlineSessionTemplate}
    {wide : Int × Int}
    (ok : expandTickSourceRange requested dur ses tdays = .ok wide) :
    wide.1 ≤ requested.1 ∧ requested.2 ≤ wide.2 := by
  obtain ⟨dayRange, -, ok⟩ := Result.of_bind ok
  obtain ⟨warmup, -, ok⟩ := Result.of_bind ok
  obtain ⟨hi, -, ok⟩ := Result.of_bind ok
  obtain rfl := Except.ok.inj ok
  exact ⟨min_le_right _ _, le_max_right _ _⟩

end Slices

/-- A segment that is already cut to the requested range keeps its range. -/
theorem sliceOf_eq_ok {seg : BacktestHistoryPhysicalSegment} {wide : Except DataError (Int × Int)}
    {rank : Nat} {cut : PlannedSourceSlice}
    (wider : ∀ rng, wide = .ok rng → rng.1 ≤ seg.startNs ∧ seg.endNs ≤ rng.2) :
    FrozenBacktestHistoryPlanBasis.sliceOf seg wide rank = .ok cut ↔
      (∃ rng, wide = .ok rng) ∧ cut = ⟨seg.physicalSymbol, (seg.startNs, seg.endNs), rank⟩ := by
  unfold FrozenBacktestHistoryPlanBasis.sliceOf
  rw [Result.bind_eq_ok]
  constructor
  · rintro ⟨rng, hit, same⟩
    obtain rfl := Except.ok.inj same
    obtain ⟨left, right⟩ := wider rng hit
    exact ⟨⟨rng, hit⟩, by rw [max_eq_right left, min_eq_right right]⟩
  · rintro ⟨⟨rng, hit⟩, rfl⟩
    obtain ⟨left, right⟩ := wider rng hit
    exact ⟨rng, hit, by rw [max_eq_right left, min_eq_right right]; rfl⟩

theorem mappedSlice_eq_ok {cacheSymbol msg : String} {seg : BacktestHistoryPhysicalSegment}
    {wide : Except DataError (Int × Int)} {rank : Nat} {cut : PlannedSourceSlice}
    (ok : mappedSlice cacheSymbol seg wide rank msg = .ok cut) :
    ∃ rng, wide = .ok rng ∧
      cut = ⟨cacheSymbol, (max rng.1 seg.startNs, min rng.2 seg.endNs), rank⟩ := by
  obtain ⟨rng, hit, ok⟩ := Result.of_bind ok
  dsimp only at ok
  split_ifs at ok
  exact ⟨rng, hit, (Except.ok.inj ok).symm⟩

/-! ## Plans -/

/-- What the lookups of a plan found in the cache. -/
def Known (cache : CacheMetadata) (request : ValidatedBacktestHistoryRequest)
    (baseSource : PlannedBaseSource) (known : PlanMetadata) : Prop :=
  ∃ cachedDaily metadata, cache.cachedDaily request baseSource = .ok cachedDaily ∧
    cache.resolve request baseSource request.effectiveEndNs cachedDaily = .ok metadata ∧
    planMetadata request.symbol (request.startNs, request.effectiveEndNs) cachedDaily metadata =
      .ok known

theorem Known.unique {baseSource : PlannedBaseSource} {known alt : PlanMetadata}
    (left : Known cache request baseSource known) (right : Known cache request baseSource alt) :
    known = alt := by
  obtain ⟨daily, metadata, cached, resolved, found⟩ := left
  obtain ⟨daily', metadata', cached', resolved', found'⟩ := right
  obtain rfl := Except.ok.inj (cached.symm.trans cached')
  obtain rfl := Except.ok.inj (resolved.symm.trans resolved')
  exact Except.ok.inj (found.symm.trans found')

/-- The parts of a plan that was made. -/
structure PlanParts (parseDate : String → Except String Int) (cache : CacheMetadata)
    (request : ValidatedBacktestHistoryRequest) (plan : PlannedBacktestHistoryRequest)
    (baseSource : PlannedBaseSource) (known : PlanMetadata) (slices : List PlannedSourceSlice) :
    Prop where
  classified : classifyRequest request = .ok baseSource
  nonempty : request.startNs < request.effectiveEndNs
  lookups : Known cache request baseSource known
  covered : (baseSource = .canonicalDaily ∧ startsWith request.symbol "KQ.m@" = false) ∨
    (baseSource = .canonicalMinute ∧ startsWith request.symbol "KQ." = false) ∨
    known.physicalSegments ≠ []
  sliced : sourceSegments request baseSource known.session known.tradingDays
    known.sourceMappingSegments (request.startNs, request.effectiveEndNs) = .ok slices
  settled : settleSlices parseDate baseSource known.tradingDays slices
    "backtest history plan has no source slices" =
      .ok (plan.expandedSourceRange, plan.provenEmptyRanges, plan.sourceSlices)
  source : plan.baseSource = baseSource
  physical : plan.physicalSegments = known.physicalSegments
  basis : plan.contextBasis = ⟨request.symbol, request.kind, request.durationNs, baseSource,
    known.session, known.tradingDays, known.minuteSnapshot, known.snapshotHash,
    known.sourceMappingSegments, request.finality,
    decide (baseSource = .canonicalDaily) && !startsWith request.symbol "KQ.m@"⟩

theorem planRequest_parts {plan : PlannedBacktestHistoryRequest}
    (ok : planRequest parseDate cache request = .ok plan) :
    ∃ baseSource known slices, PlanParts parseDate cache request plan baseSource known slices := by
  obtain ⟨-, -, ok⟩ := Result.of_bind ok
  obtain ⟨baseSource, classified, ok⟩ := Result.of_bind ok
  split at ok
  · cases ok
  rename_i nonempty
  obtain ⟨cachedDaily, cached, ok⟩ := Result.of_bind ok
  obtain ⟨metadata, resolved, ok⟩ := Result.of_bind ok
  split at ok
  · cases ok
  obtain ⟨known, found, ok⟩ := Result.of_bind ok
  dsimp only at ok
  split at ok
  · cases ok
  rename_i covers
  obtain ⟨slices, sliced, ok⟩ := Result.of_bind ok
  obtain ⟨⟨hull, empty, remaining⟩, settled, ok⟩ := Result.of_bind ok
  obtain rfl := Except.ok.inj ok
  refine ⟨baseSource, known, slices, classified, not_le.mp nonempty,
    ⟨cachedDaily, metadata, cached, resolved, found⟩, ?_, sliced, settled, rfl, rfl, rfl⟩
  by_cases daily : baseSource = .canonicalDaily ∧ startsWith request.symbol "KQ.m@" = false
  · exact .inl daily
  by_cases minute : baseSource = .canonicalMinute ∧ startsWith request.symbol "KQ." = false
  · exact .inr (.inl minute)
  refine .inr (.inr (@ne_nil_of_covers (request.startNs, request.effectiveEndNs) _ ?_))
  cases covered : segmentsCoverRange known.physicalSegments
      (request.startNs, request.effectiveEndNs) with
  | true => rfl
  | false =>
    refine absurd ?_ covers
    simp only [covered, Bool.not_false, Bool.and_true, Bool.and_eq_true, Bool.not_eq_true',
      Bool.and_eq_false_iff, decide_eq_false_iff_not, Bool.not_eq_false']
    constructor
    · by_cases isDaily : baseSource = .canonicalDaily
      · exact .inr (by simpa using fun absent => daily ⟨isDaily, absent⟩)
      · exact .inl isDaily
    · by_cases isMinute : baseSource = .canonicalMinute
      · exact .inr (by simpa using fun absent => minute ⟨isMinute, absent⟩)
      · exact .inl isMinute

/-- The frozen plan reads what the fresh one reads. -/
structure SamePlan (frozen fresh : PlannedBacktestHistoryRequest) : Prop where
  baseSource : frozen.baseSource = fresh.baseSource
  sourceSlices : frozen.sourceSlices = fresh.sourceSlices
  expandedSourceRange : frozen.expandedSourceRange = fresh.expandedSourceRange
  provenEmptyRanges : frozen.provenEmptyRanges = fresh.provenEmptyRanges
  physicalSegments : frozen.physicalSegments = fresh.physicalSegments

/-- When the two choices of slices agree.  A main contract's ticks need segments whose expanded
ranges do not leave the requested one; minutes of a contract need one segment that its expanded
range stays in, those of a `KQ.` symbol a request that expands to itself and a mapping of the
symbol to itself; days of any other symbol need a mapping of the symbol to itself. -/
def PlansAlike (request : ValidatedBacktestHistoryRequest) (baseSource : PlannedBaseSource)
    (known : PlanMetadata) : Prop :=
  let requested := (request.startNs, request.endNs)
  let durationNs := request.durationNs.getD minuteKlineDurationNs
  match baseSource with
  | .tick => startsWith request.symbol "KQ.m@" = true →
      ∀ segment ∈ overlapping known.sourceMappingSegments requested, ∀ expanded,
        expandTickSourceRange (max segment.startNs requested.1, min segment.endNs requested.2)
          request.durationNs known.session known.tradingDays = .ok expanded →
        (requested.1 ≤ segment.startNs ∨ expanded.1 = requested.1) ∧
          (segment.endNs ≤ requested.2 ∨ expanded.2 = requested.2)
  | .canonicalMinute =>
    if startsWith request.symbol "KQ." then
      intersectSegments known.sourceMappingSegments requested =
          [⟨request.symbol, requested.1, requested.2⟩] ∧
        expandMinuteSourceRange requested durationNs known.session = .ok requested
    else ∃ segment expanded part,
      overlapping known.sourceMappingSegments requested = [segment] ∧
      expandMinuteSourceRange requested durationNs known.session = .ok expanded ∧
      expandMinuteSourceRange (max segment.startNs requested.1, min segment.endNs requested.2)
        durationNs known.session = .ok part ∧
      (max part.1 segment.startNs, min part.2 segment.endNs) = expanded
  | .canonicalDaily => startsWith request.symbol "KQ.m@" = true ∨
      intersectSegments known.sourceMappingSegments requested =
        [⟨request.symbol, requested.1, requested.2⟩]

section Agreement

variable {plan : PlannedBacktestHistoryRequest} {baseSource : PlannedBaseSource}
  {known : PlanMetadata} {slices : List PlannedSourceSlice}

/-- The basis that a plan with these parts keeps. -/
def basisOf (request : ValidatedBacktestHistoryRequest) (baseSource : PlannedBaseSource)
    (known : PlanMetadata) : FrozenBacktestHistoryPlanBasis :=
  ⟨request.symbol, request.kind, request.durationNs, baseSource, known.session, known.tradingDays,
    known.minuteSnapshot, known.snapshotHash, known.sourceMappingSegments, request.finality,
    decide (baseSource = .canonicalDaily) && !startsWith request.symbol "KQ.m@"⟩

theorem effectiveEndNs_final (fin : request.provisionalAsOfNs = none) :
    request.effectiveEndNs = request.endNs := by
  rw [ValidatedBacktestHistoryRequest.effectiveEndNs, fin]

theorem PlanParts.physical_eq
    (parts : PlanParts parseDate cache request plan baseSource known slices) :
    known.physicalSegments = intersectSegments known.sourceMappingSegments
      (request.startNs, request.effectiveEndNs) := by
  obtain ⟨cachedDaily, metadata, -, -, found⟩ := parts.lookups
  exact planMetadata_segments parts.nonempty found

/-- Only a native daily plan and a plain minute plan may come without segments. -/
theorem PlanParts.mapped
    (parts : PlanParts parseDate cache request plan baseSource known slices)
    (fin : request.provisionalAsOfNs = none)
    (cut : baseSource = .canonicalDaily → startsWith request.symbol "KQ.m@" = true)
    (notPlain : baseSource = .canonicalMinute → startsWith request.symbol "KQ." = true) :
    known.physicalSegments =
        intersectSegments known.sourceMappingSegments (request.startNs, request.endNs) ∧
      intersectSegments known.sourceMappingSegments (request.startNs, request.endNs) ≠ [] := by
  have physical := parts.physical_eq
  rw [effectiveEndNs_final fin] at physical
  refine ⟨physical, physical ▸ ?_⟩
  rcases parts.covered with ⟨daily, notMain⟩ | ⟨minute, notKq⟩ | covered
  · rw [cut daily] at notMain
    cases notMain
  · rw [notPlain minute] at notKq
    cases notKq
  · exact covered

/-- The frozen plan takes the segments of the fresh one unless a native daily request is in the
way. -/
theorem segmentsFor_basisOf (img : intersectSegments known.sourceMappingSegments requested ≠ [])
    (notDaily : baseSource ≠ .canonicalDaily ∨ startsWith request.symbol "KQ.m@" = true) :
    (basisOf request baseSource known).segmentsFor requested =
      intersectSegments known.sourceMappingSegments requested := by
  unfold FrozenBacktestHistoryPlanBasis.segmentsFor basisOf
  rw [if_neg]
  intro own
  simp only [Bool.or_eq_true, Bool.and_eq_true, decide_eq_true_eq, Bool.not_eq_true'] at own
  rcases own with emp | ⟨⟨daily, -⟩, notMain⟩
  · rw [List.isEmpty_iff] at emp
    exact img (by rw [emp]; rfl)
  · rcases notDaily with notDaily | main
    · exact notDaily daily
    · rw [main] at notMain
      cases notMain

/-- The frozen basis plans the range of the request as the fresh plan did. -/
def ReplansAlike (parseDate : String → Except String Int)
    (request : ValidatedBacktestHistoryRequest) (plan : PlannedBacktestHistoryRequest) : Prop :=
  ∃ frozen, plan.contextBasis.planRange parseDate request.requestId
    (request.startNs, request.endNs) = .ok frozen ∧ SamePlan frozen plan

/-- What is left to compare when both plans have been made. -/
theorem PlanParts.samePlan_iff
    (ps : PlanParts parseDate cache request plan baseSource known slices)
    (fin : request.provisionalAsOfNs = none)
    (main : startsWith request.symbol "KQ.m@" = true →
      (basisOf request baseSource known).segmentsFor (request.startNs, request.endNs) ≠ []) :
    ReplansAlike parseDate request plan ↔
      (basisOf request baseSource known).segmentsFor (request.startNs, request.endNs) =
        known.physicalSegments ∧
      ∃ alts, (basisOf request baseSource known).slices
          ((basisOf request baseSource known).segmentsFor (request.startNs, request.endNs))
          (request.startNs, request.endNs) = .ok alts ∧
        settleSlices parseDate baseSource known.tradingDays alts "context plan has no source slices"
          = .ok (plan.expandedSourceRange, plan.provenEmptyRanges, plan.sourceSlices) := by
  have ne := ps.nonempty
  rw [effectiveEndNs_final fin] at ne
  have basis : plan.contextBasis = basisOf request baseSource known := ps.basis
  rw [ReplansAlike, basis]
  constructor
  · rintro ⟨frz, ok, same⟩
    unfold FrozenBacktestHistoryPlanBasis.planRange at ok
    rw [if_neg (not_le.mpr ne)] at ok
    dsimp only at ok
    split at ok
    · cases ok
    obtain ⟨alts, cuts, ok⟩ := Result.of_bind ok
    obtain ⟨⟨hull, emp, rem⟩, done, ok⟩ := Result.of_bind ok
    obtain rfl := Except.ok.inj ok
    obtain ⟨-, sameSlices, sameHull, sameEmpty, sameSegments⟩ := same
    dsimp only at sameSlices sameHull sameEmpty sameSegments
    refine ⟨sameSegments.trans ps.physical, alts, cuts, ?_⟩
    rw [← sameSlices, ← sameHull, ← sameEmpty]
    exact done
  · rintro ⟨sameSegments, alts, cuts, done⟩
    have all : ¬ (startsWith (basisOf request baseSource known).symbol "KQ.m@" &&
        ((basisOf request baseSource known).segmentsFor
          (request.startNs, request.endNs)).isEmpty) = true := by
      intro fail
      simp only [Bool.and_eq_true, List.isEmpty_iff] at fail
      exact main fail.1 fail.2
    refine ⟨⟨request.requestId, request.symbol, request.kind, request.durationNs, baseSource,
      (request.startNs, request.endNs), request.endNs, plan.expandedSourceRange, plan.sourceSlices,
      plan.provenEmptyRanges, (basisOf request baseSource known).segmentsFor
        (request.startNs, request.endNs), known.session, known.minuteSnapshot, known.snapshotHash,
      request.finality, basisOf request baseSource known⟩, ?_,
      ⟨ps.source.symm, rfl, rfl, rfl, sameSegments.trans ps.physical.symm⟩⟩
    unfold FrozenBacktestHistoryPlanBasis.planRange
    rw [if_neg (not_le.mpr ne)]
    dsimp only
    rw [if_neg all]
    refine Result.bind_eq_ok.mpr ⟨alts, cuts, Result.bind_eq_ok.mpr ⟨_, done, rfl⟩⟩

theorem startsWith_kq {sym : String} (main : startsWith sym "KQ.m@" = true) :
    startsWith sym "KQ." = true := by
  unfold startsWith at *
  rw [ isPrefixOf_iff_prefix] at *
  exact (show "KQ.".toList <+: "KQ.m@".toList by decide).trans main

/-- The slice of a segment that is cut to the requested range. -/
def cutSlice (requested : Int × Int) (entry : BacktestHistoryPhysicalSegment × Nat) :
    PlannedSourceSlice :=
  ⟨entry.1.physicalSymbol, (max entry.1.startNs requested.1, min entry.1.endNs requested.2),
    entry.2⟩

/-- The frozen slices of segments whose ranges can be expanded. -/
theorem frozenSlices_eq {segs : List BacktestHistoryPhysicalSegment}
    {expand : Int × Int → Except DataError (Int × Int)}
    (wider : ∀ rng wide, expand rng = .ok wide → wide.1 ≤ rng.1 ∧ rng.2 ≤ wide.2)
    (expandable : ∀ ent ∈ (overlapping segs requested).zipIdx, ∃ wide,
      expand (max ent.1.startNs requested.1, min ent.1.endNs requested.2) = .ok wide) :
    (intersectSegments segs requested).zipIdx.mapM (fun (seg, rank) =>
        FrozenBacktestHistoryPlanBasis.sliceOf seg (expand (seg.startNs, seg.endNs)) rank) =
      .ok ((overlapping segs requested).zipIdx.map (cutSlice requested)) := by
  rw [intersectSegments_eq, zipIdx_map, mapM_map]
  refine Result.mapM_eq_map fun ent mem => ?_
  exact (sliceOf_eq_ok fun rng => wider _ rng).mpr ⟨expandable ent mem, rfl⟩

theorem slices_tick_main {basis : FrozenBacktestHistoryPlanBasis}
    {segs : List BacktestHistoryPhysicalSegment} (src : basis.baseSource = .tick)
    (main : startsWith basis.symbol "KQ.m@" = true) :
    basis.slices segs requested = segs.zipIdx.mapM fun (seg, rank) =>
      FrozenBacktestHistoryPlanBasis.sliceOf seg (expandTickSourceRange
        (seg.startNs, seg.endNs) basis.durationNs basis.session basis.tradingDays) rank := by
  rw [FrozenBacktestHistoryPlanBasis.slices, src]
  exact if_pos main

theorem slices_minute_kq {basis : FrozenBacktestHistoryPlanBasis}
    {segs : List BacktestHistoryPhysicalSegment} (src : basis.baseSource = .canonicalMinute)
    (kq : startsWith basis.symbol "KQ." = true) :
    basis.slices segs requested = segs.zipIdx.mapM fun (seg, rank) =>
      FrozenBacktestHistoryPlanBasis.sliceOf seg (expandMinuteSourceRange
        (seg.startNs, seg.endNs) (basis.durationNs.getD minuteKlineDurationNs)
        basis.session) rank := by
  rw [FrozenBacktestHistoryPlanBasis.slices, src]
  exact if_pos kq

theorem PlanParts.tick_main_iff
    (ps : PlanParts parseDate cache request plan .tick known slices)
    (main : startsWith request.symbol "KQ.m@" = true)
    (fin : request.provisionalAsOfNs = none) :
    ReplansAlike parseDate request plan ↔ PlansAlike request .tick known := by
  obtain ⟨phys, img⟩ := ps.mapped fin nofun nofun
  have cuts := ps.sliced
  have done := ps.settled
  rw [effectiveEndNs_final fin] at cuts
  have segs := @segmentsFor_basisOf request _ .tick _ img (.inr main)
  rw [sourceSegments] at cuts
  dsimp only at cuts
  rw [if_pos main] at cuts
  -- Every segment of the fresh plan could be expanded.
  have vals : ∀ ent ∈ (overlapping known.sourceMappingSegments
      (request.startNs, request.endNs)).zipIdx, ∃ expanded,
      expandTickSourceRange (max ent.1.startNs request.startNs, min ent.1.endNs request.endNs)
        request.durationNs known.session known.tradingDays = .ok expanded ∧
      (⟨ent.1.physicalSymbol, (max expanded.1 ent.1.startNs, min expanded.2 ent.1.endNs),
        ent.2⟩ : PlannedSourceSlice) ∈ slices := by
    intro ent mem
    obtain ⟨cut, sliceMember, ok⟩ := Result.mem_of_mapM cuts mem
    obtain ⟨expanded, hit, rfl⟩ := mappedSlice_eq_ok ok
    exact ⟨expanded, hit, sliceMember⟩
  have frz := (@slices_tick_main (request.startNs, request.endNs)
    (basisOf request .tick known) _ rfl main).trans (@frozenSlices_eq _ _
      (fun rng => expandTickSourceRange rng request.durationNs known.session
        known.tradingDays) (fun _ _ => expandTickSourceRange_le) fun ent mem =>
          (vals ent mem).imp fun _ hit => hit.1)
  rw [ps.samePlan_iff fin fun _ => by rw [segs]; exact img, segs, frz]
  constructor
  · rintro ⟨-, alts, same, doneAlts⟩ - seg mem expanded hit
    obtain rfl := Except.ok.inj same
    -- The frozen slices stay inside the requested range, so the hull of the fresh ones does.
    have inn := (hullOf_spec (settleSlices_hull doneAlts)).2 (request.startNs, request.endNs)
      fun cut sliceMember => by
        obtain ⟨ent, -, rfl⟩ := mem_map.mp sliceMember
        exact ⟨le_max_right _ _, min_le_right _ _⟩
    obtain ⟨idx, ixd⟩ := getElem?_of_mem mem
    obtain ⟨rng, foundRange, sliceMember⟩ := vals (seg, idx) (mk_mem_zipIdx_iff_getElem?.mpr ixd)
    obtain rfl := Except.ok.inj (hit.symm.trans foundRange)
    have hull := (hullOf_spec (settleSlices_hull done)).1 _ sliceMember
    have wide := expandTickSourceRange_le hit
    dsimp only at hull inn wide ⊢
    have overlaps := of_decide_eq_true (mem_filter.mp mem).2
    dsimp only at overlaps
    omega
  · intro alike
    refine ⟨phys.symm, _, rfl, ?_⟩
    have same : slices = (overlapping known.sourceMappingSegments
        (request.startNs, request.endNs)).zipIdx.map
          (cutSlice (request.startNs, request.endNs)) := by
      refine Except.ok.inj (cuts.symm.trans (Result.mapM_eq_map fun ent mem => ?_))
      obtain ⟨cut, -, ok⟩ := Result.mem_of_mapM cuts mem
      obtain ⟨expanded, hit, rfl⟩ := mappedSlice_eq_ok ok
      have bnds := alike main ent.1 (fst_mem_of_mem_zipIdx mem) expanded hit
      have wide := expandTickSourceRange_le hit
      rw [ok]
      simp only [cutSlice, Except.ok.injEq, PlannedSourceSlice.mk.injEq, Prod.mk.injEq, true_and,
        and_true]
      simp only [intersectSegment] at bnds wide
      omega
    rw [← same]
    exact settleSlices_message done _

theorem PlanParts.tick_iff
    (ps : PlanParts parseDate cache request plan .tick known slices)
    (notMain : startsWith request.symbol "KQ.m@" = false)
    (fin : request.provisionalAsOfNs = none) :
    ReplansAlike parseDate request plan ↔ PlansAlike request .tick known := by
  obtain ⟨phys, mp⟩ := ps.mapped fin nofun nofun
  have cuts := ps.sliced
  rw [effectiveEndNs_final fin] at cuts
  have segs := @segmentsFor_basisOf request _ .tick _ mp (.inl (by decide))
  rw [ps.samePlan_iff fin fun main => absurd main (by simp [notMain]), segs]
  refine ⟨fun _ main => ?_, fun _ => ⟨phys.symm, slices, ?_, settleSlices_message ps.settled _⟩⟩
  · rw [notMain] at main
    cases main
  · rw [← cuts, FrozenBacktestHistoryPlanBasis.slices, sourceSegments]
    exact (if_neg (by simp [basisOf, notMain])).trans (if_neg (by simp [notMain])).symm

theorem eq_nil_of_mapM_zipIdx {α β ε : Type} {items : List α} {first : Nat}
    {f : α × Nat → Except ε β} (none_ : (items.zipIdx first).mapM f = .ok []) : items = [] := by
  cases items with
  | nil => rfl
  | cons item items =>
    obtain ⟨_, _, -, -, absurd⟩ := Result.of_mapM_cons none_
    cases absurd

theorem PlanParts.minute_kq_iff
    (ps : PlanParts parseDate cache request plan .canonicalMinute known slices)
    (kq : startsWith request.symbol "KQ." = true) (fin : request.provisionalAsOfNs = none) :
    ReplansAlike parseDate request plan ↔ PlansAlike request .canonicalMinute known := by
  obtain ⟨phys, img⟩ := ps.mapped fin nofun fun _ => kq
  have cuts := ps.sliced
  have ne := ps.nonempty
  rw [effectiveEndNs_final fin] at cuts ne
  have segs := @segmentsFor_basisOf request _ .canonicalMinute _ img (.inl (by decide))
  rw [sourceSegments] at cuts
  dsimp only at cuts
  rw [if_neg (by simp [kq])] at cuts
  obtain ⟨expanded, hit, one⟩ := Result.of_bind cuts
  obtain rfl := Except.ok.inj one
  have wide := expandMinuteSourceRange_le hit
  have frz := @slices_minute_kq (request.startNs, request.endNs)
    (basisOf request .canonicalMinute known)
    (intersectSegments known.sourceMappingSegments (request.startNs, request.endNs)) rfl kq
  rw [ps.samePlan_iff fin fun _ => by rw [segs]; exact img, segs, frz]
  simp only [PlansAlike, if_pos kq]
  constructor
  · rintro ⟨-, alts, cutAlts, doneAlts⟩
    have notTick : PlannedBaseSource.canonicalMinute ≠ .tick := by decide
    have same : alts = [⟨request.symbol, expanded, 0⟩] :=
      (settleSlices_slices notTick doneAlts).symm.trans (settleSlices_slices notTick ps.settled)
    subst same
    -- One slice comes from one segment, which has the range of the slice.
    cases mem : intersectSegments known.sourceMappingSegments (request.startNs, request.endNs) with
    | nil => exact absurd mem img
    | cons seg rest =>
      rw [mem] at cutAlts
      obtain ⟨cut, more, isSlice, isMore, only⟩ := Result.of_mapM_cons cutAlts
      obtain ⟨rfl, rfl⟩ := List.cons.inj only
      have noMore := eq_nil_of_mapM_zipIdx isMore
      obtain ⟨-, same⟩ := (sliceOf_eq_ok fun rng => expandMinuteSourceRange_le).mp isSlice
      have bnds := @inside_of_mem_intersectSegments (request.startNs, request.endNs)
        _ _ (mem ▸ mem_cons_self : seg ∈ intersectSegments
          known.sourceMappingSegments (request.startNs, request.endNs))
      obtain ⟨sameSym, sameRange, -⟩ := PlannedSourceSlice.mk.inj same
      obtain ⟨name, lo, stop⟩ := seg
      dsimp only at sameSym sameRange bnds wide
      subst sameSym sameRange
      dsimp only at wide
      obtain rfl : lo = request.startNs := by omega
      obtain rfl : stop = request.endNs := by omega
      exact ⟨by rw [noMore], hit⟩
  · rintro ⟨own, still⟩
    obtain rfl := Except.ok.inj (hit.symm.trans still)
    refine ⟨phys.symm, _, ?_, settleSlices_message ps.settled _⟩
    rw [own, zipIdx_cons, zipIdx_nil, mapM_cons, mapM_nil]
    have one : FrozenBacktestHistoryPlanBasis.sliceOf
        ⟨request.symbol, request.startNs, request.endNs⟩ (expandMinuteSourceRange
          (request.startNs, request.endNs) (request.durationNs.getD minuteKlineDurationNs)
          known.session) 0 = .ok ⟨request.symbol, (request.startNs, request.endNs), 0⟩ :=
      (sliceOf_eq_ok fun rng => expandMinuteSourceRange_le).mpr ⟨⟨_, still⟩, rfl⟩
    exact Result.bind_eq_ok.mpr ⟨_, one, rfl⟩

theorem PlanParts.minute_iff
    (ps : PlanParts parseDate cache request plan .canonicalMinute known slices)
    (notKq : startsWith request.symbol "KQ." = false) (fin : request.provisionalAsOfNs = none) :
    ReplansAlike parseDate request plan ↔ PlansAlike request .canonicalMinute known := by
  have phys := ps.physical_eq
  have cuts := ps.sliced
  rw [effectiveEndNs_final fin] at phys cuts
  rw [sourceSegments] at cuts
  dsimp only at cuts
  rw [if_pos (by simp [notKq])] at cuts
  have notMain : startsWith request.symbol "KQ.m@" = false := by
    cases main : startsWith request.symbol "KQ.m@" with
    | false => rfl
    | true =>
      rw [startsWith_kq main] at notKq
      cases notKq
  have mp : intersectSegments known.sourceMappingSegments (request.startNs, request.endNs) ≠
      [] := by
    intro emp
    rw [intersectSegments_eq, map_eq_nil_iff] at emp
    rw [emp] at cuts
    obtain rfl := Except.ok.inj cuts
    cases settleSlices_hull ps.settled
  have segs := @segmentsFor_basisOf request _ .canonicalMinute _ mp (.inl (by decide))
  have frz : (basisOf request .canonicalMinute known).slices
      (intersectSegments known.sourceMappingSegments (request.startNs, request.endNs))
      (request.startNs, request.endNs) = (do
        let rng ← expandMinuteSourceRange (request.startNs, request.endNs)
          (request.durationNs.getD minuteKlineDurationNs) known.session
        return [⟨request.symbol, rng, 0⟩]) := by
    rw [FrozenBacktestHistoryPlanBasis.slices]
    exact if_neg (by simp [basisOf, notKq])
  rw [ps.samePlan_iff fin fun main => absurd main (by simp [notMain]), segs, frz]
  simp only [PlansAlike, if_neg (show ¬ startsWith request.symbol "KQ." = true by simp [notKq])]
  constructor
  · rintro ⟨-, alts, cutAlts, doneAlts⟩
    obtain ⟨wide, hit, one⟩ := Result.of_bind cutAlts
    obtain rfl := Except.ok.inj one
    have notTick : PlannedBaseSource.canonicalMinute ≠ .tick := by decide
    have same : [⟨request.symbol, wide, 0⟩] = slices :=
      (settleSlices_slices notTick doneAlts).symm.trans (settleSlices_slices notTick ps.settled)
    subst same
    cases mem : overlapping known.sourceMappingSegments (request.startNs, request.endNs) with
    | nil => exact absurd (by rw [intersectSegments_eq, mem]; rfl) mp
    | cons seg rest =>
      rw [mem] at cuts
      obtain ⟨cut, more, isSlice, isMore, only⟩ := Result.of_mapM_cons cuts
      obtain ⟨rfl, rfl⟩ := List.cons.inj only
      have noMore := eq_nil_of_mapM_zipIdx isMore
      obtain ⟨part, isPart, same⟩ := mappedSlice_eq_ok isSlice
      obtain ⟨-, sameRange, -⟩ := PlannedSourceSlice.mk.inj same
      exact ⟨seg, wide, part, by rw [noMore], hit, isPart, sameRange.symm⟩
  · rintro ⟨seg, wide, part, mem, hit, isPart, sameRange⟩
    refine ⟨phys.symm, [⟨request.symbol, wide, 0⟩], Result.bind_eq_ok.mpr ⟨wide, hit, rfl⟩, ?_⟩
    rw [mem, zipIdx_cons, zipIdx_nil, mapM_cons, mapM_nil] at cuts
    obtain ⟨cut, isSlice, cuts⟩ := Result.of_bind cuts
    obtain rfl := Except.ok.inj cuts
    obtain ⟨rng, isRange, rfl⟩ := mappedSlice_eq_ok isSlice
    obtain rfl := Except.ok.inj (isPart.symm.trans isRange)
    rw [← sameRange]
    exact settleSlices_message ps.settled _

theorem PlanParts.daily_iff
    (ps : PlanParts parseDate cache request plan .canonicalDaily known slices)
    (fin : request.provisionalAsOfNs = none) :
    ReplansAlike parseDate request plan ↔ PlansAlike request .canonicalDaily known := by
  have phys := ps.physical_eq
  have cuts := ps.sliced
  rw [effectiveEndNs_final fin] at phys cuts
  have done : settleSlices parseDate .canonicalDaily known.tradingDays
      [⟨request.symbol, (request.startNs, request.endNs), 0⟩] "context plan has no source slices" =
      .ok (plan.expandedSourceRange, plan.provenEmptyRanges, plan.sourceSlices) := by
    obtain rfl := Except.ok.inj cuts
    exact settleSlices_message ps.settled _
  cases main : startsWith request.symbol "KQ.m@" with
  | true =>
    have mp := (ps.mapped fin (fun _ => main) nofun).2
    have segs := @segmentsFor_basisOf request _ .canonicalDaily _ mp (.inr main)
    rw [ps.samePlan_iff fin fun _ => by rw [segs]; exact mp, segs]
    exact ⟨fun _ => .inl main, fun _ => ⟨phys.symm, _, rfl, done⟩⟩
  | false =>
    have segs : (basisOf request .canonicalDaily known).segmentsFor
        (request.startNs, request.endNs) = [⟨request.symbol, request.startNs, request.endNs⟩] := by
      unfold FrozenBacktestHistoryPlanBasis.segmentsFor
      exact if_pos (by simp [basisOf, main])
    rw [ps.samePlan_iff fin fun isMain => absurd isMain (by simp [main]), segs,
      phys]
    simp only [PlansAlike, main, Bool.false_eq_true, false_or]
    exact ⟨fun same => same.1.symm, fun same => ⟨same.symm, _, rfl, done⟩⟩

/-- When the plan of the same range from a frozen basis reads what the plan it came from reads. -/
theorem planRange_samePlan_iff (final : request.provisionalAsOfNs = none)
    (planned : planRequest parseDate cache request = .ok plan) :
    (∃ frozen, plan.contextBasis.planRange parseDate request.requestId
        (request.startNs, request.endNs) = .ok frozen ∧ SamePlan frozen plan) ↔
      ∃ baseSource known, classifyRequest request = .ok baseSource ∧
        Known cache request baseSource known ∧ PlansAlike request baseSource known := by
  obtain ⟨baseSource, known, slices, ps⟩ := planRequest_parts planned
  have reduced : (∃ baseSource known, classifyRequest request = .ok baseSource ∧
      Known cache request baseSource known ∧ PlansAlike request baseSource known) ↔
      PlansAlike request baseSource known := by
    constructor
    · rintro ⟨alt, hit, classified, lookups, alike⟩
      obtain rfl := Except.ok.inj (classified.symm.trans ps.classified)
      obtain rfl := lookups.unique ps.lookups
      exact alike
    · exact fun alike => ⟨baseSource, known, ps.classified, ps.lookups, alike⟩
  rw [reduced]
  cases baseSource with
  | tick =>
    cases main : startsWith request.symbol "KQ.m@" with
    | true => exact ps.tick_main_iff main final
    | false => exact ps.tick_iff main final
  | canonicalMinute =>
    cases kq : startsWith request.symbol "KQ." with
    | true => exact ps.minute_kq_iff kq final
    | false => exact ps.minute_iff kq final
  | canonicalDaily => exact ps.daily_iff final

/-- A cache without metadata files. -/
def CacheMetadata.empty : CacheMetadata where
  resolveMinute _ _ _ := .ok none
  resolveBacktest _ _ _ := .ok none
  storedDaily _ := .ok none

/-- Five-minute bars from the first minute of a trading day on. -/
def offGridRequest : ValidatedBacktestHistoryRequest :=
  ⟨7, "SHFE.cu2501", .kline 300000000000, some 300000000000, 60000000000, 600000000000, none⟩

/-- The fresh plan starts at the requested minute, the frozen one at the bar before it. -/
theorem not_samePlan_offGrid : ∃ plan,
    planRequest (fun _ => .error "") .empty offGridRequest = .ok plan ∧
      ¬ ∃ frozen, plan.contextBasis.planRange (fun _ => .error "") offGridRequest.requestId
        (offGridRequest.startNs, offGridRequest.endNs) = .ok frozen ∧ SamePlan frozen plan := by
  have ne : (planRequest (fun _ => .error "") .empty offGridRequest).toOption.any
      (fun plan => (plan.contextBasis.planRange (fun _ => .error "") offGridRequest.requestId
        (offGridRequest.startNs, offGridRequest.endNs)).toOption.any fun frozen =>
          decide (frozen.sourceSlices ≠ plan.sourceSlices)) = true := by
    decide +kernel
  cases planned : planRequest (fun _ => .error "") .empty offGridRequest with
  | error error =>
    rw [planned] at ne
    cases ne
  | ok plan =>
    rw [planned] at ne
    refine ⟨plan, rfl, ?_⟩
    rintro ⟨frozen, again, same⟩
    simp only [Except.toOption, Option.any_some, again, decide_eq_true_eq] at ne
    exact ne same.sourceSlices

/-- A main contract that is rolled over within the second trading day. -/
def rolledOver : CacheMetadata :=
  { CacheMetadata.empty with
    resolveBacktest _ _ _ := .ok (some ⟨1, [], .cstTradingDay,
      [⟨"SHFE.cu2501", 0, 40000000000000⟩, ⟨"SHFE.cu2502", 40000000000000, 90000000000000⟩],
      "rolled-over"⟩) }

def dayTicksRequest : ValidatedBacktestHistoryRequest :=
  ⟨7, "KQ.m@SHFE.cu", .tick, none, 36000000000000, 50000000000000, none⟩

/-- The request starts with a trading day, so no segment is expanded beyond it. -/
theorem samePlan_dayTicks : ∃ plan,
    planRequest (fun _ => .error "") rolledOver dayTicksRequest = .ok plan ∧
      plan.sourceSlices = [⟨"SHFE.cu2501", (36000000000000, 40000000000000), 0⟩,
        ⟨"SHFE.cu2502", (40000000000000, 50000000000000), 1⟩] ∧
      ∃ frozen, plan.contextBasis.planRange (fun _ => .error "") dayTicksRequest.requestId
        (dayTicksRequest.startNs, dayTicksRequest.endNs) = .ok frozen ∧ SamePlan frozen plan := by
  have slices : (planRequest (fun _ => .error "") rolledOver dayTicksRequest).toOption.map
      (·.sourceSlices) = some [⟨"SHFE.cu2501", (36000000000000, 40000000000000), 0⟩,
        ⟨"SHFE.cu2502", (40000000000000, 50000000000000), 1⟩] := by
    decide +kernel
  cases planned : planRequest (fun _ => .error "") rolledOver dayTicksRequest with
  | error error =>
    rw [planned] at slices
    cases slices
  | ok plan =>
    rw [planned] at slices
    refine ⟨plan, rfl, Option.some.inj slices, (planRange_samePlan_iff rfl planned).mpr ?_⟩
    refine ⟨.tick, _, rfl, ⟨none, _, rfl, rfl, rfl⟩, fun _ segment mem expanded done => ?_⟩
    obtain rfl | rfl := List.mem_pair.mp mem <;> cases done <;> decide

end Agreement

end Tqsdk
