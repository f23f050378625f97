import Tqsdk.Data.TradingTimeline
import Tqsdk.Lib.Elapsed

/-!
# Trading time

`TradingTimeline` of `trading_timeline.rs`: how much trading time lies between two timestamps, and
where a timestamp comes to lie that moves by an amount of trading time.
-/

namespace Tqsdk

open List Result

/-- How a query ends that has no answer: with an error, or by a panic of the program. -/
inductive TimelineFault
  | error (error : DataError)
  | panic
  deriving DecidableEq

def timelineError {α : Type} (message : String) : Except TimelineFault α :=
  .error (.error (.validation message))

/-- The cast `as u128` of an `i128`. -/
def asU128 (value : Int) : Nat := (value % 2 ^ 128).toNat

/-- The cast `as i128` of a `u128`. -/
def asI128 (value : Nat) : Int := Int.bmod value (2 ^ 128)

def checkedU128 (value : Nat) (message : String) : Except TimelineFault Nat :=
  if value < 2 ^ 128 then .ok value else timelineError message

def TradingTimelineSnapshot.verify (digest : TimelineDigest) (snapshot : TradingTimelineSnapshot) :
    Except DataError Unit := do
  let normalized ← TradingTimelineSnapshot.normalize { snapshot with timelineHash := "" }
  if snapshot ≠ { normalized with timelineHash := snapshot.timelineHash } then
    .error (.validation "trading timeline snapshot is not canonical")
  else if snapshot.timelineHash ≠ digest.snapshot normalized then
    .error (.validation "trading timeline snapshot hash mismatch")
  else .ok ()

structure TradingTimeline where
  snapshot : TradingTimelineSnapshot
  cumulativeEndNs : List Nat

inductive TradingTimeDirection
  | forward
  | backward
  deriving DecidableEq

/-- The loop of `from_snapshot`. -/
def cumulativeEnds : Nat → List (Int × Int) → Except TimelineFault (List Nat)
  | _, [] => .ok []
  | total, interval :: rest => do
      let total ← checkedU128 (total + asU128 (interval.2 - interval.1))
        "trading timeline duration overflow"
      let ends ← cumulativeEnds total rest
      return total :: ends

/-- A `Duration` is given by its nanoseconds. -/
def durationFromNanos (nanos : Nat) : Except TimelineFault Nat :=
  if nanos / 1000000000 < 2 ^ 64 then .ok nanos else timelineError "trading duration overflow"

namespace TradingTimeline

def fromSnapshot (digest : TimelineDigest) (snapshot : TradingTimelineSnapshot) :
    Except TimelineFault TradingTimeline := do
  match snapshot.verify digest with
  | .error error => .error (.error error)
  | .ok () =>
    let cumulativeEndNs ← cumulativeEnds 0 snapshot.openIntervals
    return ⟨snapshot, cumulativeEndNs⟩

variable (timeline : TradingTimeline)

def requireKnownPoint (timestampNs : Int) : Except TimelineFault Unit :=
  let index := partitionPoint (fun range => decide (range.2 < timestampNs))
    timeline.snapshot.knownRanges
  if timeline.snapshot.knownRanges[index]?.any fun range =>
      decide (range.1 ≤ timestampNs ∧ timestampNs ≤ range.2) then .ok ()
  else timelineError "trading timeline does not cover anchor"

def requireKnown (startNs endNs : Int) : Except TimelineFault Unit :=
  if endNs < startNs then timelineError "timeline coverage requires start_ns <= end_ns"
  else if startNs = endNs then timeline.requireKnownPoint startNs
  else if rangeContains timeline.snapshot.knownRanges startNs endNs then .ok ()
  else timelineError "trading timeline has unknown wall-clock coverage"

/-- The trading time before the interval at an index. -/
def prior : Nat → Nat
  | 0 => 0
  | index + 1 => timeline.cumulativeEndNs[index]?.getD 0

def tradingOffsetAt (timestampNs : Int) : Except TimelineFault Nat :=
  let intervals := timeline.snapshot.openIntervals
  let index := partitionPoint (fun interval => decide (interval.2 ≤ timestampNs)) intervals
  match intervals[index]? with
  | none => .ok (timeline.prior index)
  | some interval =>
    if timestampNs ≤ interval.1 then .ok (timeline.prior index)
    else
      checkedU128 (timeline.prior index + asU128 (min timestampNs interval.2 - interval.1))
        "trading timeline duration overflow"

/-- The interval that an offset lies in.  At an exact close a forward traversal lands on that close,
a backward one on the open of the next session. -/
def offsetIndex (offsetNs : Nat) : TradingTimeDirection → Nat
  | .forward => partitionPoint (fun total => decide (total < offsetNs)) timeline.cumulativeEndNs
  | .backward => partitionPoint (fun total => decide (total ≤ offsetNs)) timeline.cumulativeEndNs

def wallTimeAtOffset (offsetNs : Nat) (direction : TradingTimeDirection) :
    Except TimelineFault Int :=
  if timeline.cumulativeEndNs.isEmpty then
    timelineError "trading timeline contains no open intervals"
  else
    let index := min (timeline.offsetIndex offsetNs direction)
      (timeline.snapshot.openIntervals.length - 1)
    let prior := timeline.prior index
    match timeline.snapshot.openIntervals[index]? with
    | none => .error .panic
    | some interval =>
      if offsetNs < prior then timelineError "invalid timeline offset"
      else
        let inside := offsetNs - prior
        if asU128 (interval.2 - interval.1) < inside then
          timelineError "trading timeline shift exceeds known trading time"
        else
          match I64.checked (interval.1 + asI128 inside) with
          | some point => .ok point
          | none => timelineError "trading timeline wall-clock overflow"

def tradingDurationBetween (startNs endNs : Int) : Except TimelineFault Nat :=
  if endNs < startNs then timelineError "trading duration requires start_ns <= end_ns"
  else do
    timeline.requireKnown startNs endNs
    let stop ← timeline.tradingOffsetAt endNs
    let start ← timeline.tradingOffsetAt startNs
    -- the difference of two `u128`
    if stop < start then .error .panic else durationFromNanos (stop - start)

def shift (timeline : TradingTimeline) (anchorNs : Int) (duration : Nat)
    (direction : TradingTimeDirection) : Except TimelineFault Int := do
  timeline.requireKnownPoint anchorNs
  if duration = 0 then return anchorNs
  else
    let offset ← timeline.tradingOffsetAt anchorNs
    match direction with
    | .forward =>
      let target ← checkedU128 (offset + duration) "trading timeline shift overflow"
      let result ← timeline.wallTimeAtOffset target .forward
      timeline.requireKnown anchorNs result
      return result
    | .backward =>
      if offset < duration then
        timelineError "trading timeline shift precedes known trading time"
      else
        let result ← timeline.wallTimeAtOffset (offset - duration) .backward
        timeline.requireKnown result anchorNs
        return result

end TradingTimeline

/-! ## Known time -/

/-- One range holds two timestamps. -/
def KnownTime (ranges : List (Int × Int)) (startNs endNs : Int) : Prop :=
  ∃ range ∈ ranges, range.1 ≤ startNs ∧ endNs ≤ range.2

theorem KnownTime.shrink {rngs : List (Int × Int)} {startNs endNs firstNs lastNs : Int}
    (seen : KnownTime rngs startNs endNs) (hd : startNs ≤ firstNs) (last : lastNs ≤ endNs) :
    KnownTime rngs firstNs lastNs := by
  obtain ⟨rng, mem, lo, stop⟩ := seen
  exact ⟨rng, mem, lo.trans hd, last.trans stop⟩

theorem rangeContains_iff {rngs : List (Int × Int)} (nrm : Ranges.Normal rngs)
    {startNs endNs : Int} (inOrd : startNs ≤ endNs) :
    rangeContains rngs startNs endNs = true ↔ KnownTime rngs startNs endNs := by
  induction rngs with
  | nil => exact ⟨nofun, fun ⟨_, member, _⟩ => by cases member⟩
  | cons rng rngs ih =>
    by_cases pre : rng.2 < startNs
    · have skipped : rangeContains (rng :: rngs) startNs endNs =
          rangeContains rngs startNs endNs := by
        unfold rangeContains
        rw [dropWhile_cons, if_pos (decide_eq_true pre)]
      rw [skipped, ih nrm.tail]
      constructor
      · rintro ⟨alt, member, mem⟩
        exact ⟨alt, mem_cons_of_mem _ member, mem⟩
      · rintro ⟨alt, member, lo, stop⟩
        rcases mem_cons.mp member with rfl | member
        · omega
        · exact ⟨alt, member, lo, stop⟩
    · have hit : rangeContains (rng :: rngs) startNs endNs =
          decide (rng.1 ≤ startNs ∧ endNs ≤ rng.2) := by
        unfold rangeContains
        rw [dropWhile_cons, if_neg (by simpa using pre)]
      rw [hit, decide_eq_true_eq]
      constructor
      · exact fun mem => ⟨rng, mem_cons_self, mem⟩
      · rintro ⟨alt, member, lo, stop⟩
        rcases mem_cons.mp member with rfl | member
        · exact ⟨lo, stop⟩
        · have post := rel_of_pairwise_cons nrm.2 member
          omega

/-- The binary search of `require_known_point` is the one of `range_contains`. -/
theorem any_partitionPoint (rngs : List (Int × Int)) (ts : Int) :
    (rngs[partitionPoint (fun rng => decide (rng.2 < ts)) rngs]?.any fun rng =>
      decide (rng.1 ≤ ts ∧ ts ≤ rng.2)) =
      rangeContains rngs ts ts := by
  induction rngs with
  | nil => rfl
  | cons rng rngs ih =>
    unfold partitionPoint rangeContains at *
    rw [takeWhile_cons, dropWhile_cons]
    split
    · exact ih
    · rfl

namespace TradingTimeline

/-- What holds of the timeline of a verified snapshot. -/
structure Sound (timeline : TradingTimeline) : Prop where
  known : Ranges.Normal timeline.snapshot.knownRanges
  opened : Ranges.Normal timeline.snapshot.openIntervals
  inRange : ∀ interval ∈ timeline.snapshot.openIntervals,
    I64.InRange interval.1 ∧ I64.InRange interval.2
  length : timeline.cumulativeEndNs.length = timeline.snapshot.openIntervals.length
  prior : ∀ index ≤ timeline.snapshot.openIntervals.length, (timeline.prior index : Int) =
    Ranges.total (timeline.snapshot.openIntervals.take index)

variable {timeline : TradingTimeline} {startNs endNs : Int}

/-- A range of time is known, or asking for it is an error. -/
theorem requireKnown_cases (sound : timeline.Sound) (startNs endNs : Int) :
    (startNs ≤ endNs ∧ KnownTime timeline.snapshot.knownRanges startNs endNs ∧
        timeline.requireKnown startNs endNs = .ok ()) ∨
      (¬(startNs ≤ endNs ∧ KnownTime timeline.snapshot.knownRanges startNs endNs) ∧
        ∃ error, timeline.requireKnown startNs endNs = .error (.error error)) := by
  unfold requireKnown
  split_ifs with reversed p seen
  · exact .inr ⟨fun seen => by omega, _, rfl⟩
  · subst p
    unfold requireKnownPoint
    dsimp only
    rw [any_partitionPoint]
    split_ifs with seen
    · exact .inl ⟨le_refl _, (rangeContains_iff sound.known (le_refl _)).mp seen, rfl⟩
    · exact .inr ⟨fun isKnown => seen ((rangeContains_iff sound.known (le_refl _)).mpr isKnown.2),
        _, rfl⟩
  · exact .inl ⟨by omega, (rangeContains_iff sound.known (by omega)).mp seen, rfl⟩
  · exact .inr ⟨fun isKnown => seen ((rangeContains_iff sound.known isKnown.1).mpr isKnown.2),
      _, rfl⟩

theorem requireKnown_self (ts : Int) :
    timeline.requireKnown ts ts = timeline.requireKnownPoint ts := by
  unfold requireKnown
  rw [if_neg (lt_irrefl _), if_pos rfl]

/-! ## Offsets -/

theorem asU128_eq {val : Int} (nn : 0 ≤ val) (small : val < 2 ^ 128) :
    (asU128 val : Int) = val := by
  unfold asU128
  omega

theorem asI128_eq {val : Nat} (small : val < 2 ^ 127) : asI128 val = val := by
  unfold asI128
  rw [Int.bmod_eq_of_le] <;> omega

/-- All intervals together are no longer than the way between two `i64`. -/
theorem total_le (live : Ranges.Normal timeline.snapshot.openIntervals)
    (inR : ∀ ivl ∈ timeline.snapshot.openIntervals, I64.InRange ivl.1 ∧ I64.InRange ivl.2) :
    Ranges.total timeline.snapshot.openIntervals ≤ 2 ^ 64 := by
  have inn := @Ranges.total_le _ I64.minimum I64.maximum live (by decide)
    fun ivl mem => ⟨(inR ivl mem).1.1, (inR ivl mem).2.2⟩
  unfold I64.minimum I64.maximum at inn
  omega

theorem cumulativeEnds_eq {lo : Nat} {ivls : List (Int × Int)} (ord : ∀ ivl ∈ ivls, ivl.1 < ivl.2)
    (small : lo + Ranges.total ivls < 2 ^ 128) :
    ∃ ends, cumulativeEnds lo ivls = .ok ends ∧ ends.length = ivls.length ∧
      ∀ idx < ivls.length, (ends[idx]?.getD 0 : Int) = lo + Ranges.total (ivls.take (idx + 1)) := by
  induction ivls generalizing lo with
  | nil => exact ⟨[], rfl, rfl, fun idx inn => absurd inn (Nat.not_lt_zero _)⟩
  | cons ivl rest ih =>
    have pos := ord ivl mem_cons_self
    have post := fun alt mem => ord alt (mem_cons_of_mem ivl mem)
    have restTotal := Ranges.total_nonneg post
    rw [Ranges.total_cons] at small
    have wid : (asU128 (ivl.2 - ivl.1) : Int) = ivl.2 - ivl.1 := asU128_eq (by omega) (by omega)
    obtain ⟨ends, eq, len, at_⟩ := @ih (lo + asU128 (ivl.2 - ivl.1)) post (by omega)
    refine ⟨(lo + asU128 (ivl.2 - ivl.1)) :: ends, ?_, congrArg Nat.succ len, ?_⟩
    · unfold cumulativeEnds checkedU128
      rw [if_pos (by omega), ok_bind, eq]
      rfl
    · intro idx inn
      rw [take_succ_cons, Ranges.total_cons]
      cases idx with
      | zero =>
        rw [getElem?_cons_zero, Option.getD_some, take_zero]
        have emp : Ranges.total [] = 0 := rfl
        omega
      | succ idx =>
        rw [getElem?_cons_succ, at_ idx (Nat.lt_of_succ_lt_succ inn)]
        omega

/-- A verified snapshot whose timestamps are `i64` has a timeline. -/
theorem sound_fromSnapshot {dig : TimelineDigest} {snap : TradingTimelineSnapshot}
    (typed : ∀ ivl ∈ snap.openIntervals, I64.InRange ivl.1 ∧ I64.InRange ivl.2)
    (verified : snap.verify dig = .ok ()) :
    ∃ timeline, fromSnapshot dig snap = .ok timeline ∧ timeline.snapshot = snap ∧
      timeline.Sound := by
  have verifiedEq := verified
  obtain ⟨norm, isNormalized, verified⟩ := of_bind verified
  obtain ⟨-, knownNe, knownEq, openNonempty, openEq, -⟩ :=
    TradingTimelineSnapshot.normalize_eq_ok isNormalized
  split_ifs at verified with alt
  have canonical := not_not.mp alt
  have sameKnown : norm.knownRanges = snap.knownRanges :=
    (congrArg TradingTimelineSnapshot.knownRanges canonical).symm
  have sameOpen : norm.openIntervals = snap.openIntervals :=
    (congrArg TradingTimelineSnapshot.openIntervals canonical).symm
  have seen : Ranges.Normal snap.knownRanges := by
    rw [← sameKnown, knownEq]
    exact Ranges.normal_coalesce_sort knownNe
  have opn : Ranges.Normal snap.openIntervals := by
    rw [← sameOpen, openEq]
    exact Ranges.normal_coalesce_sort openNonempty
  have total := @total_le ⟨snap, []⟩ opn typed
  obtain ⟨ends, eq, len, at_⟩ := @cumulativeEnds_eq 0 snap.openIntervals opn.1
    (by dsimp only at total; omega)
  refine ⟨⟨snap, ends⟩, ?_, rfl, seen, opn, typed, len, ?_⟩
  · unfold fromSnapshot
    rw [verifiedEq]
    dsimp only
    rw [eq]
    rfl
  · intro idx mem
    cases idx with
    | zero => rfl
    | succ idx =>
      have hit := at_ idx mem
      rw [Int.natCast_zero, zero_add] at hit
      exact hit

/-- The offset of a timestamp is the trading time before it. -/
theorem tradingOffsetAt_eq (sound : timeline.Sound) (ts : Int) :
    timeline.tradingOffsetAt ts =
      .ok (Ranges.elapsed timeline.snapshot.openIntervals ts).toNat := by
  obtain ⟨done, rest, split, idx, fin, next⟩ := partitionPoint_split
    (fun ivl => decide (ivl.2 ≤ ts)) timeline.snapshot.openIntervals
  have total := total_le sound.opened sound.inRange
  have bnd := Ranges.elapsed_le_total sound.opened.1 ts
  have nn := Ranges.elapsed_nonneg timeline.snapshot.openIntervals ts
  have prior := sound.prior done.length (by rw [split, length_append]; omega)
  have opn := sound.opened
  rw [split, take_left' rfl] at prior
  have doneTotal : Ranges.elapsed done ts = Ranges.total done :=
    Ranges.elapsed_of_after (fun ivl mem => opn.1 ivl
      (split ▸ mem_append_left _ mem))
      fun ivl mem => of_decide_eq_true (fin ivl mem)
  unfold tradingOffsetAt
  dsimp only
  rw [idx]
  cases rest with
  | nil =>
    rw [append_nil] at split
    rw [split, getElem?_eq_none (le_refl _), doneTotal, ← prior]
    rfl
  | cons ivl rest =>
    have hit : timeline.snapshot.openIntervals[done.length]? = some ivl := by
      rw [split, getElem?_append_right (le_refl _), Nat.sub_self]
      rfl
    have notEnded := next ivl rfl
    rw [decide_eq_false_iff_not] at notEnded
    rw [split] at opn total bnd nn
    rw [hit]
    dsimp only
    split_ifs with pre
    · have none : Ranges.elapsed (ivl :: rest) ts = 0 := by
        refine Ranges.elapsed_of_before (forall_mem_cons.mpr ⟨pre, ?_⟩)
        intro post mem
        have sep := (Ranges.sides opn).2.1 post mem
        omega
      rw [split, Ranges.elapsed_append, doneTotal, none, ← prior, add_zero]
      rfl
    · have inn := Ranges.elapsed_inside opn ts (by omega) (by omega)
      have earlier : (asU128 (min ts ivl.2 - ivl.1) : Int) =
          ts - ivl.1 := by
        rw [asU128_eq] <;> omega
      unfold checkedU128
      rw [if_pos (by omega), split, inn]
      congr 1
      omega

/-! ## Timestamps at an offset -/

variable {offsetNs : Nat} {done rest : List Nat}

/-- What holds of every total that the search has passed holds of the time before the index. -/
theorem prior_of_done (split : timeline.cumulativeEndNs = done ++ rest) (property : Nat → Prop)
    (none : property 0) (all : ∀ total ∈ done, property total) :
    property (timeline.prior done.length) := by
  cases len : done.length with
  | zero => exact none
  | succ last =>
    have mem : last < done.length := by omega
    have hit : timeline.cumulativeEndNs[last]? = some (done[last]) := by
      rw [split, getElem?_append_left mem, getElem?_eq_getElem mem]
    have isPrior : timeline.prior (last + 1) = done[last] := congrArg (Option.getD · 0) hit
    rw [isPrior]
    exact all _ (getElem_mem mem)

theorem prior_succ {total : Nat} (split : timeline.cumulativeEndNs = done ++ total :: rest) :
    timeline.prior (done.length + 1) = total := by
  have hit : timeline.cumulativeEndNs[done.length]? = some total := by
    rw [split, getElem?_append_right (le_refl _), Nat.sub_self]
    rfl
  exact congrArg (Option.getD · 0) hit

section

variable (sound : timeline.Sound)

include sound

/-- The search ends at an interval that holds the offset. -/
theorem wallTimeAtOffset_eq {dir : TradingTimeDirection} {done rest : List (Int × Int)}
    {ivl : Int × Int} (split : timeline.snapshot.openIntervals = done ++ ivl :: rest)
    (idx : timeline.offsetIndex offsetNs dir = done.length) (low : Ranges.total done ≤ offsetNs)
    (high : offsetNs ≤ Ranges.total done + (ivl.2 - ivl.1)) :
    timeline.wallTimeAtOffset offsetNs dir = .ok (ivl.1 + (offsetNs - Ranges.total done)) := by
  have len : timeline.snapshot.openIntervals.length = done.length + (rest.length + 1) := by
    rw [split, length_append, length_cons]
  have pre := sound.prior done.length (by omega)
  rw [split, take_left' rfl] at pre
  have hit : timeline.snapshot.openIntervals[done.length]? = some ivl := by
    rw [split, getElem?_append_right (le_refl _), Nat.sub_self]
    rfl
  have ne : timeline.cumulativeEndNs.isEmpty = false := by
    rw [isEmpty_eq_false_iff, ← length_pos_iff, sound.length, len]
    omega
  obtain ⟨hd, last⟩ := sound.inRange ivl (split ▸ mem_append_right _ mem_cons_self)
  have wid : (asU128 (ivl.2 - ivl.1) : Int) = ivl.2 - ivl.1 := by
    unfold I64.InRange I64.minimum I64.maximum at hd last
    rw [asU128_eq] <;> omega
  have began : ¬offsetNs < timeline.prior done.length := by omega
  have win : ¬asU128 (ivl.2 - ivl.1) < offsetNs - timeline.prior done.length := by omega
  have inR : I64.InRange (ivl.1 + (offsetNs - Ranges.total done)) :=
    ⟨hd.1.trans (by omega), le_trans (by omega) last.2⟩
  have mem : asI128 (offsetNs - timeline.prior done.length) =
      offsetNs - Ranges.total done := by
    unfold I64.InRange I64.minimum I64.maximum at hd last
    rw [asI128_eq] <;> omega
  have clamped : min (timeline.offsetIndex offsetNs dir)
      (timeline.snapshot.openIntervals.length - 1) = done.length := by
    rw [idx]
    omega
  unfold wallTimeAtOffset
  rw [ne, if_neg Bool.false_ne_true]
  dsimp only
  rw [clamped, hit]
  dsimp only
  rw [if_neg began, if_neg win, mem, I64.checked_eq_some.mpr ⟨inR, rfl⟩]

theorem wallTimeAtOffset_error {dir : TradingTimeDirection}
    (idx : timeline.offsetIndex offsetNs dir = timeline.cumulativeEndNs.length)
    (beyond : Ranges.total timeline.snapshot.openIntervals < offsetNs) :
    ∃ error, timeline.wallTimeAtOffset offsetNs dir = .error (.error error) := by
  unfold wallTimeAtOffset
  split_ifs with emp
  · exact ⟨_, rfl⟩
  · obtain ⟨done, ivl, split⟩ : ∃ done ivl,
        timeline.snapshot.openIntervals = done ++ [ivl] := by
      rcases eq_nil_or_concat' timeline.snapshot.openIntervals with none | some
      · have len := sound.length
        rw [none, length_nil, length_eq_zero_iff] at len
        exact absurd (isEmpty_iff.mpr len) emp
      · exact some
    have len : timeline.snapshot.openIntervals.length = done.length + 1 := by
      rw [split, length_append, length_singleton]
    have clamped : min (timeline.offsetIndex offsetNs dir)
        (timeline.snapshot.openIntervals.length - 1) = done.length := by
      rw [idx, sound.length]
      omega
    have pre := sound.prior done.length (by omega)
    rw [split, take_left' rfl] at pre
    have hit : timeline.snapshot.openIntervals[done.length]? = some ivl := by
      rw [split, getElem?_append_right (le_refl _), Nat.sub_self]
      rfl
    have pos := sound.opened.1 ivl (split ▸ mem_append_right _ mem_cons_self)
    have total := total_le sound.opened sound.inRange
    have doneTotal := Ranges.total_nonneg fun alt mem =>
      sound.opened.1 alt (split ▸ mem_append_left [ivl] mem)
    have lastTotal : Ranges.total [ivl] = ivl.2 - ivl.1 := by
      rw [Ranges.total_cons]
      exact add_zero _
    rw [split, Ranges.total_append, lastTotal] at beyond total
    have wid : (asU128 (ivl.2 - ivl.1) : Int) = ivl.2 - ivl.1 := by rw [asU128_eq] <;> omega
    dsimp only
    rw [clamped, hit]
    dsimp only
    rw [if_neg (by omega), if_pos (by omega)]
    exact ⟨_, rfl⟩

/-- The interval that a search over the totals ended at. -/
theorem split_of_done {total : Nat} (split : timeline.cumulativeEndNs = done ++ total :: rest) :
    ∃ earlier ivl post, timeline.snapshot.openIntervals = earlier ++ ivl :: post ∧
      earlier.length = done.length ∧ (timeline.prior done.length : Int) = Ranges.total earlier ∧
      (total : Int) = Ranges.total earlier + (ivl.2 - ivl.1) := by
  have len := sound.length
  rw [split, length_append, length_cons] at len
  have mem : done.length < timeline.snapshot.openIntervals.length := by omega
  have cut : timeline.snapshot.openIntervals = timeline.snapshot.openIntervals.take done.length ++
      timeline.snapshot.openIntervals[done.length] ::
        timeline.snapshot.openIntervals.drop (done.length + 1) := by
    rw [getElem_cons_drop, take_append_drop]
  have next := sound.prior (done.length + 1) mem
  rw [prior_succ split, take_succ_eq_append_getElem mem, Ranges.total_append,
    Ranges.total_cons] at next
  refine ⟨_, _, _, cut, length_take_of_le mem.le, sound.prior done.length mem.le, ?_⟩
  rw [next]
  exact congrArg _ (add_zero _)

/-- Forwards an offset is found where it is first reached, if it is reached. -/
theorem wallTimeAtOffset_forward (pos : 0 < offsetNs) :
    (∃ res, timeline.wallTimeAtOffset offsetNs .forward = .ok res ∧
      IsLeast { p | Ranges.elapsed timeline.snapshot.openIntervals p = offsetNs } res) ∨
    ((∀ p, Ranges.elapsed timeline.snapshot.openIntervals p < offsetNs) ∧
      ∃ error, timeline.wallTimeAtOffset offsetNs .forward = .error (.error error)) := by
  obtain ⟨done, rest, split, idx, pre, next⟩ := partitionPoint_split
    (fun total => decide (total < offsetNs)) timeline.cumulativeEndNs
  have low : timeline.prior done.length < offsetNs := prior_of_done split
    (fun total => total < offsetNs) pos
    fun total mem => of_decide_eq_true (pre total mem)
  cases rest with
  | nil =>
    rw [append_nil] at split
    have all := sound.prior timeline.snapshot.openIntervals.length (le_refl _)
    rw [take_length, ← sound.length, split] at all
    have beyond : Ranges.total timeline.snapshot.openIntervals < offsetNs := by omega
    refine .inr ⟨fun p => (Ranges.elapsed_le_total sound.opened.1 p).trans_lt beyond, ?_⟩
    exact wallTimeAtOffset_error sound (idx.trans (congrArg List.length split).symm) beyond
  | cons total rest =>
    obtain ⟨earlier, ivl, post, ivls, len, prior, all⟩ := split_of_done sound split
    have rch := next total rfl
    rw [decide_eq_false_iff_not] at rch
    have opn := sound.opened
    rw [ivls] at opn
    have least := Ranges.isLeast_elapsed opn (offsetNs - Ranges.total earlier) (by omega) (by omega)
    rw [add_sub_cancel, ← ivls] at least
    exact .inl ⟨_, wallTimeAtOffset_eq sound ivls (idx.trans len.symm) (by omega)
      (by omega), least⟩

/-- Backwards an offset before the last one is found where it is last reached. -/
theorem wallTimeAtOffset_backward (within : offsetNs < Ranges.total timeline.snapshot.openIntervals)
    :
    ∃ result, timeline.wallTimeAtOffset offsetNs .backward = .ok result ∧
      IsGreatest { point | Ranges.elapsed timeline.snapshot.openIntervals point = offsetNs }
        result := by
  obtain ⟨done, rest, split, idx, pre, next⟩ := partitionPoint_split
    (fun total => decide (total ≤ offsetNs)) timeline.cumulativeEndNs
  have low : timeline.prior done.length ≤ offsetNs := prior_of_done split
    (fun total => total ≤ offsetNs) (Nat.zero_le _)
    fun total mem => of_decide_eq_true (pre total mem)
  cases rest with
  | nil =>
    rw [append_nil] at split
    have whole := sound.prior timeline.snapshot.openIntervals.length (le_refl _)
    rw [take_length, ← sound.length, split] at whole
    omega
  | cons total rest =>
    obtain ⟨earlier, ivl, post, intervals, len, prior, whole⟩ := split_of_done sound split
    have reach := next total rfl
    rw [decide_eq_false_iff_not] at reach
    have opn := sound.opened
    rw [intervals] at opn
    have greatest := Ranges.isGreatest_elapsed opn (offsetNs - Ranges.total earlier) (by omega)
      (by omega)
    rw [add_sub_cancel, ← intervals] at greatest
    exact ⟨_, wallTimeAtOffset_eq sound intervals (idx.trans len.symm) (by omega)
      (by omega), greatest⟩

/-! ## Durations -/

/-- A duration is the trading time between two timestamps of one known range, and otherwise an
error. -/
theorem tradingDurationBetween_cases (startNs endNs : Int) :
    (startNs ≤ endNs ∧ KnownTime timeline.snapshot.knownRanges startNs endNs ∧
        timeline.tradingDurationBetween startNs endNs =
          .ok (Ranges.lengthWithin timeline.snapshot.openIntervals startNs endNs).toNat) ∨
      (¬(startNs ≤ endNs ∧ KnownTime timeline.snapshot.knownRanges startNs endNs) ∧
        ∃ error, timeline.tradingDurationBetween startNs endNs = .error (.error error)) := by
  unfold tradingDurationBetween
  split_ifs with reversed
  · exact .inr ⟨fun seen => by omega, _, rfl⟩
  · rcases requireKnown_cases sound startNs endNs with
      ⟨inOrder, seen, isKnown⟩ | ⟨unknown, error, isError⟩
    · refine .inl ⟨inOrder, seen, ?_⟩
      have mono := Ranges.elapsed_mono timeline.snapshot.openIntervals inOrder
      have hd := Ranges.elapsed_nonneg timeline.snapshot.openIntervals startNs
      have last := Ranges.elapsed_le_total sound.opened.1 endNs
      have total := total_le sound.opened sound.inRange
      rw [isKnown, ok_bind, tradingOffsetAt_eq sound, ok_bind,
        tradingOffsetAt_eq sound, ok_bind, if_neg (by omega),
        Ranges.lengthWithin_eq sound.opened.1 inOrder]
      unfold durationFromNanos
      rw [if_pos (by omega)]
      congr 1
      omega
    · refine .inr ⟨unknown, error, ?_⟩
      rw [isError]
      rfl

/-- The duration to a timestamp of the same known range, as offsets. -/
theorem tradingDurationBetween_eq_ok {dur : Nat} :
    timeline.tradingDurationBetween startNs endNs = .ok dur ↔
      startNs ≤ endNs ∧ KnownTime timeline.snapshot.knownRanges startNs endNs ∧
        Ranges.elapsed timeline.snapshot.openIntervals endNs =
          Ranges.elapsed timeline.snapshot.openIntervals startNs + dur := by
  rcases tradingDurationBetween_cases sound startNs endNs with
    ⟨inOrd, seen, eq⟩ | ⟨unknown, error, eq⟩
  · have mono := Ranges.elapsed_mono timeline.snapshot.openIntervals inOrd
    rw [eq, Ranges.lengthWithin_eq sound.opened.1 inOrd, Except.ok.injEq]
    constructor
    · exact fun same => ⟨inOrd, seen, by omega⟩
    · rintro ⟨-, -, same⟩
      omega
  · rw [eq]
    exact ⟨nofun, fun ⟨inOrd, seen, _⟩ => absurd ⟨inOrd, seen⟩ unknown⟩

/-- The two shorter ways of a known way are known, and their durations add up. -/
theorem tradingDurationBetween_add {startNs middleNs endNs : Int} {dur : Nat}
    (hd : startNs ≤ middleNs) (snd : middleNs ≤ endNs)
    (all : timeline.tradingDurationBetween startNs endNs = .ok dur) :
    ∃ pre post, timeline.tradingDurationBetween startNs middleNs = .ok pre ∧
      timeline.tradingDurationBetween middleNs endNs = .ok post ∧ pre + post = dur := by
  obtain ⟨-, ⟨rng, mem, lo, stop⟩, offsets⟩ := (tradingDurationBetween_eq_ok sound).mp all
  have beforeMono := Ranges.elapsed_mono timeline.snapshot.openIntervals hd
  have afterMono := Ranges.elapsed_mono timeline.snapshot.openIntervals snd
  refine ⟨(Ranges.elapsed timeline.snapshot.openIntervals middleNs -
      Ranges.elapsed timeline.snapshot.openIntervals startNs).toNat,
    (Ranges.elapsed timeline.snapshot.openIntervals endNs -
      Ranges.elapsed timeline.snapshot.openIntervals middleNs).toNat,
    (tradingDurationBetween_eq_ok sound).mpr ⟨hd, ⟨rng, mem, lo, snd.trans stop⟩, by omega⟩,
    (tradingDurationBetween_eq_ok sound).mpr
      ⟨snd, ⟨rng, mem, lo.trans hd, stop⟩, by omega⟩, by omega⟩

/-! ## Shifts -/

/-- A shift first asks for its anchor. -/
theorem requireKnownPoint_cases (anch : Int) :
    (KnownTime timeline.snapshot.knownRanges anch anch ∧
        timeline.requireKnownPoint anch = .ok ()) ∨
      (¬KnownTime timeline.snapshot.knownRanges anch anch ∧
        ∃ error, timeline.requireKnownPoint anch = .error (.error error)) := by
  rw [← requireKnown_self]
  rcases requireKnown_cases sound anch anch with ⟨-, seen, eq⟩ | ⟨miss, eq⟩
  · exact .inl ⟨seen, eq⟩
  · exact .inr ⟨fun seen => miss ⟨le_refl _, seen⟩, eq⟩

theorem tradingDurationBetween_self {anch : Int}
    (seen : KnownTime timeline.snapshot.knownRanges anch anch) :
    timeline.tradingDurationBetween anch anch = .ok 0 :=
  (tradingDurationBetween_eq_ok sound).mpr ⟨le_refl _, seen, (add_zero _).symm⟩

/-- Forwards a shift ends at the first timestamp of its duration, if there is one. -/
theorem shift_forward_cases (anchorNs : Int) (duration : Nat) :
    (∃ res, timeline.shift anchorNs duration .forward = .ok res ∧
      IsLeast { point | timeline.tradingDurationBetween anchorNs point = .ok duration } res) ∨
    ((∀ point, timeline.tradingDurationBetween anchorNs point ≠ .ok duration) ∧
      ∃ error, timeline.shift anchorNs duration .forward = .error (.error error)) := by
  have offset := Ranges.elapsed_nonneg timeline.snapshot.openIntervals anchorNs
  have total := total_le sound.opened sound.inRange
  unfold shift
  rcases requireKnownPoint_cases sound anchorNs with ⟨known, isKnown⟩ | ⟨miss, error, err⟩
  · rw [isKnown, ok_bind]
    split_ifs with none
    · refine .inl ⟨anchorNs, rfl, ?_, ?_⟩
      · rw [Set.mem_ofPred_eq, none]
        exact tradingDurationBetween_self sound known
      · exact fun point reach => ((tradingDurationBetween_eq_ok sound).mp reach).1
    · rw [tradingOffsetAt_eq sound, ok_bind]
      dsimp only
      unfold checkedU128
      split_ifs with small
      · rw [ok_bind]
        have pos : 0 < (Ranges.elapsed timeline.snapshot.openIntervals anchorNs).toNat +
            duration := by omega
        rcases wallTimeAtOffset_forward sound pos with
          ⟨res, eq, reach, least⟩ | ⟨never, error, eq⟩
        · rw [eq, ok_bind]
          rw [Set.mem_ofPred_eq] at reach
          have hd : ∀ point, timeline.tradingDurationBetween anchorNs point = .ok duration →
              res ≤ point := by
            intro point btw
            obtain ⟨-, -, offsets⟩ := (tradingDurationBetween_eq_ok sound).mp btw
            refine least ?_
            rw [Set.mem_ofPred_eq]
            omega
          rcases requireKnown_cases sound anchorNs res with
            ⟨inOrder, path, isPath⟩ | ⟨miss, error, err⟩
          · rw [isPath]
            refine .inl ⟨res, rfl, ?_, fun point btw => hd point btw⟩
            exact (tradingDurationBetween_eq_ok sound).mpr ⟨inOrder, path, by omega⟩
          · rw [err]
            refine .inr ⟨fun point btw => miss ⟨?_, ?_⟩, error, rfl⟩
            · by_contra before
              have mono := Ranges.elapsed_mono timeline.snapshot.openIntervals (not_le.mp before).le
              omega
            · exact ((tradingDurationBetween_eq_ok sound).mp btw).2.1.shrink (le_refl _)
                (hd point btw)
        · rw [eq]
          refine .inr ⟨fun point btw => ?_, error, rfl⟩
          obtain ⟨-, -, offsets⟩ := (tradingDurationBetween_eq_ok sound).mp btw
          have lt := never point
          omega
      · refine .inr ⟨fun point btw => ?_, _, rfl⟩
        obtain ⟨-, -, offsets⟩ := (tradingDurationBetween_eq_ok sound).mp btw
        have lt := Ranges.elapsed_le_total sound.opened.1 point
        omega
  · rw [err]
    refine .inr ⟨fun point btw => ?_, error, rfl⟩
    obtain ⟨inOrder, known, -⟩ := (tradingDurationBetween_eq_ok sound).mp btw
    exact miss (known.shrink (le_refl _) inOrder)

/-- Backwards a shift ends at the last timestamp of its duration, if there is one. -/
theorem shift_backward_cases (anchorNs : Int) (duration : Nat) :
    (∃ result, timeline.shift anchorNs duration .backward = .ok result ∧
      IsGreatest { point | timeline.tradingDurationBetween point anchorNs = .ok duration } result) ∨
    ((∀ point, timeline.tradingDurationBetween point anchorNs ≠ .ok duration) ∧
      ∃ error, timeline.shift anchorNs duration .backward = .error (.error error)) := by
  have offset := Ranges.elapsed_nonneg timeline.snapshot.openIntervals anchorNs
  have bnd := Ranges.elapsed_le_total sound.opened.1 anchorNs
  unfold shift
  rcases requireKnownPoint_cases sound anchorNs with ⟨known, isKnown⟩ | ⟨miss, error, err⟩
  · rw [isKnown, ok_bind]
    split_ifs with none
    · refine .inl ⟨anchorNs, rfl, ?_, ?_⟩
      · rw [Set.mem_ofPred_eq, none]
        exact tradingDurationBetween_self sound known
      · exact fun point reach => ((tradingDurationBetween_eq_ok sound).mp reach).1
    · rw [tradingOffsetAt_eq sound, ok_bind]
      dsimp only
      split_ifs with precedes
      · refine .inr ⟨fun point btw => ?_, _, rfl⟩
        obtain ⟨-, -, offsets⟩ := (tradingDurationBetween_eq_ok sound).mp btw
        have pre := Ranges.elapsed_nonneg timeline.snapshot.openIntervals point
        omega
      · have win : ((Ranges.elapsed timeline.snapshot.openIntervals anchorNs).toNat -
            duration : Nat) < Ranges.total timeline.snapshot.openIntervals := by omega
        obtain ⟨result, eq, reach, greatest⟩ := wallTimeAtOffset_backward sound win
        rw [eq, ok_bind]
        rw [Set.mem_ofPred_eq] at reach
        have last : ∀ point, timeline.tradingDurationBetween point anchorNs = .ok duration →
            point ≤ result := by
          intro point btw
          obtain ⟨-, -, offsets⟩ := (tradingDurationBetween_eq_ok sound).mp btw
          refine greatest ?_
          rw [Set.mem_ofPred_eq]
          omega
        rcases requireKnown_cases sound result anchorNs with
          ⟨inOrder, path, isPath⟩ | ⟨miss, error, err⟩
        · rw [isPath]
          refine .inl ⟨result, rfl, ?_, fun point btw => last point btw⟩
          exact (tradingDurationBetween_eq_ok sound).mpr ⟨inOrder, path, by omega⟩
        · rw [err]
          refine .inr ⟨fun point btw => miss ⟨?_, ?_⟩, error, rfl⟩
          · by_contra after
            have mono := Ranges.elapsed_mono timeline.snapshot.openIntervals (not_le.mp after).le
            omega
          · exact ((tradingDurationBetween_eq_ok sound).mp btw).2.1.shrink (last point btw)
              (le_refl _)
  · rw [err]
    refine .inr ⟨fun point btw => ?_, error, rfl⟩
    obtain ⟨inOrder, known, -⟩ := (tradingDurationBetween_eq_ok sound).mp btw
    exact miss (known.shrink inOrder (le_refl _))

end

end TradingTimeline

/-- Trading time of a verified snapshot, whose timestamps are `i64`: a duration is the length of the
open intervals between two timestamps of one known range and adds up; a shift ends at the nearest
timestamp of its duration, forwards the first and backwards the last, and has no answer only where
there is none; and no query panics. -/
theorem TradingTimeline.shift_inverts_duration {digest : TimelineDigest}
    {snapshot : TradingTimelineSnapshot}
    (typed : ∀ interval ∈ snapshot.openIntervals, I64.InRange interval.1 ∧ I64.InRange interval.2)
    (verified : snapshot.verify digest = .ok ()) :
    ∃ timeline, fromSnapshot digest snapshot = .ok timeline ∧
      (∀ startNs endNs, (∃ duration, timeline.tradingDurationBetween startNs endNs = .ok duration) ↔
        startNs ≤ endNs ∧ KnownTime snapshot.knownRanges startNs endNs) ∧
      (∀ startNs endNs duration, timeline.tradingDurationBetween startNs endNs = .ok duration →
        (duration : Int) = Ranges.lengthWithin snapshot.openIntervals startNs endNs) ∧
      (∀ startNs middleNs endNs duration, startNs ≤ middleNs → middleNs ≤ endNs →
        timeline.tradingDurationBetween startNs endNs = .ok duration →
        ∃ before after, timeline.tradingDurationBetween startNs middleNs = .ok before ∧
          timeline.tradingDurationBetween middleNs endNs = .ok after ∧ before + after = duration) ∧
      (∀ anchorNs duration, (∃ result, timeline.shift anchorNs duration .forward = .ok result) ↔
        ∃ point, timeline.tradingDurationBetween anchorNs point = .ok duration) ∧
      (∀ anchorNs duration result, timeline.shift anchorNs duration .forward = .ok result →
        IsLeast { point | timeline.tradingDurationBetween anchorNs point = .ok duration } result) ∧
      (∀ anchorNs duration, (∃ result, timeline.shift anchorNs duration .backward = .ok result) ↔
        ∃ point, timeline.tradingDurationBetween point anchorNs = .ok duration) ∧
      (∀ anchorNs duration result, timeline.shift anchorNs duration .backward = .ok result →
        IsGreatest { point | timeline.tradingDurationBetween point anchorNs = .ok duration }
          result) ∧
      (∀ startNs endNs, timeline.tradingDurationBetween startNs endNs ≠ .error .panic) ∧
      ∀ anchorNs duration direction,
        timeline.shift anchorNs duration direction ≠ .error .panic := by
  obtain ⟨timeline, isTimeline, rfl, sound⟩ := sound_fromSnapshot typed verified
  refine ⟨timeline, isTimeline, ?_, ?_, fun _ _ _ _ => tradingDurationBetween_add sound, ?_, ?_, ?_,
    ?_, ?_, ?_⟩
  · intro startNs endNs
    rcases tradingDurationBetween_cases sound startNs endNs with
      ⟨inOrd, seen, eq⟩ | ⟨unknown, error, eq⟩
    · exact ⟨fun _ => ⟨inOrd, seen⟩, fun _ => ⟨_, eq⟩⟩
    · rw [eq]
      exact ⟨nofun, fun seen => absurd seen unknown⟩
  · intro startNs endNs duration btw
    obtain ⟨inOrd, -, offsets⟩ := (tradingDurationBetween_eq_ok sound).mp btw
    rw [Ranges.lengthWithin_eq sound.opened.1 inOrd]
    omega
  · intro anchorNs duration
    rcases shift_forward_cases sound anchorNs duration with
      ⟨result, eq, low⟩ | ⟨never, error, eq⟩
    · exact ⟨fun _ => ⟨result, low.1⟩, fun _ => ⟨result, eq⟩⟩
    · rw [eq]
      exact ⟨nofun, fun ⟨point, btw⟩ => absurd btw (never point)⟩
  · intro anchorNs duration result hit
    rcases shift_forward_cases sound anchorNs duration with ⟨alt, eq, low⟩ | ⟨-, error, eq⟩
    · rw [← Except.ok.inj (eq.symm.trans hit)]
      exact low
    · cases eq.symm.trans hit
  · intro anchorNs duration
    rcases shift_backward_cases sound anchorNs duration with
      ⟨result, eq, greatest⟩ | ⟨never, error, eq⟩
    · exact ⟨fun _ => ⟨result, greatest.1⟩, fun _ => ⟨result, eq⟩⟩
    · rw [eq]
      exact ⟨nofun, fun ⟨point, btw⟩ => absurd btw (never point)⟩
  · intro anchorNs duration result hit
    rcases shift_backward_cases sound anchorNs duration with
      ⟨alt, eq, greatest⟩ | ⟨-, error, eq⟩
    · rw [← Except.ok.inj (eq.symm.trans hit)]
      exact greatest
    · cases eq.symm.trans hit
  · intro startNs endNs panics
    rcases tradingDurationBetween_cases sound startNs endNs with ⟨-, -, eq⟩ | ⟨-, error, eq⟩ <;>
      cases eq.symm.trans panics
  · intro anchorNs duration direction panics
    cases direction with
    | forward =>
      rcases shift_forward_cases sound anchorNs duration with ⟨_, eq, -⟩ | ⟨-, error, eq⟩ <;>
        cases eq.symm.trans panics
    | backward =>
      rcases shift_backward_cases sound anchorNs duration with ⟨_, eq, -⟩ | ⟨-, error, eq⟩ <;>
        cases eq.symm.trans panics

/-- Two sessions of a day with a break between them. -/
def sampleSessions : TradingTimelineSnapshot :=
  ⟨1, "", ⟨"SHFE", "rb", "KQ.m@SHFE.rb", "rules", "evidence"⟩, [(0, 100)], [(10, 20), (30, 40)], []⟩

def noDigest : TimelineDigest := ⟨fun _ => "", fun _ => ""⟩

theorem TradingTimeline.shift_inverts_duration_break :
    fromSnapshot noDigest sampleSessions = .ok ⟨sampleSessions, [10, 20]⟩ ∧
      shift ⟨sampleSessions, [10, 20]⟩ 15 5 .forward = .ok 20 ∧
      shift ⟨sampleSessions, [10, 20]⟩ 35 5 .backward = .ok 30 ∧
      IsGreatest { point | tradingDurationBetween ⟨sampleSessions, [10, 20]⟩ point 35 = .ok 5 }
        30 := by
  have made : fromSnapshot noDigest sampleSessions = .ok ⟨sampleSessions, [10, 20]⟩ := by rfl
  obtain ⟨timeline, isTimeline, -, -, -, -, -, -, top, -⟩ :=
    @shift_inverts_duration noDigest sampleSessions (by decide +kernel) (by decide +kernel)
  obtain rfl := Except.ok.inj (isTimeline.symm.trans made)
  have back : shift ⟨sampleSessions, [10, 20]⟩ 35 5 .backward = .ok 30 := by decide +kernel
  exact ⟨made, by decide +kernel, back, top 35 5 30 back⟩

end Tqsdk
