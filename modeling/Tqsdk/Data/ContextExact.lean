import Tqsdk.Data.ContextReads
import Mathlib.Algebra.Order.Ring.Int
import Mathlib.Algebra.Order.GroupWithZero.Basic

/-!
# When an anchor-centred read is exact

A tick read of a fixed series goes through the windows of `ContextReads`, with the rows that the
series has in them.  A K-line read meets its bounds whatever its scans return.
-/

namespace Tqsdk

open List Option

open Counted BacktestHistoryContextRequest

/-- A series of ticks, strictly increasing in time and id. -/
structure OrderedTicks where
  rows : List Tick
  sorted : rows.Pairwise fun left right => left.orderKey < right.orderKey
  inRange : ∀ row ∈ rows, I64.InRange row.datetime ∧ I64.InRange row.id

def BacktestHistoryContextRequest.anchorKey (request : BacktestHistoryContextRequest) :
    Int ×ₗ Int :=
  toLex (request.anchorNs, request.anchorRowId.getD I64.maximum)

theorem Tick.le_iff {left : Tick} {key : Int ×ₗ Int} :
    left.orderKey ≤ key ↔ left.datetime < (ofLex key).1 ∨
      left.datetime = (ofLex key).1 ∧ left.id ≤ (ofLex key).2 := by
  rw [Prod.Lex.le_iff]
  rfl

/-- A list splits in two where a test that holds of an element holds of all before it. -/
theorem filter_append_filter_not {α : Type} {test : α → Bool} {xs : List α}
    (initial : xs.Pairwise fun left right => test right = true → test left = true) :
    xs.filter test ++ xs.filter (fun x => !test x) = xs := by
  induction xs with
  | nil => rfl
  | cons x xs ih =>
    obtain ⟨hd, rest⟩ := pairwise_cons.mp initial
    cases hld : test x with
    | true => simp [hld, ih rest]
    | false =>
      have noneHolds : xs.filter test = [] := by
        refine filter_eq_nil_iff.mpr fun y mem post => ?_
        rw [hd y mem post] at hld
        cases hld
      have rest := ih rest
      rw [noneHolds, nil_append] at rest
      simp [hld, noneHolds, rest]

namespace OrderedTicks

variable (series : OrderedTicks)

def between (startNs endNs : Int) : List Tick :=
  series.rows.filter fun row => decide (startNs ≤ row.datetime) && decide (row.datetime < endNs)

variable {series} {startNs endNs : Int}

theorem mem_between {row : Tick} : row ∈ series.between startNs endNs ↔
    row ∈ series.rows ∧ startNs ≤ row.datetime ∧ row.datetime < endNs := by
  simp [between]

theorem unique {row alt : Tick} (mem : row ∈ series.rows) (oMem : alt ∈ series.rows)
    (same : row.orderKey = alt.orderKey) : row = alt := by
  by_contra different
  rcases lt_or_gt_of_ne (show series.rows.idxOf row ≠ series.rows.idxOf alt from
    fun idx => different ((idxOf_inj mem).mp idx)) with less | less
  · have ord := pairwise_iff_getElem.mp series.sorted _ _
      (idxOf_lt_length_iff.mpr mem) (idxOf_lt_length_iff.mpr oMem) less
    rw [getElem_idxOf, getElem_idxOf, same] at ord
    exact lt_irrefl _ ord
  · have ord := pairwise_iff_getElem.mp series.sorted _ _
      (idxOf_lt_length_iff.mpr oMem) (idxOf_lt_length_iff.mpr mem) less
    rw [getElem_idxOf, getElem_idxOf, same] at ord
    exact lt_irrefl _ ord

/-- The entries under which rows are accumulated. -/
def entries (rows : List Tick) : List ((Int ×ₗ Int) × Tick) :=
  rows.map fun row => (row.orderKey, row)

theorem sorted_entries {rows : List Tick}
    (ord : rows.Pairwise fun left right => left.orderKey < right.orderKey) :
    OrdMap.Sorted (entries rows) := by
  unfold OrdMap.Sorted entries
  rw [pairwise_map]
  exact ord

theorem sorted_between : (series.between startNs endNs).Pairwise fun left right =>
    left.orderKey < right.orderKey := series.sorted.filter _

theorem foldl_between {low high from_ until_ : Int}
    (join : ∀ row : Tick, (low ≤ row.datetime ∧ row.datetime < high) ↔
      (startNs ≤ row.datetime ∧ row.datetime < endNs) ∨
        (from_ ≤ row.datetime ∧ row.datetime < until_)) :
    (series.between from_ until_).foldl
        (fun tgt row => OrdMap.insert row.orderKey row tgt)
        (entries (series.between startNs endNs)) =
      entries (series.between low high) := by
  have srt := sorted_entries (@sorted_between series startNs endNs)
  refine OrdMap.Sorted.ext_of_mem (srt.foldl_insert Tick.orderKey _)
    (sorted_entries sorted_between) fun e => ?_
  rw [srt.mem_foldl_insert]
  · simp only [entries, List.mem_map, mem_between, join]
    constructor
    · rintro (⟨row, ⟨mem, inside⟩, rfl⟩ | ⟨row, ⟨mem, inside⟩, rfl⟩)
      · exact ⟨row, ⟨mem, .inl inside⟩, rfl⟩
      · exact ⟨row, ⟨mem, .inr inside⟩, rfl⟩
    · rintro ⟨row, ⟨mem, inside | inside⟩, rfl⟩
      · exact .inl ⟨row, ⟨mem, inside⟩, rfl⟩
      · exact .inr ⟨row, ⟨mem, inside⟩, rfl⟩
  · intro row mem e held same
    obtain ⟨alt, altM, rfl⟩ := mem_map.mp held
    rw [unique (mem_between.mp altM).1 (mem_between.mp mem).1 same]
  · exact fun row mem alt altM same => unique (mem_between.mp mem).1 (mem_between.mp altM).1 same

/-! ## Rows of a window on each side of the anchor -/

variable (series) (request : BacktestHistoryContextRequest)

/-- The rows of a window that are at or before the anchor. -/
def preceding (startNs endNs : Int) : List Tick :=
  (series.between startNs endNs).filter fun row => decide (row.orderKey ≤ request.anchorKey)

/-- And those behind it. -/
def succeeding (startNs endNs : Int) : List Tick :=
  (series.between startNs endNs).filter fun row => !decide (row.orderKey ≤ request.anchorKey)

/-- How many rows at or before the anchor a window has after some extensions to the left. -/
def upTo (level : Nat) : Nat :=
  (series.preceding request (request.leftEdge initialTickSpanNs level)
    (request.rightEdge initialTickSpanNs 0)).length

/-- How many rows behind the anchor it has after some extensions to the right. -/
def following (level : Nat) : Nat :=
  (series.succeeding request (request.leftEdge initialTickSpanNs 0)
    (request.rightEdge initialTickSpanNs level)).length

variable {series} {request}

theorem mem_preceding {row : Tick} : row ∈ series.preceding request startNs endNs ↔
    (row ∈ series.rows ∧ startNs ≤ row.datetime ∧ row.datetime < endNs) ∧
      row.orderKey ≤ request.anchorKey := by
  simp [preceding, mem_between]

theorem datetime_le {row : Tick} (pre : row.orderKey ≤ request.anchorKey) :
    row.datetime ≤ request.anchorNs := by
  rcases Tick.le_iff.mp pre with less | ⟨same, -⟩
  · exact le_of_lt less
  · exact le_of_eq same

theorem le_datetime {row : Tick} (post : ¬ row.orderKey ≤ request.anchorKey) :
    request.anchorNs ≤ row.datetime := by
  by_contra! less
  exact post (Tick.le_iff.mpr (.inl less))

/-- A sorted window has the rows up to the anchor first. -/
theorem preceding_append_succeeding :
    series.preceding request startNs endNs ++ series.succeeding request startNs endNs =
      series.between startNs endNs := by
  refine filter_append_filter_not (sorted_between.imp fun {left right} less pre => ?_)
  rw [decide_eq_true_eq] at pre ⊢
  exact less.le.trans pre

theorem length_preceding_add :
    (series.preceding request startNs endNs).length +
      (series.succeeding request startNs endNs).length = (series.between startNs endNs).length := by
  rw [← length_append, preceding_append_succeeding]

theorem preceding_congr {lo alt stop otherStop : Int}
    (same : ∀ row ∈ series.rows, row.orderKey ≤ request.anchorKey →
      ((lo ≤ row.datetime ∧ row.datetime < stop) ↔
        (alt ≤ row.datetime ∧ row.datetime < otherStop))) :
    series.preceding request lo stop = series.preceding request alt otherStop := by
  unfold preceding between
  rw [List.filter_filter, List.filter_filter]
  refine filter_congr fun row mem => ?_
  by_cases pre : row.orderKey ≤ request.anchorKey
  · have := same row mem pre
    simp only [pre, decide_true, Bool.true_and, ← Bool.decide_and, decide_eq_decide]
    exact this
  · simp [pre]

theorem succeeding_congr {lo alt stop otherStop : Int}
    (same : ∀ row ∈ series.rows, ¬ row.orderKey ≤ request.anchorKey →
      ((lo ≤ row.datetime ∧ row.datetime < stop) ↔
        (alt ≤ row.datetime ∧ row.datetime < otherStop))) :
    series.succeeding request lo stop = series.succeeding request alt otherStop := by
  unfold succeeding between
  rw [List.filter_filter, List.filter_filter]
  refine filter_congr fun row mem => ?_
  by_cases pre : row.orderKey ≤ request.anchorKey
  · simp [pre]
  · have := same row mem pre
    simp only [pre, decide_false, Bool.not_false, Bool.true_and, ← Bool.decide_and,
      decide_eq_decide]
    exact this

/-- The right end of a window is behind the anchor, unless that is the last time there is. -/
theorem rightEdge_above (fine : request.validate = .ok ()) (lv : Nat) :
    request.anchorNs < request.rightEdge initialTickSpanNs lv ∨
      (request.anchorNs = I64.maximum ∧ request.rightEdge initialTickSpanNs lv = I64.maximum) := by
  have wid := pow_pos_span (show 0 < initialTickSpanNs by decide) lv
  have anc := request.anchorInRange
  have upper := request.upperBound_inRange
  have ovr := anchor_lt_upperBound fine
  have ever := @upperBound_of_none request
  unfold rightEdge
  unfold I64.InRange at anc upper
  unfold I64.saturated I64.minimum I64.maximum at *
  rcases ovr with ovr | none
  · omega
  · have := ever none
    omega

theorem leftEdge_le_anchor (lv : Nat) :
    request.leftEdge initialTickSpanNs lv ≤ request.anchorNs := by
  have wid := pow_pos_span (show 0 < initialTickSpanNs by decide) lv
  have anc := request.anchorInRange
  unfold leftEdge
  unfold I64.InRange at anc
  unfold I64.saturated I64.minimum I64.maximum at *
  omega

theorem length_preceding (fine : request.validate = .ok ()) (left right : Nat) :
    (series.preceding request (request.leftEdge initialTickSpanNs left)
      (request.rightEdge initialTickSpanNs right)).length = series.upTo request left := by
  unfold upTo
  rw [preceding_congr fun row mem pre => ?_]
  have early := datetime_le pre
  have here := rightEdge_above fine right
  have hd := rightEdge_above fine 0
  have bnds := (@rightEdge_le_upperBound request initialTickSpanNs right).trans
    request.upperBound_inRange.2
  have firstBound := (@rightEdge_le_upperBound request initialTickSpanNs 0).trans
    request.upperBound_inRange.2
  omega

theorem length_succeeding (left right : Nat) :
    (series.succeeding request (request.leftEdge initialTickSpanNs left)
      (request.rightEdge initialTickSpanNs right)).length = series.following request right := by
  unfold following
  rw [succeeding_congr fun row mem lag => ?_]
  have late := le_datetime lag
  have here := @leftEdge_le_anchor request left
  have hd := @leftEdge_le_anchor request 0
  omega

theorem length_between (fine : request.validate = .ok ()) (left right : Nat) :
    (series.between (request.leftEdge initialTickSpanNs left)
      (request.rightEdge initialTickSpanNs right)).length =
      series.upTo request left + series.following request right := by
  rw [← @length_preceding_add _ _ _ request, length_preceding fine, length_succeeding]

/-- `scan` answers tick requests from the series; nothing is known of the K-lines it returns but
that their times are `i64`s. -/
structure Answers (series : OrderedTicks) (scan : ContextScan) : Prop where
  ticks : ∀ range, range.kind = .tick → ∃ report,
    scan range = .ok ⟨report, .ticks (series.between range.startNs range.endNs)⟩
  klines : ∀ range report durationNs rows, scan range = .ok ⟨report, .klines durationNs rows⟩ →
    ∀ row ∈ rows, I64.InRange row.datetime

variable {scan : ContextScan}

/-- The rows accumulated at a window. -/
def window (series : OrderedTicks) (request : BacktestHistoryContextRequest) (left right : Nat) :
    ContextAccumulator :=
  .ticks (entries (series.between (request.leftEdge initialTickSpanNs left)
    (request.rightEdge initialTickSpanNs right)))

theorem Answers.answered (answers : series.Answers scan) (kind : request.kind = .tick)
    {lo stop low high : Int} (join : ∀ row : Tick, (low ≤ row.datetime ∧ row.datetime < high) ↔
      (startNs ≤ row.datetime ∧ row.datetime < endNs) ∨ (lo ≤ row.datetime ∧ row.datetime < stop)) :
    Answered scan request lo stop (.ticks (entries (series.between startNs endNs)))
      (.ticks (entries (series.between low high))) := by
  obtain ⟨rep, ans⟩ := answers.ticks (request.rangeRequest lo stop) kind
  refine ⟨_, ans, ?_, ?_⟩
  · simp only [ContextAccumulator.append, rangeRequest, foldl_between join]
  · simp only [BacktestHistoryRows.length, ContextAccumulator.length, entries, length_map,
      rangeRequest]
    refine (monotone_filter_right series.rows fun row => ?_).length_le
    intro mem
    simp only [Bool.and_eq_true, decide_eq_true_eq] at mem ⊢
    exact (join row).mpr (.inr mem)

theorem new_eq (series : OrderedTicks) (kind : request.kind = .tick) :
    ContextAccumulator.new request.kind = .ticks (entries (series.between 0 0)) := by
  have emp : series.between 0 0 = [] := by
    refine filter_eq_nil_iff.mpr fun row _ => ?_
    simp only [Bool.and_eq_true, decide_eq_true_eq]
    omega
  rw [kind, emp]
  rfl

theorem upTo_ticks (rows : List Tick) :
    (ContextAccumulator.ticks (entries rows)).upTo request =
      (rows.filter fun row => decide (row.orderKey ≤ request.anchorKey)).length := by
  simp only [ContextAccumulator.upTo, entries, List.filter_map, length_map]
  rfl

theorem Answers.byLevel (ans : series.Answers scan) (kind : request.kind = .tick)
    (fine : request.validate = .ok ()) :
    ByLevel scan request initialTickSpanNs (series.window request) (series.upTo request)
      (series.following request) := by
  have pos : 0 < initialTickSpanNs := by decide
  have ne : request.leftEdge initialTickSpanNs 0 < request.rightEdge initialTickSpanNs 0 := by
    refine edges_lt pos ?_
    rcases anchor_lt_upperBound fine with ovr | endless
    · exact .inl ovr
    · exact .inr (upperBound_of_none endless)
  have leftBelow : ∀ lv, request.leftEdge initialTickSpanNs lv <
      request.rightEdge initialTickSpanNs 0 := by
    have antitone : Antitone (request.leftEdge initialTickSpanNs) :=
      antitone_nat_of_succ_le (leftEdge_le pos)
    exact fun lv => (antitone (Nat.zero_le lv)).trans_lt ne
  have rightAbove : ∀ left right, request.leftEdge initialTickSpanNs left <
      request.rightEdge initialTickSpanNs right := by
    have monotone : Monotone (request.rightEdge initialTickSpanNs) :=
      monotone_nat_of_le_succ (rightEdge_le pos)
    exact fun left right => (leftBelow left).trans_le (monotone (Nat.zero_le right))
  refine ⟨pos, fun _ _ => sorted_entries sorted_between, ?_, ?_, ?_, ?_, ?_⟩
  · intro left right
    rw [window, upTo_ticks]
    exact length_preceding fine left right
  · intro left right
    rw [window, ContextAccumulator.length, entries, length_map]
    exact length_between fine left right
  · rw [new_eq series kind]
    refine ans.answered kind fun row => ?_
    omega
  · intro left right
    have lower := @leftEdge_le request initialTickSpanNs pos left
    have edges := rightAbove left right
    refine ans.answered kind fun row => ?_
    omega
  · intro left right
    have higher := @rightEdge_le request initialTickSpanNs pos right
    have edges := rightAbove left right
    refine ans.answered kind fun row => ?_
    omega

theorem width_le (lv : Nat) (bd : lv < maxContextScans) :
    initialTickSpanNs * 2 ^ lv ≤ initialTickSpanNs * 2 ^ 15 :=
  Int.mul_le_mul_of_nonneg_left (pow_le_pow_right₀ (by decide) (Nat.le_of_lt_succ bd)) (by decide)

theorem regularWindows (series : OrderedTicks) (request : BacktestHistoryContextRequest) :
    RegularWindows request initialTickSpanNs (series.upTo request) (series.following request) := by
  have pos : 0 < initialTickSpanNs := by decide
  refine ⟨monotone_nat_of_le_succ fun lv => ?_, monotone_nat_of_le_succ fun lv => ?_,
    fun lv lowest post ahead => ?_, fun lv bnd => ?_, fun lv bnd => ?_⟩
  · have lower := @leftEdge_le request initialTickSpanNs pos lv
    refine ((monotone_filter_right series.rows fun row => ?_).filter _).length_le
    intro mem
    simp only [Bool.and_eq_true, decide_eq_true_eq] at mem ⊢
    omega
  · have higher := @rightEdge_le request initialTickSpanNs pos lv
    refine ((monotone_filter_right series.rows fun row => ?_).filter _).length_le
    intro mem
    simp only [Bool.and_eq_true, decide_eq_true_eq] at mem ⊢
    omega
  · have antitone : Antitone (request.leftEdge initialTickSpanNs) :=
      antitone_nat_of_succ_le (leftEdge_le pos)
    have lower := antitone ahead
    have floor : I64.minimum ≤ request.leftEdge initialTickSpanNs post :=
      (I64.inRange_saturated _).1
    have same : request.leftEdge initialTickSpanNs post =
        request.leftEdge initialTickSpanNs lv := by omega
    rw [upTo, upTo, same]
  · have wid := width_le lv bnd
    have small := pow_pos_span pos lv
    unfold leftEdge maxContextSpanNs
    rw [pow_succ_span]
    generalize initialTickSpanNs * 2 ^ lv = step at *
    unfold initialTickSpanNs at wid
    unfold I64.saturated I64.minimum I64.maximum
    omega
  · have wid := width_le lv bnd
    have small := pow_pos_span pos lv
    unfold rightEdge maxContextSpanNs
    rw [pow_succ_span]
    generalize initialTickSpanNs * 2 ^ lv = step at *
    unfold initialTickSpanNs at wid
    unfold I64.saturated I64.minimum I64.maximum
    omega

/-! ## What a window returns -/

theorem rows_eq (ord : startNs ≤ endNs) :
    series.rows = series.rows.filter (fun row => decide (row.datetime < startNs)) ++
      series.between startNs endNs ++
        series.rows.filter (fun row => decide (endNs ≤ row.datetime)) := by
  have times : series.rows.Pairwise fun left right => left.datetime ≤ right.datetime := by
    refine series.sorted.imp fun {left right} less => ?_
    rcases Tick.le_iff.mp less.le with less | ⟨same, -⟩
    · exact le_of_lt less
    · exact le_of_eq same
  have hd := @filter_append_filter_not _ (fun row : Tick => decide (row.datetime < startNs)) _
    (times.imp fun {left right} le pre => by simp only [decide_eq_true_eq] at pre ⊢; omega)
  have snd := @filter_append_filter_not _ (fun row : Tick => decide (row.datetime < endNs)) _
    ((times.filter (fun row => !decide (row.datetime < startNs))).imp
      fun {left right} le pre => by simp only [decide_eq_true_eq] at pre ⊢; omega)
  rw [List.filter_filter, List.filter_filter] at snd
  calc series.rows = _ := hd.symm
    _ = _ := by
      rw [← snd, append_assoc]
      congr 1
      congr 1
      · refine filter_congr fun row _ => ?_
        rw [Bool.and_comm, ← decide_not]
        simp only [not_lt]
      · refine filter_congr fun row _ => ?_
        rw [← decide_not, ← decide_not, ← Bool.decide_and, decide_eq_decide]
        omega

/-- The result that a window gives. -/
def resultOf (request : BacktestHistoryContextRequest) (report : BacktestHistoryRequestReport)
    (front : List Tick) (anchor : Tick) (back : List Tick)
    (boundary : Option BacktestHistoryContextBoundary) : BacktestHistoryContextResult where
  rows := .ticks (front.drop (front.length - request.beforeRows) ++
    anchor :: back.take request.afterRows)
  report := ⟨report.requestId, min request.beforeRows front.length + 1 +
    min request.afterRows back.length⟩
  requestedAnchorNs := request.anchorNs
  matchedAnchorNs := anchor.datetime
  matchedAnchorRowId := some anchor.id
  anchorIndex := min request.beforeRows front.length
  requestedBefore := request.beforeRows
  requestedAfter := request.afterRows
  actualBefore := min request.beforeRows front.length
  actualAfter := min request.afterRows back.length
  complete := min request.beforeRows front.length == request.beforeRows &&
    min request.afterRows back.length == request.afterRows
  leftBoundary := none
  rightBoundary := boundary

theorem finish_eq {fst back : List Tick} {anc : Tick} (rep : BacktestHistoryRequestReport)
    (bdry : Option BacktestHistoryContextBoundary) :
    (ContextAccumulator.ticks (entries (fst ++ anc :: back))).finish request
        ⟨fst.length, anc.datetime, some anc.id⟩ rep bdry =
      some (resultOf request rep fst anc back bdry) := by
  have len : (ContextAccumulator.ticks (entries (fst ++ anc :: back))).length =
      fst.length + 1 + back.length := by
    simp only [ContextAccumulator.length, entries, length_map, length_append, length_cons]
    omega
  have vals : (entries (fst ++ anc :: back)).map Prod.snd = fst ++ anc :: back := by
    simp [entries, Function.comp_def]
  have stop : min (fst.length + request.afterRows + 1) (fst.length + 1 + back.length) =
      fst.length + 1 + min request.afterRows back.length := by omega
  have cuts : ContextAccumulator.slice (fst ++ anc :: back)
      (fst.length - request.beforeRows) (fst.length + 1 + min request.afterRows back.length) =
      some (fst.drop (fst.length - request.beforeRows) ++ anc :: back.take request.afterRows) := by
    rw [ContextAccumulator.slice, if_pos ⟨by omega, by simp; omega⟩]
    congr 1
    have took : (fst ++ anc :: back).take
        (fst.length + 1 + min request.afterRows back.length) =
        fst ++ anc :: back.take request.afterRows := by
      rw [take_append, take_of_length_le (by omega),
        show fst.length + 1 + min request.afterRows back.length - fst.length =
          min request.afterRows back.length + 1 by omega, take_succ_cons]
      congr 2
      rcases le_total request.afterRows back.length with le | le
      · rw [min_eq_left le]
      · rw [min_eq_right le, take_of_length_le le, take_length]
    rw [took, drop_append_of_le_length (by omega)]
  have pre : fst.length - (fst.length - request.beforeRows) =
      min request.beforeRows fst.length := by omega
  have post : fst.length + 1 + min request.afterRows back.length - (fst.length + 1) =
      min request.afterRows back.length := by omega
  unfold ContextAccumulator.finish
  simp only [len, stop, vals, cuts, pre, post, map_some, resultOf,
    Option.pure_def, bind_eq_bind, bind_some, some.injEq]
  congr 2
  simp only [BacktestHistoryRows.length, length_append, length_drop, length_cons, length_take]
  omega

/-- The rows of a window up to the anchor, when there are any. -/
theorem exists_anchor (fine : request.validate = .ok ()) {left : Nat} (right : Nat)
    (anch : 0 < series.upTo request left) :
    ∃ fst anc, series.preceding request (request.leftEdge initialTickSpanNs left)
      (request.rightEdge initialTickSpanNs right) = fst ++ [anc] := by
  have size := @length_preceding series _ fine left right
  rcases eq_nil_or_concat (series.preceding request (request.leftEdge initialTickSpanNs left)
    (request.rightEdge initialTickSpanNs right)) with emp | ⟨fst, anc, split⟩
  · rw [emp, length_nil] at size
    omega
  · exact ⟨fst, anc, by simpa using split⟩

theorem anchor_eq {fst : List Tick} {anc : Tick}
    (split : series.preceding request startNs endNs = fst ++ [anc]) :
    (ContextAccumulator.ticks (entries (series.between startNs endNs))).anchor request =
      some ⟨fst.length, anc.datetime, some anc.id⟩ := by
  have srt := sorted_entries (@sorted_between series startNs endNs)
  have filtered : (entries (series.between startNs endNs)).filter
      (fun ent => decide (ent.1 ≤ request.anchorKey)) = entries (fst ++ [anc]) := by
    rw [← split, entries, List.filter_map]
    rfl
  cases last : lastAtMost (entries (series.between startNs endNs)) request.anchorKey with
  | none =>
    rw [lastAtMost_eq_none, filtered] at last
    simp [entries] at last
  | some pair =>
    obtain ⟨key, idx⟩ := pair
    obtain ⟨at_, -, lastKey⟩ := lastAtMost_eq_some srt last
    rw [filtered] at at_ lastKey
    simp only [entries, map_append, map_cons, map_nil, length_append, length_map, length_singleton,
      getLast?_append, getLast?_singleton, some_or, map_some, some.injEq] at at_ lastKey
    obtain rfl : idx = fst.length := by omega
    subst lastKey
    simp only [ContextAccumulator.anchor]
    rw [show toLex (request.anchorNs, request.anchorRowId.getD I64.maximum) =
      request.anchorKey from rfl, last]
    rfl

theorem Answers.eval_finalize (answers : series.Answers scan) (kind : request.kind = .tick)
    (fine : request.validate = .ok ()) {left right : Nat} {fst : List Tick} {anc : Tick}
    (split : series.preceding request (request.leftEdge initialTickSpanNs left)
      (request.rightEdge initialTickSpanNs right) = fst ++ [anc])
    (fits : series.upTo request left + series.following request right ≤ request.candidateRowLimit)
    (bdry : Option BacktestHistoryContextBoundary) (count : Nat) :
    ∃ rep, eval (finalizeContext scan request (request.leftEdge initialTickSpanNs left)
          (request.rightEdge initialTickSpanNs right) bdry) count =
        (.ok (resultOf request rep fst anc
          (series.succeeding request (request.leftEdge initialTickSpanNs left)
            (request.rightEdge initialTickSpanNs right)) bdry), count + 1) := by
  have all := @length_between series _ fine left right
  have seen := anchor_eq split
  generalize request.leftEdge initialTickSpanNs left = startNs at *
  generalize request.rightEdge initialTickSpanNs right = endNs at *
  obtain ⟨rep, ans⟩ := answers.ticks (request.rangeRequest startNs endNs) kind
  replace ans : scan (request.rangeRequest startNs endNs) =
    .ok ⟨rep, .ticks (series.between startNs endNs)⟩ := ans
  have took : takeRows request ⟨rep, .ticks (series.between startNs endNs)⟩
      (.new request.kind) "final context scan exceeded its candidate row allowance" =
      .ok (.ticks (entries (series.between startNs endNs))) := by
    rw [takeRows, if_neg (by simp only [BacktestHistoryRows.length]; omega), new_eq series kind]
    simp only [ContextAccumulator.append]
    rw [@foldl_between _ _ _ startNs endNs _ _ fun row => by omega]
  have done := @finish_eq request fst (series.succeeding request startNs endNs) anc rep bdry
  rw [show fst ++ anc :: series.succeeding request startNs endNs =
      series.between startNs endNs by
    rw [← @preceding_append_succeeding _ _ _ request, split]; simp] at done
  refine ⟨rep, ?_⟩
  unfold finalizeContext
  rw [eval_bind_of_ok (eval_askScan ans count), eval_bind_of_ok (eval_lift took _)]
  simp only [seen, done]
  rfl

/-- The rows of the result are a stretch of the series around the last row at or before the
anchor, with as many rows on each side as were asked for, or behind it all up to the effective
end. -/
def ExactRead (series : OrderedTicks) (request : BacktestHistoryContextRequest)
    (result : BacktestHistoryContextResult) : Prop :=
  ∃ earlier before anchor after later,
    series.rows = earlier ++ before ++ anchor :: (after ++ later) ∧
    result.rows = .ticks (before ++ anchor :: after) ∧
    result.matchedAnchorNs = anchor.datetime ∧ result.matchedAnchorRowId = some anchor.id ∧
    result.anchorIndex = before.length ∧ anchor.orderKey ≤ request.anchorKey ∧
    (∀ row ∈ after ++ later, ¬ row.orderKey ≤ request.anchorKey) ∧
    before.length = request.beforeRows ∧
    match result.rightBoundary with
    | some (.futureEnd endNs) => request.effectiveEndNs = some endNs ∧
        (∀ row ∈ after, row.datetime < endNs) ∧ ∀ row ∈ later, endNs ≤ row.datetime
    | _ => after.length = request.afterRows

theorem resultOf_exact (ord : startNs ≤ endNs) {fst : List Tick} {anc : Tick}
    {rep : BacktestHistoryRequestReport} {bdry : Option BacktestHistoryContextBoundary}
    (split : series.preceding request startNs endNs = fst ++ [anc])
    (seen : ∀ row ∈ series.rows, row.orderKey ≤ request.anchorKey → row.datetime < endNs)
    (fits : request.beforeRows ≤ fst.length) (post : (bdry = none ∧
        request.afterRows ≤ (series.succeeding request startNs endNs).length) ∨
      ∃ stop, bdry = some (.futureEnd stop) ∧ request.effectiveEndNs = some stop ∧
        endNs = stop ∧ (series.succeeding request startNs endNs).length < request.afterRows) :
    series.ExactRead request (resultOf request rep fst anc
      (series.succeeding request startNs endNs) bdry) := by
  generalize isBack : series.succeeding request startNs endNs = back at *
  have wnd : series.between startNs endNs = fst ++ anc :: back := by
    rw [← @preceding_append_succeeding _ _ _ request, split, isBack]
    simp
  have inBack : ∀ row ∈ back, row.datetime < endNs ∧ ¬ row.orderKey ≤ request.anchorKey := by
    intro row member
    rw [← isBack, succeeding, mem_filter, mem_between] at member
    exact ⟨member.1.2.2, by simpa using member.2⟩
  have atAnchor : anc.orderKey ≤ request.anchorKey := by
    have member : anc ∈ series.preceding request startNs endNs := by simp [split]
    exact (mem_preceding.mp member).2
  refine ⟨series.rows.filter (fun row => decide (row.datetime < startNs)) ++
    fst.take (fst.length - request.beforeRows), fst.drop (fst.length - request.beforeRows),
    anc, back.take request.afterRows, back.drop request.afterRows ++
      series.rows.filter (fun row => decide (endNs ≤ row.datetime)), ?_, rfl, rfl, rfl, ?_,
    atAnchor, ?_, ?_, ?_⟩
  · calc series.rows = _ := rows_eq ord
      _ = _ := by
        rw [wnd, append_assoc _ (fst.take _), take_append_drop,
          ← append_assoc (back.take _), take_append_drop]
        simp
  · simp only [resultOf, length_drop]
    omega
  · intro row member
    rw [← append_assoc, take_append_drop, mem_append] at member
    rcases member with member | member
    · exact (inBack row member).2
    · intro pre
      obtain ⟨old, late⟩ := mem_filter.mp member
      have := seen row old pre
      simp only [decide_eq_true_eq] at late
      omega
  · rw [length_drop]
    omega
  · rcases post with ⟨rfl, full⟩ | ⟨stop, rfl, ends, rfl, few⟩
    · simp only [resultOf, length_take]
      omega
    · refine ⟨ends, fun row member => (inBack row (mem_of_mem_take member)).1, ?_⟩
      rw [drop_of_length_le (le_of_lt few), nil_append]
      intro row member
      simpa using (mem_filter.mp member).2

/-! ## Tick reads -/

/-- A read at the last time there is does not see the rows there. -/
def HidesAnchor (series : OrderedTicks) (request : BacktestHistoryContextRequest) : Prop :=
  request.afterRows = 0 ∧ request.anchorNs = I64.maximum ∧
    (∃ row ∈ series.rows, row.datetime = I64.maximum ∧ row.orderKey ≤ request.anchorKey) ∧
    ∃ last, IsLeast {level | request.beforeRows < series.upTo request level} last ∧
      1 + last ≤ maxContextScans ∧
      series.upTo request last + series.following request 0 ≤ request.candidateRowLimit

/-- A read ends within the number of scans and without a panic, and what it returns of a tick
series is exact. -/
def ReadsExactly (series : OrderedTicks) (scan : ContextScan)
    (request : BacktestHistoryContextRequest) : Prop :=
  ∃ fuel outcome calls, eval (collectContext scan request fuel) 0 = (outcome, calls) ∧
    calls ≤ maxContextScans + 1 ∧ ((∃ error, outcome = .error (.failed error)) ∨
      ∃ result, outcome = .ok (some result) ∧
        (request.kind = .tick → series.ExactRead request result))

theorem eval_collectContext (fine : request.validate = .ok ()) {span : Int}
    (begs : request.initialSpanNs = some span) (fuel : Nat) :
    eval (collectContext scan request fuel) 0 =
      eval (startSearch scan request span >>= fun search => search.run scan request fuel) 0 := by
  unfold collectContext
  rw [fine]
  simp only [begs]

theorem initialSpanNs_tick (kind : request.kind = .tick) :
    request.initialSpanNs = some initialTickSpanNs := by
  rw [initialSpanNs, kind]

theorem narrow_start (request : BacktestHistoryContextRequest) :
    I64.saturated (request.rightEdge initialTickSpanNs 0 - request.leftEdge initialTickSpanNs 0) ≤
      maxContextSpanNs := by
  have anc := request.anchorInRange
  unfold leftEdge rightEdge maxContextSpanNs
  rw [Int.pow_zero, Int.mul_one]
  unfold I64.InRange at anc
  unfold initialTickSpanNs I64.saturated I64.minimum I64.maximum at *
  omega

theorem Answers.started (ans : series.Answers scan) (kind : request.kind = .tick)
    (fine : request.validate = .ok ())
    (fits : series.upTo request 0 + series.following request 0 ≤ request.candidateRowLimit)
    (fuel : Nat) :
    eval (collectContext scan request fuel) 0 =
      eval ((searchAt request initialTickSpanNs (series.window request) 0 0).run scan request fuel)
        1 := by
  have began := eval_startSearch (ans.byLevel kind fine) fine (by decide) (narrow_start request)
  rw [if_pos fits] at began
  rw [eval_collectContext fine (initialSpanNs_tick kind), eval_bind_of_ok began]

/-- The result of a window where the search ends is exact. -/
theorem exact_of_done (fine : request.validate = .ok ()) {left right nextL nextR : Nat}
    {bdry : Option BacktestHistoryContextBoundary}
    (begs : series.upTo request 0 + series.following request 0 ≤ request.candidateRowLimit)
    (expl : Explored request initialTickSpanNs (series.upTo request) (series.following request)
      left right)
    (done : request.probe initialTickSpanNs (series.upTo request) (series.following request) left
      right = .done nextL nextR bdry)
    (full : ¬ StopsShort request initialTickSpanNs (series.upTo request) (series.following request))
    (shown : ¬ series.HidesAnchor request) {fst : List Tick} {anc : Tick}
    (split : series.preceding request (request.leftEdge initialTickSpanNs nextL)
      (request.rightEdge initialTickSpanNs nextR) = fst ++ [anc])
    (rep : BacktestHistoryRequestReport) :
    series.ExactRead request (resultOf request rep fst anc
      (series.succeeding request (request.leftEdge initialTickSpanNs nextL)
        (request.rightEdge initialTickSpanNs nextR)) bdry) := by
  have regl := series.regularWindows request
  have room := expl.enough begs regl.upTo_mono done full
  have size := @length_preceding series _ fine nextL nextR
  have back := @length_succeeding series request nextL nextR
  have edge := rightEdge_above fine nextR
  have prog := expl.progress begs
  rw [split, length_append, length_singleton] at size
  have lag : (bdry = none ∧ request.afterRows ≤ series.following request nextR) ∨
      ∃ stop, bdry = some (.futureEnd stop) ∧ request.effectiveEndNs = some stop ∧
        request.rightEdge initialTickSpanNs nextR = stop ∧
        series.following request nextR < request.afterRows := by
    obtain ⟨rfl, ⟨-, -, enoughAfter, rfl⟩ | ⟨few, rch, ⟨stop, ends, rfl⟩, -⟩⟩ := probe_done done
    · exact .inl ⟨rfl, enoughAfter⟩
    · refine .inr ⟨stop, rfl, ends, ?_, few⟩
      rw [upperBound_of_some ends] at rch
      have bnd := @rightEdge_le_upperBound request initialTickSpanNs nextR
      rw [upperBound_of_some ends] at bnd
      omega
  refine resultOf_exact ?_ split ?_ (by omega) (by rwa [back])
  · have := @leftEdge_le_anchor request nextL
    omega
  · intro row mem pre
    have early := datetime_le pre
    rcases edge with ovr | ⟨last, atEnd⟩
    · omega
    rw [atEnd]
    by_contra! late
    -- Behind the last time there are no rows, so that none can have been asked for.
    have noneBehind : series.following request nextR = 0 := by
      rw [← back, length_eq_zero_iff]
      refine filter_eq_nil_iff.mpr fun alt inn => ?_
      obtain ⟨-, -, less⟩ := mem_between.mp inn
      rw [atEnd, ← last] at less
      have : alt.orderKey ≤ request.anchorKey := Tick.le_iff.mpr (.inl less)
      simpa using this
    have ceiling := (series.inRange row mem).1.2
    rcases lag with ⟨rfl, noneAsked⟩ | ⟨stop, -, ends, -, -⟩
    · obtain ⟨rfl, ⟨rfl, -⟩ | ⟨-, -, ⟨stop, -, absurd⟩, -⟩⟩ := probe_done done
      · have fewer := regl.following_mono (Nat.zero_le nextR)
        have win := prog.within
        have fits := prog.fits
        exact shown ⟨by omega, last, ⟨row, mem, by omega, pre⟩, nextL,
          prog.least_left room, by omega, by omega⟩
      · cases absurd
    · have ovr := (anchor_lt_upperBound fine).resolve_right (by rw [ends]; nofun)
      have bnd := request.upperBound_inRange.2
      omega

section Ticks

variable (ans : series.Answers scan) (kind : request.kind = .tick)
  (fine : request.validate = .ok ())

include ans kind fine

/-- A tick read that goes wrong in none of the three ways is exact. -/
theorem Answers.readsExactly
    (full : ¬ StopsShort request initialTickSpanNs (series.upTo request) (series.following request))
    (ends : ¬ Endless request initialTickSpanNs (series.upTo request) (series.following request))
    (shown : ¬ series.HidesAnchor request) : series.ReadsExactly scan request := by
  have lvs := ans.byLevel kind fine
  have regl := series.regularWindows request
  by_cases los : series.upTo request 0 + series.following request 0 ≤ request.candidateRowLimit
  · obtain ⟨fuel, fin⟩ := Explored.ends lvs los
      (fun left right expl stays => ends (expl.endless los stays)) maxContextScans
      .start (by omega)
    rcases fin with ⟨err, used, stop, bdd⟩ |
      ⟨left, right, nextLeft, nextRight, boundary, expl, done, taken⟩
    · exact ⟨fuel, _, used, (ans.started kind fine los fuel).trans stop, by omega,
        .inl ⟨err, rfl⟩⟩
    · have room := expl.enough los regl.upTo_mono done full
      obtain ⟨win, fits⟩ := expl.done_fits los done
      obtain ⟨fst, anc, split⟩ := @exists_anchor series _ fine _ nextRight
        (show 0 < series.upTo request nextLeft by omega)
      obtain ⟨rep, ret⟩ := ans.eval_finalize kind fine split fits boundary
        (1 + nextLeft + nextRight)
      refine ⟨fuel, _, _, (ans.started kind fine los fuel).trans (taken.trans
        (eval_bind_of_ok ret)), by omega, .inr ⟨_, rfl, fun _ => ?_⟩⟩
      exact exact_of_done fine los expl done full shown split rep
  · have began := eval_startSearch lvs fine (by decide) (narrow_start request)
    rw [if_neg los] at began
    obtain ⟨err, used, stop, bdd⟩ := began
    refine ⟨0, _, used, ?_, by omega, .inl ⟨err, rfl⟩⟩
    rw [eval_collectContext fine (initialSpanNs_tick kind), eval_bind_of_error stop]

/-- The result of a window that the search ends with is the one that is returned. -/
theorem Answers.exact_of_explored (reads : series.ReadsExactly scan request)
    {left right nextL nextR : Nat} {bdry : Option BacktestHistoryContextBoundary}
    (begs : series.upTo request 0 + series.following request 0 ≤ request.candidateRowLimit)
    (expl : Explored request initialTickSpanNs (series.upTo request) (series.following request)
      left right)
    (done : request.probe initialTickSpanNs (series.upTo request) (series.following request) left
      right = .done nextL nextR bdry) {fst : List Tick} {anc : Tick}
    (split : series.preceding request (request.leftEdge initialTickSpanNs nextL)
      (request.rightEdge initialTickSpanNs nextR) = fst ++ [anc]) :
    ∃ rep, series.ExactRead request (resultOf request rep fst anc
      (series.succeeding request (request.leftEdge initialTickSpanNs nextL)
        (request.rightEdge initialTickSpanNs nextR)) bdry) := by
  have lvs := ans.byLevel kind fine
  obtain ⟨-, fits⟩ := expl.done_fits begs done
  obtain ⟨rep, ret⟩ := ans.eval_finalize kind fine split fits bdry (1 + nextL + nextR)
  obtain ⟨more, rch⟩ := expl.run lvs begs 1
  have hit : eval ((searchAt request initialTickSpanNs (series.window request) 0 0).run scan
      request more) 1 = (.ok (some (resultOf request rep fst anc
        (series.succeeding request (request.leftEdge initialTickSpanNs nextL)
          (request.rightEdge initialTickSpanNs nextR)) bdry)),
        1 + nextL + nextR + 1) :=
    rch.trans ((run_of_done lvs (expl.progress begs).within done 0).trans (eval_bind_of_ok ret))
  obtain ⟨fuel, out, cls, fin, -, res⟩ := reads
  rw [ans.started kind fine begs fuel] at fin
  have unique := @run_unique scan request
    (searchAt request initialTickSpanNs (series.window request) 0 0) fuel more 1 (by
      intro used runs
      rw [fin] at runs
      obtain ⟨rfl, -⟩ := Prod.mk.inj runs
      rcases res with ⟨err, absurd⟩ | ⟨val, absurd, -⟩ <;> cases absurd)
    (by rw [hit]; nofun)
  rw [fin, hit] at unique
  obtain ⟨rfl, -⟩ := Prod.mk.inj unique
  rcases res with ⟨err, absurd⟩ | ⟨val, same, exact_⟩
  · cases absurd
  · obtain rfl := some.inj (Except.ok.inj same)
    exact ⟨rep, exact_ kind⟩

theorem Answers.not_stopsShort (reads : series.ReadsExactly scan request) :
    ¬ StopsShort request initialTickSpanNs (series.upTo request) (series.following request) := by
  intro stops
  have regl := series.regularWindows request
  obtain ⟨left, right, endNs, expl, -, done, anch, few, fits, -⟩ := stops.explored (by decide) regl
  have fewerUpTo := regl.upTo_mono (Nat.zero_le (left + 1))
  have fewerAfter := regl.following_mono (Nat.zero_le right)
  obtain ⟨fst, anc, split⟩ := @exists_anchor series _ fine _ right anch
  have size := @length_preceding series _ fine (left + 1) right
  rw [split, length_append, length_singleton] at size
  obtain ⟨rep, prior, pre, hit, post, later, -, -, -, -, idx, -, -, asked, -⟩ :=
    ans.exact_of_explored kind fine reads (by omega) expl done split
  simp only [resultOf] at idx
  omega

theorem Answers.not_endless (reads : series.ReadsExactly scan request) :
    ¬ Endless request initialTickSpanNs (series.upTo request) (series.following request) := by
  intro ever
  have regl := series.regularWindows request
  have los : series.upTo request 0 + series.following request 0 ≤ request.candidateRowLimit := by
    obtain ⟨-, left, right, -, -, -, -, fits⟩ := ever
    have fewerUpTo := regl.upTo_mono (Nat.zero_le left)
    have fewerAfter := regl.following_mono (Nat.zero_le right)
    omega
  obtain ⟨fuel, out, cls, fin, -, res⟩ := reads
  obtain ⟨used, runs⟩ := run_endless (ans.byLevel kind fine) los
    (fun left right expl => ever.goesOn regl expl) fuel .start
  rw [ans.started kind fine los fuel, runs] at fin
  obtain ⟨rfl, -⟩ := Prod.mk.inj fin
  rcases res with ⟨err, absurd⟩ | ⟨val, absurd, -⟩ <;> cases absurd

theorem Answers.not_hidesAnchor (reads : series.ReadsExactly scan request) :
    ¬ series.HidesAnchor request := by
  rintro ⟨noneAsked, atEnd, ⟨row, member, late, pre⟩, last, low, win, fits⟩
  have regl := series.regularWindows request
  have room : request.beforeRows < series.upTo request last := low.1
  have expl := regl.explored_left low noneAsked win fits le_rfl
  have done : request.probe initialTickSpanNs (series.upTo request) (series.following request) last
      0 = .done last 0 none := by
    rw [probe, if_neg (by omega), if_pos room, if_pos (by omega)]
  obtain ⟨fst, anc, split⟩ := @exists_anchor series _ fine _ 0
    (show 0 < series.upTo request last by omega)
  have fewer := regl.upTo_mono (Nat.zero_le last)
  obtain ⟨rep, prior, hd, hit, post, later, rows, -, matchedNs, -, -, atAnchor,
    behind, -, -⟩ := ans.exact_of_explored kind fine reads (by omega) expl done split
  -- The anchor of the result lies inside the window, which ends at the last time.
  have mem : anc.datetime < I64.maximum := by
    have anchorMember : anc ∈ series.preceding request (request.leftEdge initialTickSpanNs last)
        (request.rightEdge initialTickSpanNs 0) := by simp [split]
    have bnd := (mem_preceding.mp anchorMember).1.2.2
    have upper := (@rightEdge_le_upperBound request initialTickSpanNs 0).trans
      request.upperBound_inRange.2
    omega
  -- A row at that time that precedes the anchor key is not behind the matched one.
  have ord := series.sorted
  rw [rows] at member ord
  have le : row.orderKey ≤ hit.orderKey := by
    rw [mem_append, mem_cons] at member
    rcases member with member | rfl | member
    · exact ((pairwise_append.mp ord).2.2 row member hit mem_cons_self).le
    · exact le_rfl
    · exact absurd pre (behind row member)
  simp only [resultOf] at matchedNs
  rcases Tick.le_iff.mp le with less | ⟨same, -⟩
  · have : row.datetime < hit.datetime := less
    omega
  · have : row.datetime = hit.datetime := same
    omega

/-- A tick read is exact unless it goes wrong in one of three ways. -/
theorem Answers.readsTicks_iff :
    series.ReadsExactly scan request ↔
      ¬ StopsShort request initialTickSpanNs (series.upTo request) (series.following request) ∧
      ¬ Endless request initialTickSpanNs (series.upTo request) (series.following request) ∧
      ¬ series.HidesAnchor request :=
  ⟨fun reads => ⟨ans.not_stopsShort kind fine reads, ans.not_endless kind fine reads,
      ans.not_hidesAnchor kind fine reads⟩,
    fun ⟨full, ends, shown⟩ => ans.readsExactly kind fine full ends shown⟩

end Ticks

end OrderedTicks

/-! ## K-line reads -/

namespace ContextAccumulator

/-- The rows are K-lines, in order and at times that are `i64`s. -/
def KlinesInRange : ContextAccumulator → Prop
  | .ticks _ => False
  | .klines _ rows => OrdMap.Sorted rows ∧ ∀ entry ∈ rows, I64.InRange entry.1

variable {accumulator : ContextAccumulator} {request : BacktestHistoryContextRequest}

theorem KlinesInRange.sound (held : accumulator.KlinesInRange) : accumulator.Sound := by
  cases accumulator with
  | ticks rows => exact held.elim
  | klines dur rows => exact held.1

/-- There is one row at a time, so no more rows precede the anchor than there are times. -/
theorem KlinesInRange.upTo_le (held : accumulator.KlinesInRange) :
    (accumulator.upTo request : Int) ≤ request.anchorNs - I64.minimum + 1 := by
  cases accumulator with
  | ticks rows => exact held.elim
  | klines dur rows =>
    have anc := request.anchorInRange.1
    have times := (held.1.filter fun ent => decide (ent.1 ≤ request.anchorNs)).keys_nodup
    have inn : ((rows.filter fun ent => decide (ent.1 ≤ request.anchorNs)).map
        Prod.fst).toFinset ⊆ Finset.Icc I64.minimum request.anchorNs := by
      intro time mem
      obtain ⟨ent, eMem, rfl⟩ := mem_map.mp (mem_toFinset.mp mem)
      obtain ⟨got, early⟩ := mem_filter.mp eMem
      exact Finset.mem_Icc.mpr ⟨(held.2 ent got).1, by simpa using early⟩
    have count := Finset.card_le_card inn
    rw [toFinset_card_of_nodup times, length_map, Int.card_Icc] at count
    simp only [upTo]
    omega

theorem KlinesInRange.append (held : accumulator.KlinesInRange) {rows : BacktestHistoryRows}
    (inR : ∀ dur klines, rows = .klines dur klines →
      ∀ row ∈ klines, I64.InRange row.datetime) {next : ContextAccumulator}
    (app : accumulator.append rows = .ok next) : next.KlinesInRange := by
  unfold ContextAccumulator.append at app
  split at app
  · exact held.elim
  · rename_i dur tgt incoming klines
    split_ifs at app
    obtain rfl := Except.ok.inj app
    have seen := inR incoming klines rfl
    refine ⟨held.1.foldl_insert Kline.datetime klines, ?_⟩
    replace held := held.2
    clear inR app
    induction klines generalizing tgt with
    | nil => exact held
    | cons row klines ih =>
      refine ih _ (fun row member => seen row (mem_cons_of_mem _ member)) ?_
      intro ent member
      rcases OrdMap.mem_insert member with rfl | member
      · exact seen row mem_cons_self
      · exact held ent member
  · cases app

theorem finish_isSome (snd : accumulator.Sound) {anc : AnchorMatch}
    (anch : accumulator.anchor request = some anc) (rep : BacktestHistoryRequestReport)
    (bdry : Option BacktestHistoryContextBoundary) :
    ∃ res, accumulator.finish request anc rep bdry = some res := by
  have idx := index_of_anchor snd anch
  have bnd := @upTo_le_length accumulator request
  cases accumulator with
  | ticks rows =>
    simp only [length] at bnd
    simp only [finish, slice, length, length_map]
    rw [if_pos ⟨by omega, by omega⟩]
    exact ⟨_, rfl⟩
  | klines dur rows =>
    simp only [length] at bnd
    simp only [finish, slice, length, length_map]
    rw [if_pos ⟨by omega, by omega⟩]
    exact ⟨_, rfl⟩

end ContextAccumulator

section Klines

variable {series : OrderedTicks} {scan : ContextScan} {request : BacktestHistoryContextRequest}
  {span : Int}

/-- How a read may stop without a result. -/
def StopsWithin (bound : Nat) (stop : ContextStop) (used : Nat) : Prop :=
  (∃ error, stop = .failed error) ∧ used ≤ bound

theorem ensures_askScan (rng : BacktestHistoryRequest) (count : Nat) :
    Ensures (askScan scan rng) count
      (fun coll used => scan rng = .ok coll ∧ used = count + 1)
      (StopsWithin (count + 1)) := by
  cases ans : scan rng with
  | ok coll => exact Ensures.of_eval_ok (eval_askScan ans count) ⟨rfl, rfl⟩
  | error error =>
    have stop : eval (askScan scan rng) count = (.error (.failed error), count + 1) := by
      unfold askScan
      rw [eval_bind_of_ok (show eval (modify (· + 1) : ContextM PUnit) count =
        (.ok ⟨⟩, count + 1) from rfl)]
      simp only [ans]
      rfl
    exact Ensures.of_eval_error stop ⟨⟨error, rfl⟩, le_rfl⟩

theorem ensures_takeRows (answers : series.Answers scan) {rng : BacktestHistoryRequest}
    {coll : BacktestHistoryCollected} (ans : scan rng = .ok coll) {accumulator : ContextAccumulator}
    (held : accumulator.KlinesInRange) (msg : String) (count : Nat) :
    Ensures (liftM (takeRows request coll accumulator msg) : ContextM ContextAccumulator)
      count (fun next used => next.KlinesInRange ∧ used = count) (StopsWithin count) := by
  unfold takeRows
  split
  · exact Ensures.of_eval_error (eval_lift rfl count) ⟨⟨_, rfl⟩, le_rfl⟩
  · split
    · rename_i next app
      refine Ensures.of_eval_ok (eval_lift rfl count) ⟨held.append ?_ app, rfl⟩
      intro dur klines same
      refine answers.klines rng coll.request dur klines ?_
      rw [ans, ← same]
    · exact Ensures.of_eval_error (eval_lift rfl count) ⟨⟨_, rfl⟩, le_rfl⟩

theorem StopsWithin.mono {bd wider : Nat} (le : bd ≤ wider) {stop : ContextStop} {used : Nat}
    (stops : StopsWithin bd stop used) : StopsWithin wider stop used :=
  ⟨stops.1, stops.2.trans le⟩

theorem ensures_collectRange (answers : series.Answers scan) {startNs endNs : Int}
    {accumulator : ContextAccumulator} (held : accumulator.KlinesInRange) (count : Nat) :
    Ensures (collectRange scan request startNs endNs accumulator) count
      (fun next used => next.KlinesInRange ∧ used ≤ count + 1 ∧
        (startNs < endNs → I64.saturated (endNs - startNs) ≤ maxContextSpanNs))
      (StopsWithin (count + 1)) := by
  unfold collectRange
  split
  · rename_i emp
    exact Ensures.pure ⟨held, by omega, fun ne => absurd ne (not_lt.mpr emp)⟩
  split
  · exact Ensures.throw ⟨⟨_, rfl⟩, by omega⟩
  rename_i narrow
  refine Ensures.bind (ensures_askScan _ count) ?_
  rintro coll used ⟨ans, rfl⟩
  refine Ensures.bind (ensures_takeRows answers ans held _ _) ?_
  rintro next used ⟨held, rfl⟩
  split
  · exact Ensures.throw ⟨⟨_, rfl⟩, le_rfl⟩
  · exact Ensures.pure ⟨held, le_rfl, fun _ => not_lt.mp narrow⟩

theorem klinesInRange_new {dur : Nat} (kind : request.kind = .kline dur) :
    (ContextAccumulator.new request.kind).KlinesInRange := by
  simp only [kind, ContextAccumulator.new, ContextAccumulator.KlinesInRange]
  exact ⟨OrdMap.sorted_nil, forall_mem_nil _⟩

theorem ensures_finalize (answers : series.Answers scan) {dur : Nat}
    (kind : request.kind = .kline dur) (startNs endNs : Int)
    (bdry : Option BacktestHistoryContextBoundary) (count : Nat) :
    Ensures (finalizeContext scan request startNs endNs bdry) count
      (fun _ used => used ≤ count + 1) (StopsWithin (count + 1)) := by
  unfold finalizeContext
  refine Ensures.bind (ensures_askScan _ count) ?_
  rintro coll used ⟨ans, rfl⟩
  refine Ensures.bind (ensures_takeRows answers ans (klinesInRange_new kind) _ _) ?_
  rintro accumulator used ⟨held, rfl⟩
  split
  · exact Ensures.throw ⟨⟨_, rfl⟩, le_rfl⟩
  · rename_i anc anch
    obtain ⟨res, done⟩ := ContextAccumulator.finish_isSome held.sound anch coll.request bdry
    rw [done]
    exact Ensures.pure le_rfl

/-- What every turn of a K-line read keeps: the right end after some extensions, none of which was
too wide or started at the upper bound. -/
structure KlineSearch (request : BacktestHistoryContextRequest) (span : Int)
    (search : ContextSearch) (count right : Nat) : Prop where
  held : search.accumulator.KlinesInRange
  atRight : search.right = request.rightEdge span right
  rightSpan : search.rightSpan = I64.saturated (span * 2 ^ right)
  counted : count ≤ search.scans
  extended : 1 + right ≤ search.scans
  within : search.scans ≤ maxContextScans
  below : ∀ level < right, request.rightEdge span level < request.upperBound
  narrow : ∀ level < right, I64.saturated (request.rightEdge span (level + 1) -
    request.rightEdge span level) ≤ maxContextSpanNs

/-- The right end reaches the end of the range of an `i64` within the scans, and enough times
precede the anchor for the rows asked for. -/
def KlineEndless (request : BacktestHistoryContextRequest) (span : Int) : Prop :=
  request.effectiveEndNs = none ∧ 0 < request.afterRows ∧
    (request.beforeRows : Int) ≤ request.anchorNs - I64.minimum ∧
    ∃ right, IsLeast {level | request.upperBound ≤ request.rightEdge span level} right ∧
      1 + right ≤ maxContextScans ∧
      ∀ level < right, I64.saturated (request.rightEdge span (level + 1) -
        request.rightEdge span level) ≤ maxContextSpanNs

variable {search : ContextSearch} {count right : Nat}

theorem KlineSearch.extendLeft (ans : series.Answers scan)
    (rch : KlineSearch request span search count right) (room : search.scans < maxContextScans) :
    Ensures (search.extendLeft scan request) count
      (fun next used => KlineSearch request span next used right ∧ next.scans = search.scans + 1)
      (StopsWithin maxContextScans) := by
  have cnt := rch.counted
  unfold ContextSearch.extendLeft
  refine Ensures.bind ((ensures_collectRange ans rch.held count).mono
    (fun _ _ coll => coll) fun _ _ stop => stop.mono (by omega)) ?_
  rintro next used ⟨held, more, -⟩
  have ext := rch.extended
  exact Ensures.pure ⟨⟨held, rch.atRight, rch.rightSpan, by dsimp only; omega,
    by dsimp only; omega, room, rch.below, rch.narrow⟩, rfl⟩

theorem KlineSearch.extendRight (ans : series.Answers scan) (pos : 0 < span)
    (rch : KlineSearch request span search count right) (room : search.scans < maxContextScans)
    (beneath : request.rightEdge span right < request.upperBound) :
    Ensures (search.extendRight scan request) count
      (fun next used => KlineSearch request span next used (right + 1) ∧
        next.scans = search.scans + 1)
      (StopsWithin maxContextScans) := by
  have cnt := rch.counted
  have ext := rch.extended
  unfold ContextSearch.extendRight
  rw [rch.atRight, rch.rightSpan, rightEdge_succ pos, span_succ pos]
  refine Ensures.bind ((ensures_collectRange ans rch.held count).mono
    (fun _ _ coll => coll) fun _ _ stop => stop.mono (by omega)) ?_
  rintro next used ⟨held, more, wid⟩
  refine Ensures.pure ⟨⟨held, rfl, rfl, by dsimp only; omega, by dsimp only; omega, room,
    fun lv bnd => ?_, fun lv bnd => ?_⟩, rfl⟩
  · rcases Nat.lt_succ_iff_lt_or_eq.mp bnd with pre | rfl
    · exact rch.below lv pre
    · exact beneath
  · rcases Nat.lt_succ_iff_lt_or_eq.mp bnd with pre | rfl
    · exact rch.narrow lv pre
    · exact wid (rightEdge_lt pos beneath)

/-- A turn of a K-line read ends the read or makes a scan, or the read is at the end of the range
of an `i64`. -/
theorem KlineSearch.turn (ans : series.Answers scan) (pos : 0 < span) {dur : Nat}
    (kind : request.kind = .kline dur)
    (rch : KlineSearch request span search count right) (ends : ¬ KlineEndless request span) :
    Ensures (search.turn scan request) count
      (fun out used => match out with
        | .inl _ => used ≤ maxContextScans + 1
        | .inr next => ∃ nextR, KlineSearch request span next used nextR ∧
            search.scans < next.scans)
      (StopsWithin (maxContextScans + 1)) := by
  have win := rch.within
  have cnt := rch.counted
  have finalized : ∀ {used : Nat} (startNs endNs : Int)
      (bdry : Option BacktestHistoryContextBoundary), used ≤ maxContextScans →
      Ensures (do return .inl (← finalizeContext scan request startNs endNs bdry) :
        ContextM (BacktestHistoryContextResult ⊕ ContextSearch)) used
        (fun out used => match out with
          | .inl _ => used ≤ maxContextScans + 1
          | .inr next => ∃ nextR, KlineSearch request span next used nextR ∧
              search.scans < next.scans)
        (StopsWithin (maxContextScans + 1)) := by
    intro used startNs endNs bdry bnd
    refine Ensures.bind ((ensures_finalize ans kind startNs endNs bdry used).mono
      (fun _ _ ret => ret) fun _ _ stop => stop.mono (by omega)) ?_
    intro res used ret
    exact Ensures.pure (by dsimp only; omega)
  unfold ContextSearch.turn
  split
  · split
    · exact Ensures.throw ⟨⟨_, rfl⟩, by omega⟩
    split
    · exact Ensures.throw ⟨⟨_, rfl⟩, by omega⟩
    rename_i room
    refine Ensures.bind ((rch.extendLeft ans (not_le.mp room)).mono
      (fun _ _ move => move) fun _ _ stop => stop.mono (by omega)) ?_
    rintro next used ⟨move, more⟩
    exact Ensures.pure ⟨right, move, by omega⟩
  rename_i anc anch
  have idx := ContextAccumulator.index_of_anchor rch.held.sound anch
  have times := @ContextAccumulator.KlinesInRange.upTo_le _ request rch.held
  dsimp only [ContextAccumulator.countsAround]
  split
  · exact finalized _ _ _ (by omega)
  rename_i few
  -- The first half of the turn either leaves the search as it is or makes a scan.
  refine @Ensures.bind _ _ _ _ _ _ _ _ (fun next used => KlineSearch request span next used right ∧
      (search.scans < next.scans ∨ (next = search ∧ used = count ∧
        request.beforeRows ≤ anc.index))) ?_ ?_
  · unfold ContextSearch.fetchPreceding
    split
    · split
      · exact Ensures.throw ⟨⟨_, rfl⟩, by omega⟩
      rename_i open_
      obtain ⟨-, room⟩ := not_or.mp open_
      exact (rch.extendLeft ans (not_le.mp room)).mono
        (fun _ _ move => ⟨move.1, .inl (by omega)⟩) fun _ _ stop => stop.mono (by omega)
    · rename_i fits
      exact Ensures.pure ⟨rch, .inr ⟨rfl, rfl, by simpa using fits⟩⟩
  rintro next used ⟨move, progressed⟩
  have nextWithin := move.within
  have nextCounted := move.counted
  refine @Ensures.bind _ _ _ _ _ _ _ _ (fun out used => ∃ nextR,
      KlineSearch request span out.2 used nextR ∧ (out.1 = none → search.scans < out.2.scans)) ?_ ?_
  · unfold ContextSearch.fetchFollowing
    split
    · rename_i needed
      split
      · rename_i atBound
        refine Ensures.pure ⟨right, move, fun ever => ?_⟩
        dsimp only at ever ⊢
        rw [map_eq_none_iff] at ever
        rcases progressed with more | ⟨rfl, rfl, fits⟩
        · exact more
        refine absurd ?_ ends
        rw [move.atRight] at atBound
        have ext := move.extended
        refine ⟨ever, ?_, by omega, right, ⟨atBound, fun lv hit => ?_⟩, by omega,
          move.narrow⟩
        · have : next.accumulator.length - (anc.index + 1) < request.afterRows := by
            simpa using needed
          omega
        · by_contra! earlier
          exact absurd (move.below lv earlier) (not_lt.mpr hit)
      split
      · exact Ensures.throw ⟨⟨_, rfl⟩, by omega⟩
      rename_i lt room
      rw [move.atRight, not_le] at lt
      refine Ensures.bind ((move.extendRight ans pos (not_le.mp room) lt).mono
        (fun _ _ move => move) fun _ _ stop => stop.mono (by omega)) ?_
      rintro last used ⟨further, more⟩
      refine Ensures.pure ⟨right + 1, further, fun _ => ?_⟩
      rcases progressed with progressed | ⟨rfl, -, -⟩ <;> dsimp only <;> omega
    · rename_i notNeeded
      refine Ensures.pure ⟨right, move, fun _ => ?_⟩
      rcases progressed with more | ⟨-, -, fits⟩
      · exact more
      · simp only [decide_eq_true_eq] at notNeeded
        simp only [Bool.and_eq_true, Bool.not_eq_true', decide_eq_false_iff_not] at few
        omega
  rintro ⟨bdry, last⟩ used ⟨nextR, further, more⟩
  have lastWithin := further.within
  have lastCounted := further.counted
  cases bdry with
  | some bdry => exact finalized _ _ _ (by omega)
  | none => exact Ensures.pure ⟨nextR, further, more rfl⟩

/-- A K-line read that cannot reach the end of the range of an `i64` ends, whatever the scans
return. -/
theorem KlineSearch.ends (ans : series.Answers scan) (pos : 0 < span) {dur : Nat}
    (kind : request.kind = .kline dur) (ends : ¬ KlineEndless request span) (budget : Nat) :
    ∀ {search : ContextSearch} {count right : Nat},
      KlineSearch request span search count right → maxContextScans < budget + search.scans →
      ∃ fuel, Ensures (search.run scan request fuel) count
        (fun res used => res.isSome ∧ used ≤ maxContextScans + 1)
        (StopsWithin (maxContextScans + 1)) := by
  induction budget with
  | zero =>
    intro search count right rch bnd
    have win := rch.within
    omega
  | succ budget ih =>
    intro search count right rch bnd
    have turned := rch.turn ans pos kind ends
    cases evaluated : eval (search.turn scan request) count with
    | mk out used =>
      unfold Ensures at turned
      rw [evaluated] at turned
      cases out with
      | error stop => exact ⟨1, Ensures.of_eval_error (eval_bind_of_error evaluated) turned⟩
      | ok next =>
        cases next with
        | inl res => exact ⟨1, Ensures.of_eval_ok (eval_bind_of_ok evaluated) ⟨rfl, turned⟩⟩
        | inr next =>
          obtain ⟨nextR, move, more⟩ := turned
          obtain ⟨fuel, fin⟩ := ih move (by omega)
          refine ⟨fuel + 1, ?_⟩
          unfold Ensures at fin ⊢
          rw [ContextSearch.run, eval_bind_of_ok evaluated]
          exact fin

/-- The length of 14 days that the first span of a K-line read is clamped to. -/
theorem initialSpanNs_kline {dur : Nat} (kind : request.kind = .kline dur)
    (begs : request.initialSpanNs = some span) :
    0 < span ∧ span ≤ 14 * 24 * 60 * 60 * 1000000000 := by
  unfold initialSpanNs at begs
  rw [kind] at begs
  dsimp only at begs
  split_ifs at begs
  obtain rfl := some.inj begs
  omega

theorem initialSpanNs_eq_none {dur : Nat} (kind : request.kind = .kline dur)
    (long : dur ≤ 28 * dailyKlineDurationNs) :
    request.initialSpanNs = none ↔ 7 * dailyKlineDurationNs < dur := by
  unfold initialSpanNs
  rw [kind]
  dsimp only
  unfold durationAsNs dailyKlineDurationNs nanosPerSecond at *
  split
  · rename_i panics
    unfold I64.saturated I64.minimum I64.maximum at panics
    exact ⟨fun _ => by omega, fun _ => rfl⟩
  · rename_i fine
    unfold I64.saturated I64.minimum I64.maximum at fine
    exact ⟨nofun, fun _ => by omega⟩

/-- A K-line read that cannot reach the end of the range of an `i64` keeps its bounds. -/
theorem OrderedTicks.Answers.readsExactly_kline (ans : series.Answers scan) {dur : Nat}
    (kind : request.kind = .kline dur) (fine : request.validate = .ok ())
    (begs : request.initialSpanNs = some span) (ends : ¬ KlineEndless request span) :
    series.ReadsExactly scan request := by
  obtain ⟨pos, few⟩ := initialSpanNs_kline kind begs
  have mem : I64.InRange span := by
    unfold I64.InRange I64.minimum I64.maximum
    omega
  have hd : Ensures (startSearch scan request span) 0
      (fun search used => KlineSearch request span search used 0)
      (StopsWithin maxContextScans) := by
    unfold startSearch
    dsimp only
    rw [rightEdge_zero pos]
    refine Ensures.bind ((ensures_collectRange ans (klinesInRange_new kind) 0).mono
      (fun _ _ coll => coll) fun _ _ stopped => stopped.mono (by decide)) ?_
    rintro accumulator used ⟨held, bdd, -⟩
    refine Ensures.pure ⟨held, rfl, ?_, bdd, le_rfl,
      show 1 ≤ maxContextScans by decide, nofun, nofun⟩
    rw [Int.pow_zero, Int.mul_one, I64.saturated_eq mem]
  unfold Ensures at hd
  split at hd
  · rename_i search used began
    obtain ⟨fuel, fin⟩ := KlineSearch.ends ans pos kind ends maxContextScans hd
      (by have := hd.extended; omega)
    have evaluated := @OrderedTicks.eval_collectContext _ scan fine _ begs fuel
    rw [eval_bind_of_ok began] at evaluated
    unfold Ensures at fin
    split at fin
    · rename_i res used' ran
      obtain ⟨isSome, bdd⟩ := fin
      obtain ⟨val, rfl⟩ := isSome_iff_exists.mp isSome
      refine ⟨fuel, _, _, evaluated.trans ran, bdd, .inr ⟨val, rfl, fun tick => ?_⟩⟩
      rw [kind] at tick
      cases tick
    · rename_i stop used' ran
      obtain ⟨⟨err, rfl⟩, bdd⟩ := fin
      exact ⟨fuel, _, _, evaluated.trans ran, bdd, .inl ⟨err, rfl⟩⟩
  · rename_i stop used stopped
    obtain ⟨⟨err, rfl⟩, bdd⟩ := hd
    refine ⟨0, _, used, ?_, by omega, .inl ⟨err, rfl⟩⟩
    rw [OrderedTicks.eval_collectContext fine begs, eval_bind_of_error stopped]

theorem not_readsExactly_of_panic (fine : request.validate = .ok ())
    (panics : request.initialSpanNs = none) : ¬ series.ReadsExactly scan request := by
  rintro ⟨fuel, out, cls, fin, -, res⟩
  have panicked : eval (collectContext scan request fuel) 0 = (.error .panicked, 0) := by
    unfold collectContext
    rw [fine]
    simp only [panics]
    rfl
  rw [panicked] at fin
  obtain ⟨rfl, -⟩ := Prod.mk.inj fin
  rcases res with ⟨err, absurd⟩ | ⟨val, absurd, -⟩ <;> cases absurd

/-! ### A source that keeps a K-line read going -/

def flatKline (datetime : Int) : Kline :=
  ⟨0, datetime, .nan, .nan, .nan, .nan, 0, 0, 0, none⟩

/-- One row at each of the last times up to the anchor. -/
def klinesBefore (anchorNs : Int) (beforeRows : Nat) : List Kline :=
  (List.range (beforeRows + 1)).map fun (index : Nat) => flatKline (anchorNs - beforeRows + index)

def klineEntries (rows : List Kline) : List (Int × Kline) := rows.map fun row => (row.datetime, row)

/-- A source with the rows of a series, and for every K-line request the same rows. -/
def steadyScan (series : OrderedTicks) (rows : List Kline) : ContextScan := fun range =>
  .ok ⟨⟨range.requestId, 0⟩, match range.kind with
    | .tick => .ticks (series.between range.startNs range.endNs)
    | .kline duration => .klines (durationAsNs duration) rows⟩

theorem steadyScan_answers {rows : List Kline} (inR : ∀ row ∈ rows, I64.InRange row.datetime) :
    series.Answers (steadyScan series rows) := by
  constructor
  · intro rng kind
    refine ⟨⟨rng.requestId, 0⟩, ?_⟩
    simp only [steadyScan, kind]
  · intro rng rep dur klines ans row mem
    simp only [steadyScan] at ans
    obtain ⟨-, same⟩ := BacktestHistoryCollected.mk.inj (Except.ok.inj ans)
    split at same
    · cases same
    · obtain ⟨-, rfl⟩ := BacktestHistoryRows.klines.inj same
      exact inR row mem

theorem datetime_mem_klinesBefore {anch : Int} {oldRows : Nat} {row : Kline}
    (mem : row ∈ klinesBefore anch oldRows) :
    anch - oldRows ≤ row.datetime ∧ row.datetime ≤ anch := by
  obtain ⟨idx, inn, rfl⟩ := mem_map.mp mem
  have bnd := mem_range.mp inn
  simp only [flatKline]
  omega

theorem sorted_klineEntries (anch : Int) (oldRows : Nat) :
    OrdMap.Sorted (klineEntries (klinesBefore anch oldRows)) := by
  unfold OrdMap.Sorted klineEntries klinesBefore
  rw [List.map_map, pairwise_map]
  refine pairwise_lt_range.imp fun {left right} less => ?_
  simp only [Function.comp_apply, flatKline]
  omega

theorem foldl_klinesBefore {anch : Int} {oldRows : Nat} {tgt : List (Int × Kline)}
    (srt : OrdMap.Sorted tgt) (seen : ∀ ent ∈ tgt, ent ∈ klineEntries (klinesBefore anch oldRows)) :
    (klinesBefore anch oldRows).foldl
        (fun tgt row => OrdMap.insert row.datetime row tgt) tgt =
      klineEntries (klinesBefore anch oldRows) := by
  have unique : ∀ row ∈ klinesBefore anch oldRows,
      ∀ alt ∈ klinesBefore anch oldRows, row.datetime = alt.datetime → row = alt := by
    intro row mem alt altM same
    obtain ⟨idx, -, rfl⟩ := mem_map.mp mem
    obtain ⟨otherIndex, -, rfl⟩ := mem_map.mp altM
    simp only [flatKline] at same
    rw [show idx = otherIndex by omega]
  refine OrdMap.Sorted.ext_of_mem (srt.foldl_insert Kline.datetime _)
    (sorted_klineEntries anch oldRows) fun ent => ?_
  rw [srt.mem_foldl_insert]
  · constructor
    · rintro (mem | ⟨row, mem, rfl⟩)
      · exact seen ent mem
      · exact mem_map.mpr ⟨row, mem, rfl⟩
    · intro mem
      obtain ⟨row, rowMember, rfl⟩ := mem_map.mp mem
      exact .inr ⟨row, rowMember, rfl⟩
  · intro row mem ent held same
    obtain ⟨alt, altM, rfl⟩ := mem_map.mp (seen ent held)
    rw [unique alt altM row mem same]
  · exact unique

theorem steadyScan_byLevel {dur : Nat} (kind : request.kind = .kline dur) (pos : 0 < span) :
    ByLevel (steadyScan series (klinesBefore request.anchorNs request.beforeRows)) request span
      (fun _ _ => .klines (durationAsNs dur)
        (klineEntries (klinesBefore request.anchorNs request.beforeRows)))
      (fun _ => request.beforeRows + 1) (fun _ => 0) := by
  have ans : ∀ startNs endNs tgt, OrdMap.Sorted tgt →
      (∀ ent ∈ tgt, ent ∈ klineEntries (klinesBefore request.anchorNs request.beforeRows)) →
      Answered (steadyScan series (klinesBefore request.anchorNs request.beforeRows)) request
        startNs endNs (.klines (durationAsNs dur) tgt) (.klines (durationAsNs dur)
          (klineEntries (klinesBefore request.anchorNs request.beforeRows))) := by
    intro startNs endNs tgt srt seen
    refine ⟨_, rfl, ?_, ?_⟩
    · simp only [rangeRequest, kind, ContextAccumulator.append, if_true]
      rw [foldl_klinesBefore srt seen]
    · simp only [rangeRequest, kind, BacktestHistoryRows.length, ContextAccumulator.length,
        klineEntries, length_map]
      exact le_rfl
  have srt := sorted_klineEntries request.anchorNs request.beforeRows
  refine ⟨pos, fun _ _ => srt, fun _ _ => ?_, fun _ _ => ?_, ?_, fun _ _ => ans _ _ _ srt fun _ mem
    => mem, fun _ _ => ans _ _ _ srt fun _ mem => mem⟩
  · simp only [ContextAccumulator.upTo]
    rw [filter_eq_self.mpr]
    · simp [klineEntries, klinesBefore]
    · intro ent mem
      obtain ⟨row, rowMember, rfl⟩ := mem_map.mp mem
      simpa using (datetime_mem_klinesBefore rowMember).2
  · simp [ContextAccumulator.length, klineEntries, klinesBefore]
  · rw [kind, ContextAccumulator.new]
    exact ans _ _ _ OrdMap.sorted_nil (forall_mem_nil _)

theorem beforeRows_lt_limit (fine : request.validate = .ok ()) :
    request.beforeRows + 1 ≤ request.candidateRowLimit := by
  unfold validate at fine
  split_ifs at fine with sym kind count ends
  unfold candidateRowLimit
  dsimp only
  omega

/-- Where the end of the range of an `i64` is in reach, a source may keep a read going. -/
theorem KlineEndless.not_readsExactly {dur : Nat} (kind : request.kind = .kline dur)
    (fine : request.validate = .ok ()) (begs : request.initialSpanNs = some span)
    (ever : KlineEndless request span) :
    ∃ scan, series.Answers scan ∧ ¬ series.ReadsExactly scan request := by
  obtain ⟨ever, asked, times, last, rch, win, narrow⟩ := ever
  obtain ⟨pos, few⟩ := initialSpanNs_kline kind begs
  have inn : I64.InRange span := by
    unfold I64.InRange I64.minimum I64.maximum
    omega
  have lvs := @steadyScan_byLevel series _ _ _ kind pos
  have lim := beforeRows_lt_limit fine
  refine ⟨steadyScan series (klinesBefore request.anchorNs request.beforeRows),
    steadyScan_answers fun row mem => ?_, ?_⟩
  · have bnds := datetime_mem_klinesBefore mem
    have anc := request.anchorInRange
    unfold I64.InRange at *
    omega
  -- The window grows to the right only, up to the end of the range.
  have goesOn : ∀ left right, Explored request span (fun _ => request.beforeRows + 1) (fun _ => 0)
      left right → right ≤ last ∧ ∃ nextR, request.probe span (fun _ => request.beforeRows + 1)
        (fun _ => 0) left right = .next left nextR ∧ nextR ≤ last := by
    have ahead : ∀ left right, left = 0 → right ≤ last → ∃ nextR,
        request.probe span (fun _ => request.beforeRows + 1) (fun _ => 0) left right =
          .next left nextR ∧ nextR ≤ last := by
      rintro left right rfl bnd
      rw [probe, if_neg (by omega), if_pos (by omega), if_neg (by omega), probeRight,
        if_pos asked]
      by_cases atBound : request.upperBound ≤ request.rightEdge span right
      · rw [if_pos atBound, ever]
        exact ⟨right, rfl, bnd⟩
      · have more : right < last := by
          refine lt_of_le_of_ne bnd ?_
          rintro rfl
          exact atBound rch.1
        rw [if_neg atBound, if_pos ⟨by omega, narrow right more, by omega⟩]
        exact ⟨right + 1, rfl, more⟩
    intro left right expl
    have atLeft : left = 0 ∧ right ≤ last := by
      induction expl with
      | start => exact ⟨rfl, Nat.zero_le _⟩
      | next _ move ih =>
        obtain ⟨nextR, same, bnd⟩ := ahead _ _ ih.1 ih.2
        obtain ⟨rfl, rfl⟩ := ContextProbe.next.inj (same.symm.trans move)
        exact ⟨ih.1, bnd⟩
    exact ⟨atLeft.2, ahead left right atLeft.1 atLeft.2⟩
  rintro ⟨fuel, out, cls, fin, -, res⟩
  have narrowStart : I64.saturated (request.rightEdge span 0 - request.leftEdge span 0) ≤
      maxContextSpanNs := by
    have anc := request.anchorInRange
    unfold leftEdge rightEdge maxContextSpanNs
    rw [Int.pow_zero, Int.mul_one]
    unfold I64.InRange at anc
    unfold I64.saturated I64.minimum I64.maximum at *
    omega
  have began := eval_startSearch lvs fine inn narrowStart
  rw [if_pos (by omega)] at began
  obtain ⟨used, runs⟩ := run_endless lvs (by omega) (fun left right expl => by
    obtain ⟨-, nextR, move, -⟩ := goesOn left right expl
    exact ⟨left, nextR, move⟩) fuel .start
  rw [OrderedTicks.eval_collectContext fine begs, eval_bind_of_ok began, runs] at fin
  obtain ⟨rfl, -⟩ := Prod.mk.inj fin
  rcases res with ⟨err, absurd⟩ | ⟨val, absurd, -⟩ <;> cases absurd

end Klines

/-! ## Exact reads -/

/-- A tick read does not stop short at its effective end, does not run into the last time there is
and sees the rows at its anchor; the first span of a K-line read can be clamped, and the read does
not run into the last time there is. -/
def OrderedTicks.CanRead (series : OrderedTicks) (request : BacktestHistoryContextRequest) :
    Prop :=
  match request.kind with
  | .tick =>
    ¬ StopsShort request initialTickSpanNs (series.upTo request) (series.following request) ∧
    ¬ Endless request initialTickSpanNs (series.upTo request) (series.following request) ∧
    ¬ series.HidesAnchor request
  | .kline duration => duration ≤ 7 * dailyKlineDurationNs ∧
      ∀ span, request.initialSpanNs = some span → ¬ KlineEndless request span

/-- Which anchor-centred reads end within their scans, without a panic and with exact rows. -/
theorem OrderedTicks.readsExactly_iff (series : OrderedTicks)
    (request : BacktestHistoryContextRequest) (valid : request.validate = .ok ())
    (classified : ∀ duration, request.kind = .kline duration →
      ∃ source, classifyDuration (durationAsNs duration) = .ok source) :
    (∀ scan, series.Answers scan → series.ReadsExactly scan request) ↔ series.CanRead request := by
  cases kind : request.kind with
  | tick =>
    simp only [CanRead, kind]
    constructor
    · intro reads
      have ans := @steadyScan_answers series _ (forall_mem_nil _)
      exact (ans.readsTicks_iff kind valid).mp (reads _ ans)
    · intro can scan ans
      exact (ans.readsTicks_iff kind valid).mpr can
  | kline duration =>
    simp only [CanRead, kind]
    obtain ⟨source, acc⟩ := classified duration kind
    have bnds := classifyDuration_bounds acc
    have long : (duration : Int) ≤ 28 * dailyKlineDurationNs := by
      unfold durationAsNs I64.maximum dailyKlineDurationNs nanosPerSecond at *
      omega
    have panics := initialSpanNs_eq_none kind long
    constructor
    · intro reads
      refine ⟨?_, fun span los ever => ?_⟩
      · by_contra! late
        exact not_readsExactly_of_panic valid (panics.mpr late)
          (reads _ (steadyScan_answers (forall_mem_nil _)))
      · obtain ⟨scan, ans, wrong⟩ := @KlineEndless.not_readsExactly series _ _ _ kind valid
          los ever
        exact wrong (reads scan ans)
    · rintro ⟨early, ends⟩ scan ans
      cases los : request.initialSpanNs with
      | none =>
        have late := panics.mp los
        omega
      | some span => exact ans.readsExactly_kline kind valid los (ends span los)

def tickAt (id datetime : Int) : Tick := ⟨id, datetime, [], none⟩

def twoTicks : OrderedTicks where
  rows := [tickAt 1 7000000000, tickAt 2 10000000000]
  sorted := by decide +kernel
  inRange := by decide +kernel

/-- Reads around the second tick. -/
def secondTick (afterRows : Nat) (effectiveEndNs : Option Int)
    (endInRange : ∀ endNs, effectiveEndNs = some endNs → I64.InRange endNs) :
    BacktestHistoryContextRequest where
  requestId := 1
  symbol := "SHFE.au2608"
  kind := .tick
  anchorNs := 10000000000
  anchorRowId := none
  beforeRows := 1
  afterRows := afterRows
  effectiveEndNs := effectiveEndNs
  anchorInRange := by decide
  rowIdInRange := fun _ absurd => (by cases absurd)
  endInRange := endInRange

/-- The tick before it. -/
def previousTick : BacktestHistoryContextRequest :=
  secondTick 0 none fun _ absurd => (by cases absurd)

theorem readsExactly_previousTick : previousTick.validate = .ok () ∧
    ∀ scan, twoTicks.Answers scan → twoTicks.ReadsExactly scan previousTick := by
  refine ⟨by decide +kernel, (twoTicks.readsExactly_iff previousTick (by decide +kernel)
    fun _ absurd => (by cases absurd)).mpr ⟨fun stops => stops.1 rfl, ?_, fun hides => ?_⟩⟩
  · rintro ⟨-, left, right, -, -, few, -⟩
    exact absurd few (Nat.not_lt_zero _)
  · exact absurd hides.2.1 (by decide)

/-- The tick before it and one behind it, where time ends with the tick. -/
def bothTicks : BacktestHistoryContextRequest :=
  secondTick 1 (some 10000000001) fun _ same => (by obtain rfl := some.inj same; decide)

/-- The first tick is not returned: the read stops after one extension to the left. -/
theorem not_readsExactly_bothTicks : bothTicks.validate = .ok () ∧
    ¬ ∀ scan, twoTicks.Answers scan → twoTicks.ReadsExactly scan bothTicks := by
  have fine : bothTicks.validate = .ok () := by decide +kernel
  refine ⟨fine, fun reads => ?_⟩
  have ans := @steadyScan_answers twoTicks _ (forall_mem_nil _)
  refine ans.not_stopsShort rfl fine (reads _ ans) ⟨nofun, 0, 0, ?_⟩
  refine ⟨⟨?_, fun _ _ => Nat.zero_le _⟩, ⟨?_, fun _ _ => Nat.zero_le _⟩, ?_⟩
  · show 0 < twoTicks.upTo bothTicks 0
    decide +kernel
  · show bothTicks.upperBound ≤ bothTicks.rightEdge initialTickSpanNs 0
    decide +kernel
  · decide +kernel

end Tqsdk
