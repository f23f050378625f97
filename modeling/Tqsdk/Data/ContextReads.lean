import Tqsdk.Data.Context
import Mathlib.Order.Bounds.Basic
import Mathlib.Order.Interval.Finset.Nat
import Mathlib.Data.Int.Interval

/-!
# What an anchor-centred read returns
-/

namespace Tqsdk

open List Option

open Counted

/-! ## Rows at or before the anchor -/

section LastAtMost

variable {κ α : Type} [LinearOrder κ] {rows : List (κ × α)} {bd : κ}

theorem lastAtMost_eq_none :
    lastAtMost rows bd = none ↔ (rows.filter fun ent => ent.1 ≤ bd).length = 0 := by
  unfold lastAtMost
  split
  · rename_i emp
    simpa using emp
  · rename_i last
    have mem := mem_of_getLast? last
    constructor
    · intro absurd
      cases absurd
    · intro emp
      rw [eq_nil_of_length_eq_zero emp] at mem
      cases mem

/-- The last key at or below a bound is preceded by all the others below it. -/
theorem lastAtMost_eq_some (srt : OrdMap.Sorted rows) {key : κ} {idx : Nat}
    (hit : lastAtMost rows bd = some (key, idx)) :
    idx + 1 = (rows.filter fun ent => ent.1 ≤ bd).length ∧ key ≤ bd ∧
      ((rows.filter fun ent => ent.1 ≤ bd).getLast?.map Prod.fst) = some key := by
  unfold lastAtMost at hit
  split at hit
  · cases hit
  rename_i last val fin
  obtain ⟨rfl, rfl⟩ := Prod.mk.inj (some.inj hit)
  have mem := mem_of_getLast? fin
  have lt : last ≤ bd := by simpa using (mem_filter.mp mem).2
  have same : (rows.filter fun ent => ent.1 ≤ last) =
      rows.filter fun ent => ent.1 ≤ bd := by
    refine filter_congr fun ent inRows => ?_
    rw [decide_eq_decide]
    refine ⟨fun le => le.trans lt, fun le => ?_⟩
    have inFilter : ent ∈ rows.filter fun ent => ent.1 ≤ bd :=
      mem_filter.mpr ⟨inRows, by simpa using le⟩
    obtain ⟨front, split⟩ := getLast?_eq_some_iff.mp fin
    rw [split, mem_append, mem_singleton] at inFilter
    have ord : OrdMap.Sorted (front ++ [(last, val)]) := split ▸ srt.filter _
    rcases inFilter with inFront | rfl
    · exact le_of_lt ((pairwise_append.mp ord).2.2 ent inFront _ mem_cons_self)
    · exact le_rfl
  refine ⟨?_, lt, by rw [fin]; rfl⟩
  rw [same]
  have : 0 < (rows.filter fun ent => ent.1 ≤ bd).length := length_pos_of_mem mem
  omega

end LastAtMost

namespace ContextAccumulator

/-- The rows of a map are those of a request's kind, in the order of their keys. -/
def Sound (accumulator : ContextAccumulator) : Prop :=
  match accumulator with
  | .ticks rows => OrdMap.Sorted rows
  | .klines _ rows => OrdMap.Sorted rows

/-- How many rows are at or before the anchor. -/
def upTo (accumulator : ContextAccumulator) (request : BacktestHistoryContextRequest) : Nat :=
  match accumulator with
  | .ticks rows => (rows.filter fun entry =>
    entry.1 ≤ toLex (request.anchorNs, request.anchorRowId.getD I64.maximum)).length
  | .klines _ rows => (rows.filter fun entry => entry.1 ≤ request.anchorNs).length

variable {accumulator : ContextAccumulator} {request : BacktestHistoryContextRequest}

theorem anchor_eq_none : accumulator.anchor request = none ↔ accumulator.upTo request = 0 := by
  cases accumulator with
  | ticks rows => simp only [anchor, upTo, map_eq_none_iff, lastAtMost_eq_none]
  | klines dur rows => simp only [anchor, upTo, map_eq_none_iff, lastAtMost_eq_none]

theorem index_of_anchor (snd : accumulator.Sound) {hit : AnchorMatch}
    (anch : accumulator.anchor request = some hit) :
    hit.index + 1 = accumulator.upTo request := by
  cases accumulator with
  | ticks rows =>
    simp only [anchor, map_eq_some_iff, Prod.exists] at anch
    obtain ⟨key, idx, last, rfl⟩ := anch
    exact (lastAtMost_eq_some snd last).1
  | klines dur rows =>
    simp only [anchor, map_eq_some_iff, Prod.exists] at anch
    obtain ⟨key, idx, last, rfl⟩ := anch
    exact (lastAtMost_eq_some snd last).1

theorem upTo_le_length : accumulator.upTo request ≤ accumulator.length := by
  cases accumulator with
  | ticks rows => exact length_filter_le _ _
  | klines dur rows => exact length_filter_le _ _

end ContextAccumulator

/-! ## The edges of the window -/

namespace BacktestHistoryContextRequest

/-- The left end of the window after `level` extensions. -/
def leftEdge (request : BacktestHistoryContextRequest) (span : Int) (level : Nat) : Int :=
  I64.saturated (request.anchorNs - span * 2 ^ level)

/-- The right end of the window after `level` extensions. -/
def rightEdge (request : BacktestHistoryContextRequest) (span : Int) (level : Nat) : Int :=
  min (I64.saturated (request.anchorNs + span * 2 ^ level + 1)) request.upperBound

variable {request : BacktestHistoryContextRequest} {span : Int}

theorem upperBound_inRange (request : BacktestHistoryContextRequest) :
    I64.InRange request.upperBound := by
  unfold upperBound
  cases stop : request.effectiveEndNs with
  | none => decide
  | some endNs => exact request.endInRange endNs stop

theorem upperBound_of_none (ever : request.effectiveEndNs = none) :
    request.upperBound = I64.maximum := by
  rw [upperBound, ever, getD_none]

theorem upperBound_of_some {endNs : Int} (ends : request.effectiveEndNs = some endNs) :
    request.upperBound = endNs := by
  rw [upperBound, ends, getD_some]

theorem pow_pos_span (pos : 0 < span) (level : Nat) : 0 < span * 2 ^ level :=
  Int.mul_pos pos (Int.pow_pos (by decide))

theorem pow_succ_span (span : Int) (level : Nat) :
    span * 2 ^ (level + 1) = 2 * (span * 2 ^ level) := by
  rw [Int.pow_succ, ← Int.mul_assoc, Int.mul_comm]

section

variable (pos : 0 < span)

include pos

variable (level : Nat)

theorem span_succ :
    max (I64.saturated (I64.saturated (span * 2 ^ level) * 2)) 1 =
      I64.saturated (span * 2 ^ (level + 1)) := by
  have wid := pow_pos_span pos level
  rw [pow_succ_span]
  unfold I64.saturated I64.minimum I64.maximum
  omega

theorem leftEdge_succ :
    I64.saturated (request.leftEdge span level - I64.saturated (span * 2 ^ level)) =
      request.leftEdge span (level + 1) := by
  have wid := pow_pos_span pos level
  have anc := request.anchorInRange
  unfold leftEdge
  rw [pow_succ_span]
  unfold I64.InRange at anc
  unfold I64.saturated I64.minimum I64.maximum at *
  omega

theorem rightEdge_succ :
    min (I64.saturated (request.rightEdge span level + I64.saturated (span * 2 ^ level)))
      request.upperBound = request.rightEdge span (level + 1) := by
  have wid := pow_pos_span pos level
  have anc := request.anchorInRange
  have upper := request.upperBound_inRange
  unfold rightEdge
  rw [pow_succ_span]
  unfold I64.InRange at anc upper
  unfold I64.saturated I64.minimum I64.maximum at *
  omega

theorem rightEdge_zero :
    min (I64.saturated (I64.saturated (request.anchorNs + span) + 1)) request.upperBound =
      request.rightEdge span 0 := by
  have anc := request.anchorInRange
  unfold rightEdge
  rw [Int.pow_zero, Int.mul_one]
  unfold I64.InRange at anc
  unfold I64.saturated I64.minimum I64.maximum at *
  omega

theorem leftEdge_lt {level : Nat} (ovr : request.leftEdge span level ≠ I64.minimum) :
    request.leftEdge span (level + 1) < request.leftEdge span level := by
  have wid := pow_pos_span pos level
  have anc := request.anchorInRange
  unfold leftEdge at *
  rw [pow_succ_span]
  unfold I64.InRange at anc
  unfold I64.saturated I64.minimum I64.maximum at *
  omega

theorem leftEdge_le : request.leftEdge span (level + 1) ≤ request.leftEdge span level := by
  have wid := pow_pos_span pos level
  unfold leftEdge
  rw [pow_succ_span]
  unfold I64.saturated I64.minimum I64.maximum
  omega

theorem rightEdge_lt {level : Nat} (less : request.rightEdge span level < request.upperBound) :
    request.rightEdge span level < request.rightEdge span (level + 1) := by
  have wid := pow_pos_span pos level
  have anc := request.anchorInRange
  have upper := request.upperBound_inRange
  unfold rightEdge at *
  rw [pow_succ_span]
  unfold I64.InRange at anc upper
  unfold I64.saturated I64.minimum I64.maximum at *
  omega

theorem rightEdge_le : request.rightEdge span level ≤ request.rightEdge span (level + 1) := by
  have wid := pow_pos_span pos level
  unfold rightEdge
  rw [pow_succ_span]
  unfold I64.saturated I64.minimum I64.maximum
  omega

end

theorem rightEdge_le_upperBound (level : Nat) :
    request.rightEdge span level ≤ request.upperBound := min_le_right _ _

theorem edges_lt (pos : 0 < span) (ovr : request.anchorNs < request.upperBound ∨
    request.upperBound = I64.maximum) :
    request.leftEdge span 0 < request.rightEdge span 0 := by
  have anc := request.anchorInRange
  have upper := request.upperBound_inRange
  unfold leftEdge rightEdge
  rw [Int.pow_zero, Int.mul_one]
  unfold I64.InRange at anc upper
  unfold I64.saturated I64.minimum I64.maximum at *
  omega

theorem anchor_lt_upperBound {request : BacktestHistoryContextRequest}
    (fine : request.validate = .ok ()) :
    request.anchorNs < request.upperBound ∨ request.effectiveEndNs = none := by
  unfold validate at fine
  split_ifs at fine with sym kind n ends
  cases stop : request.effectiveEndNs with
  | none => exact .inr rfl
  | some endNs =>
    refine .inl ?_
    rw [upperBound_of_some stop]
    simpa [stop] using ends

end BacktestHistoryContextRequest

/-! ## A search over levels

What a turn does follows from how many rows the window has on each side, when the rows that are
read depend on the window only. -/

/-- What one turn makes of a window: it stops without a result, goes on with another window, or
takes its result from one. -/
inductive ContextProbe
  | failed
  | next (left right : Nat)
  | done (left right : Nat) (boundary : Option BacktestHistoryContextBoundary)
  deriving DecidableEq

namespace BacktestHistoryContextRequest

section Probe

variable (request : BacktestHistoryContextRequest) (span : Int) (upTo following : Nat → Nat)

/-- The window may be extended from a level: no end of the range of an `i64`, of the number of
scans, of the width of a scan or of the number of rows is in the way. -/
def LeftOpen (left right : Nat) : Prop :=
  request.leftEdge span left ≠ I64.minimum ∧ 1 + left + right < maxContextScans ∧
    I64.saturated (request.leftEdge span left - request.leftEdge span (left + 1)) ≤
      maxContextSpanNs ∧
    upTo (left + 1) + following right ≤ request.candidateRowLimit

def RightOpen (left right : Nat) : Prop :=
  1 + left + right < maxContextScans ∧
    I64.saturated (request.rightEdge span (right + 1) - request.rightEdge span right) ≤
      maxContextSpanNs ∧
    upTo left + following (right + 1) ≤ request.candidateRowLimit

instance (left right : Nat) : Decidable (request.LeftOpen span upTo following left right) :=
  inferInstanceAs (Decidable (_ ∧ _))

instance (left right : Nat) : Decidable (request.RightOpen span upTo following left right) :=
  inferInstanceAs (Decidable (_ ∧ _))

/-- The second half of a turn, which looks after the following rows. -/
def probeRight (left right : Nat) : ContextProbe :=
  if following right < request.afterRows then
    if request.upperBound ≤ request.rightEdge span right then
      match request.effectiveEndNs with
      | some endNs => .done left right (some (.futureEnd endNs))
      | none => .next left right
    else if request.RightOpen span upTo following left right then .next left (right + 1)
    else .failed
  else .next left right

def probe (left right : Nat) : ContextProbe :=
  if upTo left = 0 then
    if request.LeftOpen span upTo following left right then .next (left + 1) right else .failed
  else if request.beforeRows < upTo left then
    if request.afterRows ≤ following right then .done left right none
    else request.probeRight span upTo following left right
  else if request.LeftOpen span upTo following left right then
    request.probeRight span upTo following (left + 1) right
  else .failed

end Probe

end BacktestHistoryContextRequest

open BacktestHistoryContextRequest

section Simulation

variable {scan : ContextScan} {request : BacktestHistoryContextRequest} {span : Int}

/-- A scan of a range takes the rows from `before` to `next`. -/
def Answered (scan : ContextScan) (request : BacktestHistoryContextRequest) (startNs endNs : Int)
    (before next : ContextAccumulator) : Prop :=
  ∃ collected, scan (request.rangeRequest startNs endNs) = .ok collected ∧
    before.append collected.rows = .ok next ∧ collected.rows.length ≤ next.length

/-- The rows that are read depend on the levels of the window only. -/
structure ByLevel (scan : ContextScan) (request : BacktestHistoryContextRequest) (span : Int)
    (rows : Nat → Nat → ContextAccumulator) (upTo following : Nat → Nat) : Prop where
  positive : 0 < span
  sound : ∀ left right, (rows left right).Sound
  upTo_eq : ∀ left right, (rows left right).upTo request = upTo left
  length_eq : ∀ left right, (rows left right).length = upTo left + following right
  start : Answered scan request (request.leftEdge span 0) (request.rightEdge span 0)
    (.new request.kind) (rows 0 0)
  left : ∀ left right, Answered scan request (request.leftEdge span (left + 1))
    (request.leftEdge span left) (rows left right) (rows (left + 1) right)
  right : ∀ left right, Answered scan request (request.rightEdge span right)
    (request.rightEdge span (right + 1)) (rows left right) (rows left (right + 1))

/-- The variables of the loop at a window. -/
def searchAt (request : BacktestHistoryContextRequest) (span : Int)
    (rows : Nat → Nat → ContextAccumulator) (left right : Nat) : ContextSearch :=
  ⟨rows left right, request.leftEdge span left, request.rightEdge span right,
    I64.saturated (span * 2 ^ left), I64.saturated (span * 2 ^ right), 1 + left + right⟩

theorem eval_askScan {rng : BacktestHistoryRequest} {coll : BacktestHistoryCollected}
    (ans : scan rng = .ok coll) (n : Nat) :
    eval (askScan scan rng) n = (.ok coll, n + 1) := by
  unfold askScan
  rw [eval_bind_of_ok (show eval (modify (· + 1) : ContextM PUnit) n = (.ok ⟨⟩, n + 1) from rfl)]
  simp only [ans]
  rfl

section

variable {startNs endNs : Int} {before next : ContextAccumulator}
  (told : Answered scan request startNs endNs before next) (ne : startNs < endNs)

include told ne

theorem collectRange_fits (narrow : I64.saturated (endNs - startNs) ≤ maxContextSpanNs)
    (fits : next.length ≤ request.candidateRowLimit) (n : Nat) :
    eval (collectRange scan request startNs endNs before) n = (.ok next, n + 1) := by
  obtain ⟨coll, ans, app, few⟩ := told
  have took : takeRows request coll before
      "one context scan exceeded its candidate row allowance" = .ok next := by
    unfold takeRows
    rw [if_neg (by omega), app]
  unfold collectRange
  rw [if_neg (by omega), if_neg (by omega), eval_bind_of_ok (eval_askScan ans n),
    eval_bind_of_ok (eval_lift took _), if_neg (by omega)]
  rfl

theorem collectRange_refused (deny : maxContextSpanNs < I64.saturated (endNs - startNs) ∨
      request.candidateRowLimit < next.length) (n : Nat) :
    ∃ error used, eval (collectRange scan request startNs endNs before) n =
      (.error (.failed error), used) ∧ used ≤ n + 1 := by
  obtain ⟨coll, ans, app, few⟩ := told
  unfold collectRange
  rw [if_neg (by omega)]
  by_cases wide : maxContextSpanNs < I64.saturated (endNs - startNs)
  · rw [if_pos wide]
    exact ⟨_, _, eval_throw _ _, by omega⟩
  have excess := deny.resolve_left wide
  rw [if_neg wide, eval_bind_of_ok (eval_askScan ans n)]
  by_cases many : request.candidateRowLimit < coll.rows.length
  · have stop : takeRows request coll before
        "one context scan exceeded its candidate row allowance" = .error (.failed
          (request.error (.contextScanLimitExceeded request.candidateRowLimit)
            "one context scan exceeded its candidate row allowance")) := by
      rw [takeRows, if_pos many]
    exact ⟨_, _, eval_bind_of_error (eval_lift stop _), le_rfl⟩
  · have took : takeRows request coll before
        "one context scan exceeded its candidate row allowance" = .ok next := by
      unfold takeRows
      rw [if_neg many, app]
    rw [eval_bind_of_ok (eval_lift took _), if_pos excess]
    exact ⟨_, _, eval_throw _ _, le_rfl⟩

end

section

variable {rows : Nat → Nat → ContextAccumulator} {upTo following : Nat → Nat}
  (lvs : ByLevel scan request span rows upTo following) {left right : Nat}

include lvs

theorem eval_extendLeft (ovr : request.leftEdge span left ≠ I64.minimum)
    (wtn : 1 + left + right < maxContextScans) (n : Nat) :
    if request.LeftOpen span upTo following left right then
      eval ((searchAt request span rows left right).extendLeft scan request) n =
        (.ok (searchAt request span rows (left + 1) right), n + 1)
    else ∃ err used,
      eval ((searchAt request span rows left right).extendLeft scan request) n =
        (.error (.failed err), used) ∧ used ≤ n + 1 := by
  have told := lvs.left left right
  have ne := leftEdge_lt lvs.positive ovr
  have len := lvs.length_eq (left + 1) right
  unfold ContextSearch.extendLeft searchAt
  dsimp only
  rw [leftEdge_succ lvs.positive, span_succ lvs.positive]
  split
  · rename_i isOpen
    obtain ⟨-, -, narrow, fits⟩ := isOpen
    rw [eval_bind_of_ok (collectRange_fits told ne narrow (by omega) n)]
    simp only [eval_pure, Prod.mk.injEq, Except.ok.injEq, ContextSearch.mk.injEq, true_and,
      and_true]
    omega
  · rename_i isClosed
    have no : maxContextSpanNs < I64.saturated (request.leftEdge span left -
        request.leftEdge span (left + 1)) ∨
        request.candidateRowLimit < (rows (left + 1) right).length := by
      by_contra! fine
      exact isClosed ⟨ovr, wtn, fine.1, by omega⟩
    obtain ⟨err, used, stop, bdd⟩ := collectRange_refused told ne no n
    exact ⟨err, used, eval_bind_of_error stop, bdd⟩

theorem eval_extendRight (less : request.rightEdge span right < request.upperBound)
    (wtn : 1 + left + right < maxContextScans) (n : Nat) :
    if request.RightOpen span upTo following left right then
      eval ((searchAt request span rows left right).extendRight scan request) n =
        (.ok (searchAt request span rows left (right + 1)), n + 1)
    else ∃ err used,
      eval ((searchAt request span rows left right).extendRight scan request) n =
        (.error (.failed err), used) ∧ used ≤ n + 1 := by
  have told := lvs.right left right
  have ne := rightEdge_lt lvs.positive less
  have len := lvs.length_eq left (right + 1)
  unfold ContextSearch.extendRight searchAt
  dsimp only
  rw [rightEdge_succ lvs.positive, span_succ lvs.positive]
  split
  · rename_i isOpen
    obtain ⟨-, narrow, fits⟩ := isOpen
    rw [eval_bind_of_ok (collectRange_fits told ne narrow (by omega) n)]
    simp only [eval_pure, Prod.mk.injEq, Except.ok.injEq, ContextSearch.mk.injEq, true_and,
      and_true]
    omega
  · rename_i isClosed
    have no : maxContextSpanNs < I64.saturated (request.rightEdge span (right + 1) -
        request.rightEdge span right) ∨
        request.candidateRowLimit < (rows left (right + 1)).length := by
      by_contra! fine
      exact isClosed ⟨wtn, fine.1, by omega⟩
    obtain ⟨err, used, stop, bdd⟩ := collectRange_refused told ne no n
    exact ⟨err, used, eval_bind_of_error stop, bdd⟩

end

/-- A run of the second half of a turn, or of a whole one, did what a probe says. -/
def ContextProbe.Describes (scan : ContextScan) (request : BacktestHistoryContextRequest)
    (span : Int) (rows : Nat → Nat → ContextAccumulator)
    (outcome : Except ContextStop (BacktestHistoryContextResult ⊕ ContextSearch) × Nat) :
    ContextProbe → Prop
  | .failed => ∃ error used, outcome = (.error (.failed error), used) ∧ used ≤ maxContextScans
  | .next left right => outcome = (.ok (.inr (searchAt request span rows left right)),
      1 + left + right)
  | .done left right boundary => outcome = eval (do
      return .inl (← finalizeContext scan request (request.leftEdge span left)
        (request.rightEdge span right) boundary)) (1 + left + right)

/-- The second half of a turn. -/
def ContextSearch.finishTurn (scan : ContextScan) (request : BacktestHistoryContextRequest)
    (search : ContextSearch) (needRight : Bool) :
    ContextM (BacktestHistoryContextResult ⊕ ContextSearch) := do
  let (rightBoundary, search) ← search.fetchFollowing scan request needRight
  match rightBoundary with
  | some boundary =>
    return .inl (← finalizeContext scan request search.left search.right (some boundary))
  | none => return .inr search

section

variable {rows : Nat → Nat → ContextAccumulator} {upTo following : Nat → Nat}
  (lvs : ByLevel scan request span rows upTo following) {left right : Nat}
  (wtn : 1 + left + right ≤ maxContextScans)

include lvs wtn

theorem eval_finishTurn :
    (request.probeRight span upTo following left right).Describes scan request span rows
      (eval ((searchAt request span rows left right).finishTurn scan request
        (decide (following right < request.afterRows))) (1 + left + right)) := by
  unfold ContextSearch.finishTurn ContextSearch.fetchFollowing probeRight
  by_cases few : following right < request.afterRows
  · rw [decide_eq_true few, if_pos rfl, if_pos few]
    by_cases rch : request.upperBound ≤ request.rightEdge span right
    · rw [if_pos (show request.upperBound ≤ (searchAt request span rows left right).right from
        rch), if_pos rch, eval_bind_of_ok (eval_pure _ _)]
      cases stop : request.effectiveEndNs with
      | none => rfl
      | some endNs => rfl
    · rw [if_neg (show ¬ request.upperBound ≤ (searchAt request span rows left right).right from
        rch), if_neg rch]
      by_cases full : maxContextScans ≤ 1 + left + right
      · rw [if_pos (show maxContextScans ≤ (searchAt request span rows left right).scans from full),
          if_neg fun isOpen => absurd isOpen.1 (by omega)]
        exact ⟨_, _, eval_bind_of_error (eval_throw _ _), wtn⟩
      · rw [if_neg (show ¬ maxContextScans ≤ (searchAt request span rows left right).scans from
          full)]
        have ext := eval_extendRight lvs (not_le.mp rch)
          (show 1 + left + right < maxContextScans from not_le.mp full) (1 + left + right)
        split at ext
        · rename_i isOpen
          rw [if_pos isOpen, eval_bind_of_ok (by rw [eval_bind_of_ok ext]; rfl)]
          rfl
        · rename_i isClosed
          rw [if_neg isClosed]
          obtain ⟨err, used, stopped, bdd⟩ := ext
          exact ⟨err, used, eval_bind_of_error (eval_bind_of_error stopped), by omega⟩
  · rw [decide_eq_false few, if_neg (by decide), if_neg few]
    rfl

theorem eval_turn :
    (request.probe span upTo following left right).Describes scan request span rows
      (eval ((searchAt request span rows left right).turn scan request) (1 + left + right)) := by
  have n := lvs.upTo_eq left right
  have len := lvs.length_eq left right
  -- Where the window may not grow to the left the turn has failed.
  have no : ∀ {next : ContextSearch → ContextM (BacktestHistoryContextResult ⊕ ContextSearch)},
      request.leftEdge span left ≠ I64.minimum → 1 + left + right < maxContextScans →
      ¬ request.LeftOpen span upTo following left right →
      ∃ err used, eval ((searchAt request span rows left right).extendLeft scan request >>= next)
        (1 + left + right) = (.error (.failed err), used) ∧ used ≤ maxContextScans := by
    intro next ovr room isClosed
    have ext := eval_extendLeft lvs ovr room (1 + left + right)
    rw [if_neg isClosed] at ext
    obtain ⟨err, used, stop, bdd⟩ := ext
    exact ⟨err, used, eval_bind_of_error stop, by omega⟩
  unfold ContextSearch.turn probe
  cases anch : (searchAt request span rows left right).accumulator.anchor request with
  | none =>
    have none : upTo left = 0 := n ▸ ContextAccumulator.anchor_eq_none.mp anch
    rw [if_pos none]
    dsimp only
    split
    · rename_i lowest
      rw [if_neg fun isOpen => isOpen.1 lowest]
      exact ⟨_, _, eval_throw _ _, wtn⟩
    · rename_i ovr
      split
      · rename_i full
        rw [if_neg fun isOpen => absurd isOpen.2.1 (not_lt.mpr full)]
        exact ⟨_, _, eval_throw _ _, wtn⟩
      · rename_i room
        split
        · rename_i isOpen
          have ext := eval_extendLeft lvs ovr (not_le.mp room) (1 + left + right)
          rw [if_pos isOpen] at ext
          rw [eval_bind_of_ok ext]
          simp only [ContextProbe.Describes, eval_pure]
          congr 1
          omega
        · rename_i isClosed
          exact no ovr (not_le.mp room) isClosed
  | some anc =>
    have idx : anc.index + 1 = upTo left :=
      n ▸ ContextAccumulator.index_of_anchor (lvs.sound left right) anch
    have lag : (searchAt request span rows left right).accumulator.length =
      upTo left + following right := len
    rw [if_neg (show ¬ upTo left = 0 by omega)]
    simp only [ContextAccumulator.countsAround, lag]
    have needLeft : decide (anc.index < request.beforeRows) =
        decide (upTo left ≤ request.beforeRows) := by
      rw [decide_eq_decide]
      omega
    have needRight : decide (upTo left + following right - (anc.index + 1) <
        request.afterRows) = decide (following right < request.afterRows) := by
      rw [decide_eq_decide]
      omega
    rw [needLeft, needRight]
    have snd := eval_finishTurn lvs wtn
    by_cases fits : request.beforeRows < upTo left
    · rw [if_pos fits, decide_eq_false (show ¬ upTo left ≤ request.beforeRows by omega)]
      by_cases full : request.afterRows ≤ following right
      · rw [if_pos full, decide_eq_false (show ¬ following right < request.afterRows by omega)]
        rfl
      · rw [if_neg full]
        rw [decide_eq_true (show following right < request.afterRows by omega)] at snd ⊢
        exact snd
    · rw [if_neg fits, decide_eq_true (show upTo left ≤ request.beforeRows by omega),
        if_neg (by simp)]
      unfold ContextSearch.fetchPreceding
      rw [if_pos rfl]
      by_cases blocked : request.leftEdge span left = I64.minimum ∨
          maxContextScans ≤ 1 + left + right
      · rw [if_pos (show (searchAt request span rows left right).left = I64.minimum ∨
          maxContextScans ≤ (searchAt request span rows left right).scans from blocked),
          if_neg fun isOpen => blocked.elim isOpen.1 fun full => absurd isOpen.2.1 (by omega)]
        exact ⟨_, _, eval_bind_of_error (eval_throw _ _), wtn⟩
      · rw [if_neg (show ¬ ((searchAt request span rows left right).left = I64.minimum ∨
          maxContextScans ≤ (searchAt request span rows left right).scans) from blocked)]
        obtain ⟨ovr, room⟩ := not_or.mp blocked
        split
        · rename_i isOpen
          have ext := eval_extendLeft lvs ovr (not_le.mp room) (1 + left + right)
          rw [if_pos isOpen] at ext
          rw [eval_bind_of_ok ext, show 1 + left + right + 1 = 1 + (left + 1) + right by omega]
          exact eval_finishTurn lvs (by omega)
        · rename_i isClosed
          exact no ovr (not_le.mp room) isClosed

end

end Simulation

/-! ## Runs over levels -/

section Exploration

variable {scan : ContextScan} {request : BacktestHistoryContextRequest} {span : Int}
  {upTo following : Nat → Nat} {left right nextLeft nextRight : Nat}

/-- How the second half of a turn moves the right end. -/
def RightMove (request : BacktestHistoryContextRequest) (span : Int) (upTo following : Nat → Nat)
    (left right nextRight : Nat) : Prop :=
  (following right < request.afterRows ∧ request.rightEdge span right < request.upperBound ∧
      request.RightOpen span upTo following left right ∧ nextRight = right + 1) ∨
    (following right < request.afterRows ∧ request.upperBound ≤ request.rightEdge span right ∧
      request.effectiveEndNs = none ∧ nextRight = right) ∨
    (request.afterRows ≤ following right ∧ nextRight = right)

theorem probeRight_next
    (move : request.probeRight span upTo following left right = .next nextLeft nextRight) :
    nextLeft = left ∧ RightMove request span upTo following left right nextRight := by
  unfold probeRight at move
  split at move
  · rename_i few
    split at move
    · rename_i rch
      split at move
      · cases move
      · rename_i ever
        obtain ⟨rfl, rfl⟩ := ContextProbe.next.inj move
        exact ⟨rfl, .inr (.inl ⟨few, rch, ever, rfl⟩)⟩
    · rename_i lt
      split at move
      · rename_i isOpen
        obtain ⟨rfl, rfl⟩ := ContextProbe.next.inj move
        exact ⟨rfl, .inl ⟨few, not_le.mp lt, isOpen, rfl⟩⟩
      · cases move
  · rename_i full
    obtain ⟨rfl, rfl⟩ := ContextProbe.next.inj move
    exact ⟨rfl, .inr (.inr ⟨not_lt.mp full, rfl⟩)⟩

variable {boundary : Option BacktestHistoryContextBoundary}

theorem probeRight_done
    (done : request.probeRight span upTo following left right = .done nextLeft nextRight boundary) :
    nextLeft = left ∧ nextRight = right ∧ following right < request.afterRows ∧
      request.upperBound ≤ request.rightEdge span right ∧
      ∃ endNs, request.effectiveEndNs = some endNs ∧ boundary = some (.futureEnd endNs) := by
  unfold probeRight at done
  split at done
  · rename_i few
    split at done
    · rename_i rch
      split at done
      · rename_i endNs ends
        obtain ⟨rfl, rfl, rfl⟩ := ContextProbe.done.inj done
        exact ⟨rfl, rfl, few, rch, endNs, ends, rfl⟩
      · cases done
    · split at done <;> cases done
  · cases done

theorem probe_next (moved : request.probe span upTo following left right =
    .next nextLeft nextRight) :
    (upTo left ≤ request.beforeRows ∧ request.LeftOpen span upTo following left right ∧
      nextLeft = left + 1 ∧ ((upTo left = 0 ∧ nextRight = right) ∨
        (0 < upTo left ∧ RightMove request span upTo following nextLeft right nextRight))) ∨
    (request.beforeRows < upTo left ∧ following right < request.afterRows ∧ nextLeft = left ∧
      RightMove request span upTo following left right nextRight) := by
  unfold probe at moved
  split at moved
  · rename_i emp
    split at moved
    · rename_i isOpen
      obtain ⟨rfl, rfl⟩ := ContextProbe.next.inj moved
      exact .inl ⟨by omega, isOpen, rfl, .inl ⟨emp, rfl⟩⟩
    · cases moved
  · rename_i anch
    split at moved
    · rename_i fits
      split at moved
      · cases moved
      · rename_i few
        obtain ⟨rfl, move⟩ := probeRight_next moved
        exact .inr ⟨fits, not_le.mp few, rfl, move⟩
    · rename_i few
      split at moved
      · rename_i isOpen
        obtain ⟨rfl, move⟩ := probeRight_next moved
        exact .inl ⟨not_lt.mp few, isOpen, rfl, .inr ⟨Nat.pos_of_ne_zero anch, move⟩⟩
      · cases moved

/-- Where a result is taken: with enough rows on both sides, or at the upper bound after at most
one more extension to the left. -/
theorem probe_done
    (done : request.probe span upTo following left right = .done nextLeft nextRight boundary) :
    nextRight = right ∧
    ((nextLeft = left ∧ request.beforeRows < upTo left ∧ request.afterRows ≤ following right ∧
        boundary = none) ∨
      (following right < request.afterRows ∧ request.upperBound ≤ request.rightEdge span right ∧
        (∃ endNs, request.effectiveEndNs = some endNs ∧ boundary = some (.futureEnd endNs)) ∧
        ((nextLeft = left ∧ request.beforeRows < upTo left) ∨
          (nextLeft = left + 1 ∧ 0 < upTo left ∧ upTo left ≤ request.beforeRows ∧
            request.LeftOpen span upTo following left right)))) := by
  unfold probe at done
  split at done
  · split at done <;> cases done
  · rename_i anch
    split at done
    · rename_i fits
      split at done
      · rename_i full
        obtain ⟨rfl, rfl, rfl⟩ := ContextProbe.done.inj done
        exact ⟨rfl, .inl ⟨rfl, fits, full, rfl⟩⟩
      · obtain ⟨rfl, rfl, short, rch, ends⟩ := probeRight_done done
        exact ⟨rfl, .inr ⟨short, rch, ends, .inl ⟨rfl, fits⟩⟩⟩
    · rename_i few
      split at done
      · rename_i isOpen
        obtain ⟨rfl, rfl, short, rch, ends⟩ := probeRight_done done
        exact ⟨rfl, .inr ⟨short, rch, ends, .inr ⟨rfl, Nat.pos_of_ne_zero anch,
          not_lt.mp few, isOpen⟩⟩⟩
      · cases done

/-- The windows that the turns of a read go through. -/
inductive Explored (request : BacktestHistoryContextRequest) (span : Int)
    (upTo following : Nat → Nat) : Nat → Nat → Prop
  | start : Explored request span upTo following 0 0
  | next {left right nextLeft nextRight : Nat}
      (explored : Explored request span upTo following left right)
      (moved : request.probe span upTo following left right = .next nextLeft nextRight) :
      Explored request span upTo following nextLeft nextRight

/-- The window holds no more rows than allowed, no more scans were made than allowed, and each
side was extended only while it was short of rows. -/
structure SearchProgress (request : BacktestHistoryContextRequest) (span : Int)
    (upTo following : Nat → Nat) (left right : Nat) : Prop where
  within : 1 + left + right ≤ maxContextScans
  fits : upTo left + following right ≤ request.candidateRowLimit
  short : ∀ level < left, upTo level ≤ request.beforeRows
  below : ∀ level < right, request.rightEdge span level < request.upperBound

theorem Explored.progress (explored : Explored request span upTo following left right)
    (begs : upTo 0 + following 0 ≤ request.candidateRowLimit) :
    SearchProgress request span upTo following left right := by
  induction explored with
  | start => exact ⟨by decide, begs, nofun, nofun⟩
  | @next left right nextLeft nextRight _ moved ih =>
    have ext : upTo left ≤ request.beforeRows → ∀ level < left + 1,
        upTo level ≤ request.beforeRows := by
      intro few level bd
      rcases Nat.lt_succ_iff_lt_or_eq.mp bd with pre | rfl
      · exact ih.short level pre
      · exact few
    have shifted : request.rightEdge span right < request.upperBound → ∀ level < right + 1,
        request.rightEdge span level < request.upperBound := by
      intro beneath level bd
      rcases Nat.lt_succ_iff_lt_or_eq.mp bd with pre | rfl
      · exact ih.below level pre
      · exact beneath
    rcases probe_next moved with ⟨few, isOpen, rfl, still | ⟨-, move⟩⟩ | ⟨-, -, rfl, move⟩
    · obtain ⟨-, rfl⟩ := still
      obtain ⟨-, room, -, fits⟩ := isOpen
      exact ⟨by omega, fits, ext few, ih.below⟩
    · obtain ⟨-, room, -, fits⟩ := isOpen
      rcases move with ⟨-, beneath, rightOpen, rfl⟩ | ⟨-, -, -, rfl⟩ | ⟨-, rfl⟩
      · obtain ⟨room, -, fits⟩ := rightOpen
        exact ⟨by omega, fits, ext few, shifted beneath⟩
      · exact ⟨by omega, fits, ext few, ih.below⟩
      · exact ⟨by omega, fits, ext few, ih.below⟩
    · rcases move with ⟨-, beneath, rightOpen, rfl⟩ | ⟨-, -, -, rfl⟩ | ⟨-, rfl⟩
      · obtain ⟨room, -, fits⟩ := rightOpen
        exact ⟨by omega, fits, ih.short, shifted beneath⟩
      · exact ih
      · exact ih

/-- A turn that stays where it is was made at the end of the range of an `i64`, with enough
preceding and too few following rows. -/
theorem probe_stays (stays : request.probe span upTo following left right = .next left right) :
    request.beforeRows < upTo left ∧ following right < request.afterRows ∧
      request.upperBound ≤ request.rightEdge span right ∧ request.effectiveEndNs = none := by
  rcases probe_next stays with ⟨-, -, moved, -⟩ | ⟨fits, few, -, move⟩
  · omega
  · rcases move with ⟨-, -, -, moved⟩ | ⟨-, rch, ever, -⟩ | ⟨full, -⟩
    · omega
    · exact ⟨fits, few, rch, ever⟩
    · omega

theorem probe_next_le (moved : request.probe span upTo following left right =
    .next nextLeft nextRight) : left ≤ nextLeft ∧ right ≤ nextRight := by
  rcases probe_next moved with ⟨-, -, rfl, ⟨-, rfl⟩ | ⟨-, move⟩⟩ | ⟨-, -, rfl, move⟩
  · omega
  · rcases move with ⟨-, -, -, rfl⟩ | ⟨-, -, -, rfl⟩ | ⟨-, rfl⟩ <;> omega
  · rcases move with ⟨-, -, -, rfl⟩ | ⟨-, -, -, rfl⟩ | ⟨-, rfl⟩ <;> omega

/-- From the level that first shows the anchor on, each turn extends the left end while preceding
rows are missing and the right end while following rows are and the upper bound is not reached. -/
structure SearchTurns (request : BacktestHistoryContextRequest) (span : Int)
    (upTo following : Nat → Nat) (left right first turns : Nat) : Prop where
  least : IsLeast {level | 0 < upTo level} first
  left : left = first + turns ∨ left < first + turns ∧ request.beforeRows < upTo left
  right : right = turns ∨ right < turns ∧ (request.afterRows ≤ following right ∨
    request.upperBound ≤ request.rightEdge span right ∧ request.effectiveEndNs = none)

theorem SearchTurns.move {hd turns : Nat}
    (before : SearchTurns request span upTo following left right hd turns)
    (moved : request.probe span upTo following left right = .next nextLeft nextRight)
    (anch : 0 < upTo left) :
    SearchTurns request span upTo following nextLeft nextRight hd (turns + 1) := by
  have rightMoved : ∀ level, RightMove request span upTo following level right nextRight →
      nextRight = turns + 1 ∨ nextRight < turns + 1 ∧ (request.afterRows ≤ following nextRight ∨
        request.upperBound ≤ request.rightEdge span nextRight ∧ request.effectiveEndNs = none) := by
    intro level move
    have lag : right ≤ turns := by rcases before.right with rfl | ⟨less, -⟩ <;> omega
    rcases move with ⟨short, beneath, -, rfl⟩ | ⟨-, rch, ever, rfl⟩ | ⟨full, rfl⟩
    · rcases before.right with rfl | ⟨-, full | ⟨rch, -⟩⟩
      · exact .inl rfl
      · omega
      · omega
    · exact .inr ⟨by omega, .inr ⟨rch, ever⟩⟩
    · exact .inr ⟨by omega, .inl full⟩
  rcases probe_next moved with ⟨few, -, rfl, ⟨emp, -⟩ | ⟨-, move⟩⟩ | ⟨fits, -, rfl, move⟩
  · omega
  · refine ⟨before.least, ?_, rightMoved _ move⟩
    rcases before.left with rfl | ⟨-, fits⟩
    · exact .inl rfl
    · omega
  · refine ⟨before.least, .inr ⟨?_, fits⟩, rightMoved _ move⟩
    rcases before.left with rfl | ⟨less, -⟩ <;> omega

theorem Explored.turns (explored : Explored request span upTo following left right)
    (monotone : Monotone upTo) :
    ((∀ level < left, upTo level = 0) ∧ right = 0) ∨
      ∃ hd turns, SearchTurns request span upTo following left right hd turns := by
  induction explored with
  | start => exact .inl ⟨nofun, rfl⟩
  | @next left right nextLeft nextRight _ moved ih =>
    rcases ih with ⟨before, rfl⟩ | ⟨hd, turns, turn⟩
    · rcases Nat.eq_zero_or_pos (upTo left) with emp | anchored
      · rcases probe_next moved with ⟨-, -, rfl, ⟨-, rfl⟩ | ⟨anchored, -⟩⟩ | ⟨fits, -⟩
        · refine .inl ⟨fun level bd => ?_, rfl⟩
          rcases Nat.lt_succ_iff_lt_or_eq.mp bd with pre | rfl
          · exact before level pre
          · exact emp
        · omega
        · omega
      · have low : IsLeast {level | 0 < upTo level} left := by
          refine ⟨anchored, fun level hit => ?_⟩
          by_contra! pre
          exact absurd (before level pre) (Nat.ne_of_gt hit)
        exact .inr ⟨left, 1, SearchTurns.move ⟨low, .inl rfl, .inl rfl⟩ moved anchored⟩
    · have anchored : 0 < upTo left := by
        rcases turn.left with rfl | ⟨-, fits⟩
        · exact turn.least.1.trans_le (monotone (Nat.le_add_right hd turns))
        · omega
      exact .inr ⟨hd, turns + 1, turn.move moved anchored⟩

/-- A window that is short on both sides has been extended as often on the right as on the left
since the anchor was found. -/
theorem Explored.joint (explored : Explored request span upTo following left right)
    (monotone : Monotone upTo) (anch : 0 < upTo left) (few : upTo left ≤ request.beforeRows)
    (short : following right < request.afterRows) (ends : request.effectiveEndNs ≠ none) :
    ∃ hd, IsLeast {level | 0 < upTo level} hd ∧ left = hd + right := by
  rcases explored.turns monotone with ⟨before, rfl⟩ | ⟨hd, turns, low, atLeft, atRight⟩
  · refine ⟨left, ⟨anch, fun level hit => ?_⟩, rfl⟩
    by_contra! earlier
    exact absurd (before level earlier) (Nat.ne_of_gt hit)
  · refine ⟨hd, low, ?_⟩
    rcases atLeft with rfl | ⟨-, fits⟩
    · rcases atRight with rfl | ⟨-, full | ⟨-, ever⟩⟩
      · rfl
      · omega
      · exact absurd ever ends
    · omega

/-! ## Runs of the loop -/

variable {rows : Nat → Nat → ContextAccumulator}

/-- The run takes its result from the rows of a window. -/
def takeResult (scan : ContextScan) (request : BacktestHistoryContextRequest) (span : Int)
    (left right : Nat) (boundary : Option BacktestHistoryContextBoundary) :
    ContextM (Option BacktestHistoryContextResult) := do
  return some (← finalizeContext scan request (request.leftEdge span left)
    (request.rightEdge span right) boundary)

section

variable (lvs : ByLevel scan request span rows upTo following)
  (wtn : 1 + left + right ≤ maxContextScans)

include lvs wtn

theorem run_of_next
    (move : request.probe span upTo following left right = .next nextLeft nextRight) (fuel : Nat) :
    eval ((searchAt request span rows left right).run scan request (fuel + 1)) (1 + left + right) =
      eval ((searchAt request span rows nextLeft nextRight).run scan request fuel)
        (1 + nextLeft + nextRight) := by
  have turn := eval_turn lvs wtn
  rw [move] at turn
  rw [ContextSearch.run, eval_bind_of_ok turn]

theorem run_of_done
    (done : request.probe span upTo following left right = .done nextLeft nextRight boundary)
    (fuel : Nat) :
    eval ((searchAt request span rows left right).run scan request (fuel + 1)) (1 + left + right) =
      eval (takeResult scan request span nextLeft nextRight boundary)
        (1 + nextLeft + nextRight) := by
  have turn := eval_turn lvs wtn
  rw [done, ContextProbe.Describes] at turn
  rw [ContextSearch.run, takeResult]
  cases took : eval (finalizeContext scan request (request.leftEdge span nextLeft)
      (request.rightEdge span nextRight) boundary) (1 + nextLeft + nextRight) with
  | mk out used =>
    cases out with
    | ok res =>
      rw [eval_bind_of_ok took] at turn ⊢
      rw [eval_bind_of_ok turn]
    | error stop =>
      rw [eval_bind_of_error took] at turn ⊢
      rw [eval_bind_of_error turn]

theorem run_of_failed (fail : request.probe span upTo following left right = .failed) (fuel : Nat) :
    ∃ err used, eval ((searchAt request span rows left right).run scan request (fuel + 1))
      (1 + left + right) = (.error (.failed err), used) ∧ used ≤ maxContextScans := by
  have turn := eval_turn lvs wtn
  rw [fail] at turn
  obtain ⟨err, used, stop, bdd⟩ := turn
  exact ⟨err, used, eval_bind_of_error stop, bdd⟩

end

theorem Explored.run (explored : Explored request span upTo following left right)
    (lvs : ByLevel scan request span rows upTo following)
    (begs : upTo 0 + following 0 ≤ request.candidateRowLimit) (fuel : Nat) :
    ∃ more, eval ((searchAt request span rows 0 0).run scan request more) 1 =
      eval ((searchAt request span rows left right).run scan request fuel) (1 + left + right) := by
  induction explored generalizing fuel with
  | start => exact ⟨fuel, rfl⟩
  | next explored move ih =>
    obtain ⟨more, same⟩ := ih (fuel + 1)
    exact ⟨more, same.trans (run_of_next lvs (explored.progress begs).within move fuel)⟩

section

variable (lvs : ByLevel scan request span rows upTo following)
  (begs : upTo 0 + following 0 ≤ request.candidateRowLimit)

include lvs begs

/-- A read ends unless a turn stays where it is: without a result, or with that of a window. -/
theorem Explored.ends (mvs : ∀ left right, Explored request span upTo following left right →
      request.probe span upTo following left right ≠ .next left right) (budget : Nat) :
    ∀ {left right}, Explored request span upTo following left right →
      maxContextScans ≤ budget + left + right →
      ∃ fuel, (∃ error used, eval ((searchAt request span rows left right).run scan request fuel)
          (1 + left + right) = (.error (.failed error), used) ∧ used ≤ maxContextScans) ∨
        ∃ atLeft atRight endLeft endR boundary,
          Explored request span upTo following atLeft atRight ∧
          request.probe span upTo following atLeft atRight = .done endLeft endR boundary ∧
          eval ((searchAt request span rows left right).run scan request fuel) (1 + left + right) =
            eval (takeResult scan request span endLeft endR boundary)
              (1 + endLeft + endR) := by
  induction budget with
  | zero =>
    intro left right explored bd
    have wtn := (explored.progress begs).within
    omega
  | succ budget ih =>
    intro left right explored bd
    have wtn := (explored.progress begs).within
    cases probed : request.probe span upTo following left right with
    | failed => exact ⟨1, .inl (run_of_failed lvs wtn probed 0)⟩
    | done endLeft endR boundary =>
      exact ⟨1, .inr ⟨left, right, endLeft, endR, boundary, explored, probed,
        run_of_done lvs wtn probed 0⟩⟩
    | next nextLeft nextRight =>
      have grown := probe_next_le probed
      have move : ¬ (nextLeft = left ∧ nextRight = right) := by
        rintro ⟨rfl, rfl⟩
        exact mvs _ _ explored probed
      obtain ⟨fuel, res⟩ := ih (explored.next probed) (by omega)
      refine ⟨fuel + 1, ?_⟩
      rw [run_of_next lvs wtn probed]
      exact res

/-- A read whose every window is followed by another never ends. -/
theorem run_endless (goesOn : ∀ left right, Explored request span upTo following left right →
      ∃ nextLeft nextRight, request.probe span upTo following left right =
        .next nextLeft nextRight) (fuel : Nat) :
    ∀ {left right}, Explored request span upTo following left right →
      ∃ used, eval ((searchAt request span rows left right).run scan request fuel)
        (1 + left + right) = (.ok none, used) := by
  induction fuel with
  | zero => exact fun _ => ⟨_, rfl⟩
  | succ fuel ih =>
    intro left right explored
    obtain ⟨nextLeft, nextRight, move⟩ := goesOn left right explored
    rw [run_of_next lvs (explored.progress begs).within move]
    exact ih (explored.next move)

end

variable (search : ContextSearch)

theorem run_succ (fuel n : Nat)
    (ovr : ∀ used, eval (search.run scan request fuel) n ≠ (.ok none, used)) :
    eval (search.run scan request (fuel + 1)) n = eval (search.run scan request fuel) n := by
  induction fuel generalizing search n with
  | zero => exact absurd rfl (ovr n)
  | succ fuel ih =>
    rw [ContextSearch.run, ContextSearch.run]
    rw [ContextSearch.run] at ovr
    cases turned : eval (search.turn scan request) n with
    | mk out used =>
      cases out with
      | error stop => rw [eval_bind_of_error turned, eval_bind_of_error turned]
      | ok next =>
        rw [eval_bind_of_ok turned] at ovr
        rw [eval_bind_of_ok turned, eval_bind_of_ok turned]
        cases next with
        | inl res => rfl
        | inr search => exact ih search used ovr

theorem run_add (fuel more n : Nat)
    (ovr : ∀ used, eval (search.run scan request fuel) n ≠ (.ok none, used)) :
    eval (search.run scan request (fuel + more)) n = eval (search.run scan request fuel) n := by
  induction more with
  | zero => rfl
  | succ more ih => rw [← Nat.add_assoc, run_succ _ _ _ (by rwa [ih]), ih]

theorem run_unique {fuel alt n : Nat}
    (ovr : ∀ used, eval (search.run scan request fuel) n ≠ (.ok none, used))
    (otherEnded : ∀ used, eval (search.run scan request alt) n ≠ (.ok none, used)) :
    eval (search.run scan request fuel) n = eval (search.run scan request alt) n := by
  rcases Nat.le_total fuel alt with le | le
  · rw [← Nat.add_sub_cancel' le, run_add _ _ _ _ ovr]
  · rw [← Nat.add_sub_cancel' le, run_add _ _ _ _ otherEnded]

theorem eval_startSearch (lvs : ByLevel scan request span rows upTo following)
    (fine : request.validate = .ok ()) (mem : I64.InRange span)
    (narrow : I64.saturated (request.rightEdge span 0 - request.leftEdge span 0) ≤
      maxContextSpanNs) :
    if upTo 0 + following 0 ≤ request.candidateRowLimit then
      eval (startSearch scan request span) 0 = (.ok (searchAt request span rows 0 0), 1)
    else ∃ err used, eval (startSearch scan request span) 0 = (.error (.failed err), used) ∧
      used ≤ maxContextScans := by
  have hd := lvs.start
  have len := lvs.length_eq 0 0
  have edges : request.leftEdge span 0 < request.rightEdge span 0 := by
    refine edges_lt lvs.positive ?_
    rcases anchor_lt_upperBound fine with ovr | endless
    · exact .inl ovr
    · exact .inr (upperBound_of_none endless)
  have left : I64.saturated (request.anchorNs - span) = request.leftEdge span 0 := by
    rw [leftEdge, Int.pow_zero, Int.mul_one]
  have wid : I64.saturated (span * 2 ^ 0) = span := by
    rw [Int.pow_zero, Int.mul_one, I64.saturated_eq mem]
  unfold startSearch
  dsimp only
  rw [left, rightEdge_zero lvs.positive]
  split
  · rw [eval_bind_of_ok (collectRange_fits hd edges narrow (by omega) 0), searchAt, wid]
    rfl
  · obtain ⟨err, used, stop, bdd⟩ := collectRange_refused hd edges (.inr (by omega)) 0
    exact ⟨err, used, eval_bind_of_error stop, bdd.trans (by decide)⟩

/-! ## Which reads go wrong -/

/-- Wider windows have no fewer rows, a window that starts at the lowest time does not grow, and
no scan is too wide. -/
structure RegularWindows (request : BacktestHistoryContextRequest) (span : Int)
    (upTo following : Nat → Nat) : Prop where
  upTo_mono : Monotone upTo
  following_mono : Monotone following
  lowest : ∀ level, request.leftEdge span level = I64.minimum → ∀ later, level ≤ later →
    upTo later = upTo level
  narrowLeft : ∀ level < maxContextScans, I64.saturated (request.leftEdge span level -
    request.leftEdge span (level + 1)) ≤ maxContextSpanNs
  narrowRight : ∀ level < maxContextScans, I64.saturated (request.rightEdge span (level + 1) -
    request.rightEdge span level) ≤ maxContextSpanNs

/-- The window reaches the upper bound with too few following rows, and one more extension to the
left does not bring enough preceding ones. -/
def StopsShort (request : BacktestHistoryContextRequest) (span : Int)
    (upTo following : Nat → Nat) : Prop :=
  request.effectiveEndNs ≠ none ∧ ∃ first reached, IsLeast {level | 0 < upTo level} first ∧
    IsLeast {level | request.upperBound ≤ request.rightEdge span level} reached ∧
    following reached < request.afterRows ∧
    request.leftEdge span (first + reached) ≠ I64.minimum ∧
    1 + first + 2 * reached < maxContextScans ∧
    upTo (first + reached + 1) + following reached ≤ request.candidateRowLimit ∧
    upTo (first + reached + 1) ≤ request.beforeRows

/-- The window reaches the end of the range of an `i64` with enough preceding and too few
following rows. -/
def Endless (request : BacktestHistoryContextRequest) (span : Int)
    (upTo following : Nat → Nat) : Prop :=
  request.effectiveEndNs = none ∧ ∃ left right,
    IsLeast {level | request.beforeRows < upTo level} left ∧
    IsLeast {level | request.upperBound ≤ request.rightEdge span level} right ∧
    following right < request.afterRows ∧ 1 + left + right ≤ maxContextScans ∧
    upTo left + following right ≤ request.candidateRowLimit

theorem SearchProgress.least_left (prog : SearchProgress request span upTo following left right)
    (fits : request.beforeRows < upTo left) :
    IsLeast {level | request.beforeRows < upTo level} left := by
  refine ⟨fits, fun level hit => ?_⟩
  by_contra! earlier
  exact absurd (prog.short level earlier) (not_le.mpr hit)

theorem SearchProgress.least_right (prog : SearchProgress request span upTo following left right)
    (rch : request.upperBound ≤ request.rightEdge span right) :
    IsLeast {level | request.upperBound ≤ request.rightEdge span level} right := by
  refine ⟨rch, fun level hit => ?_⟩
  by_contra! earlier
  exact absurd (prog.below level earlier) (not_lt.mpr hit)

section

variable (explored : Explored request span upTo following left right)
  (begs : upTo 0 + following 0 ≤ request.candidateRowLimit)

include explored begs

theorem Explored.endless (stays : request.probe span upTo following left right = .next left right) :
    Endless request span upTo following := by
  have prog := explored.progress begs
  obtain ⟨room, few, rch, ever⟩ := probe_stays stays
  exact ⟨ever, left, right, prog.least_left room, prog.least_right rch, few, prog.within, prog.fits⟩

/-- A result that is not taken short has enough preceding rows. -/
theorem Explored.enough (monotone : Monotone upTo)
    (done : request.probe span upTo following left right = .done nextLeft nextRight boundary)
    (not_short : ¬ StopsShort request span upTo following) :
    request.beforeRows < upTo nextLeft := by
  obtain ⟨rfl, ⟨rfl, enough, -, -⟩ | ⟨short, rch, ⟨endNs, ends, -⟩, took⟩⟩ := probe_done done
  · exact enough
  rcases took with ⟨rfl, enough⟩ | ⟨rfl, anch, few, isOpen⟩
  · exact enough
  have fin : request.effectiveEndNs ≠ none := by
    rw [ends]
    exact some_ne_none _
  obtain ⟨hd, low, rfl⟩ := explored.joint monotone anch few short fin
  obtain ⟨ovr, room, -, fits⟩ := isOpen
  by_contra! still
  exact not_short ⟨fin, hd, _, low, (explored.progress begs).least_right rch, short,
    ovr, by omega, fits, still⟩

/-- A result is taken from a window within the limits. -/
theorem Explored.done_fits
    (done : request.probe span upTo following left right = .done nextLeft nextRight boundary) :
    1 + nextLeft + nextRight ≤ maxContextScans ∧
      upTo nextLeft + following nextRight ≤ request.candidateRowLimit := by
  have prog := explored.progress begs
  obtain ⟨rfl, ⟨rfl, -⟩ | ⟨-, -, -, ⟨rfl, -⟩ | ⟨rfl, -, -, -, room, -, fits⟩⟩⟩ := probe_done done
  · exact ⟨prog.within, prog.fits⟩
  · exact ⟨prog.within, prog.fits⟩
  · exact ⟨by omega, fits⟩

end

section

variable (regl : RegularWindows request span upTo following)

include regl

theorem RegularWindows.leftOpen {post : Nat} (grows : upTo left < upTo post)
    (ahead : left < post) (room : 1 + left + right < maxContextScans)
    (fits : upTo post + following right ≤ request.candidateRowLimit) :
    request.LeftOpen span upTo following left right := by
  refine ⟨fun lowest => ?_, room, regl.narrowLeft left (by omega), ?_⟩
  · have same := regl.lowest left lowest post (by omega)
    omega
  · have fewer := regl.upTo_mono (show left + 1 ≤ post from ahead)
    omega

theorem RegularWindows.rightOpen {post : Nat} (ahead : right < post)
    (room : 1 + left + right < maxContextScans)
    (fits : upTo left + following post ≤ request.candidateRowLimit) :
    request.RightOpen span upTo following left right := by
  have fewer := regl.following_mono (show right + 1 ≤ post from ahead)
  exact ⟨room, regl.narrowRight right (by omega), by omega⟩

/-- Until the anchor is found only the left end moves. -/
theorem RegularWindows.explored_first {hd : Nat} (low : IsLeast {level | 0 < upTo level} hd)
    (wtn : 1 + hd ≤ maxContextScans)
    (fits : upTo hd + following 0 ≤ request.candidateRowLimit) (ahead : left ≤ hd) :
    Explored request span upTo following left 0 := by
  induction left with
  | zero => exact .start
  | succ left ih =>
    have emp : upTo left = 0 := by
      by_contra found
      exact absurd (low.2 (Nat.pos_of_ne_zero found)) (by omega)
    have anch : 0 < upTo hd := low.1
    refine (ih (by omega)).next ?_
    rw [probe, if_pos emp, if_pos (regl.leftOpen (by omega)
      (show left < hd by omega) (by omega) fits)]

end

theorem probe_both (anch : 0 < upTo left) (few : upTo left ≤ request.beforeRows)
    (short : following right < request.afterRows)
    (beneath : request.rightEdge span right < request.upperBound)
    (leftOpen : request.LeftOpen span upTo following left right)
    (rightOpen : request.RightOpen span upTo following (left + 1) right) :
    request.probe span upTo following left right = .next (left + 1) (right + 1) := by
  rw [probe, if_neg (by omega), if_neg (by omega), if_pos leftOpen, probeRight, if_pos short,
    if_neg (by omega), if_pos rightOpen]

theorem StopsShort.explored (stops : StopsShort request span upTo following)
    (pos : 0 < span) (regl : RegularWindows request span upTo following) :
    ∃ left right endNs, Explored request span upTo following left right ∧
      request.effectiveEndNs = some endNs ∧
      request.probe span upTo following left right =
        .done (left + 1) right (some (.futureEnd endNs)) ∧
      0 < upTo (left + 1) ∧ upTo (left + 1) ≤ request.beforeRows ∧
      upTo (left + 1) + following right ≤ request.candidateRowLimit ∧
      1 + left + right < maxContextScans := by
  obtain ⟨ends, hd, rch, low, atBound, short, ovr, room, fits, few⟩ := stops
  obtain ⟨endNs, ends⟩ := ne_none_iff_exists'.mp ends
  have anch : ∀ level, 0 < upTo (hd + level) := fun level =>
    Nat.lt_of_lt_of_le low.1 (regl.upTo_mono (Nat.le_add_right hd level))
  have wider : ∀ level, level ≤ hd + rch + 1 → upTo level ≤ upTo (hd + rch + 1) :=
    fun level bd => regl.upTo_mono bd
  have deeper : ∀ level, level ≤ rch → following level ≤ following rch :=
    fun level bd => regl.following_mono bd
  have higher : ∀ level, level ≤ rch →
      request.leftEdge span (hd + level) ≠ I64.minimum := by
    intro level bd lowest
    have antitone : Antitone (request.leftEdge span) := antitone_nat_of_succ_le (leftEdge_le pos)
    have lt := antitone (show hd + level ≤ hd + rch by omega)
    have mem := I64.inRange_saturated (request.anchorNs - span * 2 ^ (hd + rch))
    have floor : I64.minimum ≤ request.leftEdge span (hd + rch) := mem.1
    omega
  have leftOpen : ∀ level, level ≤ rch →
      request.LeftOpen span upTo following (hd + level) level := by
    intro level bd
    have rows := wider (hd + level + 1) (by omega)
    have lag := deeper level bd
    exact ⟨higher level bd, by omega, regl.narrowLeft _ (by omega), by omega⟩
  have joint : ∀ level, level ≤ rch →
      Explored request span upTo following (hd + level) level := by
    intro level bd
    induction level with
    | zero =>
      have rows := wider hd (by omega)
      have lag := deeper 0 (by omega)
      exact regl.explored_first low (by omega) (by omega) le_rfl
    | succ level ih =>
      have rows := wider (hd + level) (by omega)
      have next := wider (hd + level + 1) (by omega)
      have lag := deeper level (by omega)
      have beneath : request.rightEdge span level < request.upperBound := by
        by_contra! early
        exact absurd (atBound.2 early) (by omega)
      refine (ih (by omega)).next (probe_both (anch level) (by omega) (by omega) beneath
        (leftOpen level (by omega)) ?_)
      exact regl.rightOpen (show _ < rch by omega) (by omega) (by omega)
  have rows := wider (hd + rch) (by omega)
  have hit := anch rch
  refine ⟨hd + rch, rch, endNs, joint rch le_rfl, ends, ?_, anch (rch + 1), few, fits, by omega⟩
  rw [probe, if_neg (by omega), if_neg (by omega), if_pos (leftOpen rch le_rfl), probeRight,
    if_pos short, if_pos (show request.upperBound ≤ _ from atBound.1), ends]

/-- Between its start and the two levels at which it stays, an endless read always goes on. -/
theorem Endless.goesOn (ever : Endless request span upTo following)
    (regl : RegularWindows request span upTo following)
    (explored : Explored request span upTo following left right) :
    ∃ nextLeft nextRight, request.probe span upTo following left right =
      .next nextLeft nextRight := by
  obtain ⟨ever, endLeft, endR, low, rch, few, wtn, fits⟩ := ever
  have lag : ∀ level, level ≤ endR → following level < request.afterRows :=
    fun level bd => (regl.following_mono bd).trans_lt few
  have reachedEnd : request.beforeRows < upTo endLeft := low.1
  have ahead : ∀ left right, left ≤ endLeft → right ≤ endR → ∃ nextLeft nextRight,
      request.probe span upTo following left right = .next nextLeft nextRight ∧
        nextLeft ≤ endLeft ∧ nextRight ≤ endR := by
    intro left right leftBound rBd
    have moveRight : ∀ level, level ≤ endLeft → ∃ nextRight,
        request.probeRight span upTo following level right = .next level nextRight ∧
          nextRight ≤ endR := by
      intro level bd
      rw [probeRight, if_pos (lag right rBd)]
      by_cases atBound : request.upperBound ≤ request.rightEdge span right
      · rw [if_pos atBound, ever]
        exact ⟨right, rfl, rBd⟩
      · have more : right < endR := by
          refine lt_of_le_of_ne rBd ?_
          rintro rfl
          exact atBound rch.1
        have fewer := regl.upTo_mono bd
        rw [if_neg atBound, if_pos (regl.rightOpen (show right < endR from more) (by omega)
          (by omega))]
        exact ⟨right + 1, rfl, more⟩
    by_cases room : request.beforeRows < upTo left
    · obtain ⟨nextRight, move, bd⟩ := moveRight left leftBound
      refine ⟨left, nextRight, ?_, leftBound, bd⟩
      rw [probe, if_neg (by omega), if_pos room,
        if_neg (not_le.mpr (lag right rBd)), move]
    · have more : left < endLeft := by
        refine lt_of_le_of_ne leftBound ?_
        rintro rfl
        exact room reachedEnd
      have fewer := regl.following_mono rBd
      have leftOpen : request.LeftOpen span upTo following left right :=
        regl.leftOpen (by omega) (show left < endLeft from more) (by omega) (by omega)
      by_cases emp : upTo left = 0
      · exact ⟨left + 1, right, by rw [probe, if_pos emp, if_pos leftOpen], more, rBd⟩
      · obtain ⟨nextRight, move, bd⟩ := moveRight (left + 1) more
        refine ⟨left + 1, nextRight, ?_, more, bd⟩
        rw [probe, if_neg emp, if_neg room, if_pos leftOpen, move]
  have mem : left ≤ endLeft ∧ right ≤ endR := by
    induction explored with
    | start => exact ⟨Nat.zero_le _, Nat.zero_le _⟩
    | next _ move ih =>
      obtain ⟨nextLeft, nextRight, same, leftBound, rBd⟩ := ahead _ _ ih.1 ih.2
      obtain ⟨rfl, rfl⟩ := ContextProbe.next.inj (same.symm.trans move)
      exact ⟨leftBound, rBd⟩
  obtain ⟨nextLeft, nextRight, move, -⟩ := ahead left right mem.1 mem.2
  exact ⟨nextLeft, nextRight, move⟩

/-- Where no following rows are asked for only the left end moves. -/
theorem RegularWindows.explored_left (regl : RegularWindows request span upTo following)
    {last : Nat} (low : IsLeast {level | request.beforeRows < upTo level} last)
    (noneAfter : request.afterRows = 0) (wtn : 1 + last ≤ maxContextScans)
    (fits : upTo last + following 0 ≤ request.candidateRowLimit) (ahead : left ≤ last) :
    Explored request span upTo following left 0 := by
  induction left with
  | zero => exact .start
  | succ left ih =>
    have room : request.beforeRows < upTo last := low.1
    have few : upTo left ≤ request.beforeRows := by
      by_contra! found
      exact absurd (low.2 found) (by omega)
    have leftOpen : request.LeftOpen span upTo following left 0 :=
      regl.leftOpen (by omega) (show left < last by omega) (by omega) fits
    refine (ih (by omega)).next ?_
    by_cases emp : upTo left = 0
    · rw [probe, if_pos emp, if_pos leftOpen]
    · rw [probe, if_neg emp, if_neg (by omega), if_pos leftOpen, probeRight,
        if_neg (by omega)]

end Exploration

end Tqsdk
