import Tqsdk.Data.TickFill
import Mathlib.Data.List.Perm.Basic
import Mathlib.Data.List.Nodup
import Mathlib.Data.List.Chain

/-!
# What a tick fill claims

The rows that a fill has delivered, taken and appended when it reaches its mark.  A fill that
reaches it has seen no id go back, and every id it has taken follows the one before.  It claims
rows that it does not hold where an attempt begins before the first one did, where an append
fails and the fill goes on, and it passes over gaps among the ids that it knows already.
-/

namespace Tqsdk

open List

/-! ## Delivered rows -/

/-- The last row that a chart has delivered. -/
def lastOf (chartId : Nat) (seen : List (Nat × Tick)) : Option Tick :=
  ((seen.filter fun entry => decide (entry.1 = chartId)).getLast?).map Prod.snd

/-- Of one chart, `next` comes right after `previous`; `before` is what all charts have delivered
before it. -/
def Follows (seen before : List (Nat × Tick)) (previous next : Tick) : Prop :=
  ∃ chartId after, seen = before ++ (chartId, next) :: after ∧
    lastOf chartId before = some previous

theorem lastOf_snoc_self (chartId : Nat) (seen : List (Nat × Tick)) (row : Tick) :
    lastOf chartId (seen ++ [(chartId, row)]) = some row := by
  unfold lastOf
  simp

variable {seen : List (Nat × Tick)}

theorem lastOf_mem {chartId : Nat} {row : Tick} (isLast : lastOf chartId seen = some row) :
    (chartId, row) ∈ seen := by
  unfold lastOf at isLast
  obtain ⟨ent, isEntry, rfl⟩ := Option.map_eq_some_iff.mp isLast
  obtain ⟨mem, isChart⟩ := mem_filter.mp (mem_of_getLast? isEntry)
  rwa [← of_decide_eq_true isChart]

theorem lastOf_eq_none {chartId : Nat} (less : ∀ ent ∈ seen, ent.1 < chartId) :
    lastOf chartId seen = none := by
  cases last : lastOf chartId seen with
  | none => rfl
  | some row => exact absurd (less _ (lastOf_mem last)) (lt_irrefl _)

theorem follows_snoc {pre : List (Nat × Tick)} {chartId : Nat} {row prev next : Tick}
    (fol : Follows (seen ++ [(chartId, row)]) pre prev next) :
    Follows seen pre prev next ∨
      pre = seen ∧ next = row ∧ lastOf chartId seen = some prev := by
  obtain ⟨chartId', post, parts, last⟩ := fol
  rcases eq_nil_or_concat post with rfl | ⟨init, fin, rfl⟩
  · obtain ⟨rfl, same⟩ := append_inj' parts rfl
    obtain ⟨rfl, rfl⟩ := Prod.mk.inj (List.cons.inj same).1
    exact .inr ⟨rfl, rfl, last⟩
  · have parts' : seen ++ [(chartId, row)] = (pre ++ (chartId', next) :: init) ++ [fin] := by
      simpa using parts
    obtain ⟨isSeen, -⟩ := append_inj' parts' rfl
    exact .inl ⟨chartId', init, isSeen, last⟩

/-! ## The invariant -/

/-- What holds of a fill in the attempt `chartId`, as long as no row was refused. -/
structure Filling (source : TickSource) (range : Int × Int) (answers : Nat → Option FillError)
    (chartId : Nat) (state : TickFill) : Prop where
  isRange : state.fill.range = range
  inSource : ∀ entry ∈ state.seen, entry.2 ∈ source.rows ∧ range.1 ≤ entry.2.datetime ∧
    entry.2.datetime < range.2
  charts : ∀ entry ∈ state.seen, entry.1 ≤ chartId
  chart_le : ∀ chartId', state.fill.chartId = some chartId' → chartId' ≤ chartId
  current : state.fill.chartId = some chartId →
    state.fill.attemptLastId = (lastOf chartId state.seen).map (·.id)
  fresh : state.fill.chartId ≠ some chartId → lastOf chartId state.seen = none
  consecutive : state.taken.IsChain fun left right => right.id = left.id + 1
  first : state.fill.firstId = state.taken.head?.map (·.id)
  last : state.fill.lastId = state.taken.getLast?.map (·.id)
  unique : state.fill.uniqueRows = state.taken.length
  seen_le : ∀ entry ∈ state.seen, ∃ final, state.taken.getLast? = some final ∧
    entry.2.id ≤ final.id
  firstSeen : state.taken.head? = state.seen.head?.map Prod.snd
  taken_seen : ∀ row ∈ state.taken, row ∈ state.seen.map Prod.snd
  perm : (state.lost ++ state.appended ++ state.pendingRows).Perm state.taken
  lost_iff : state.lost = [] ↔ ∀ index < state.appends, answers index = none
  forward : ∀ before previous next, Follows state.seen before previous next →
    previous.id ≤ next.id
  hidden : ∀ before previous next, Follows state.seen before previous next →
    previous.id + 1 < next.id → ∃ entry ∈ before, next.id ≤ entry.2.id + 1

theorem filling_start (source : TickSource) (range : Int × Int)
    (answers : Nat → Option FillError) : Filling source range answers 0 (.start range) := by
  have noFollows : ∀ pre prev next, ¬ Follows [] pre prev next := by
    rintro pre prev next ⟨chartId, post, ps, -⟩
    simp at ps
  constructor
  case forward => exact fun pre prev next nxt => (noFollows _ _ _ nxt).elim
  case hidden => exact fun pre prev next nxt => (noFollows _ _ _ nxt).elim
  case consecutive => exact .nil
  case perm => exact List.Perm.refl []
  case lost_iff => exact ⟨fun _ _ lt => (by cases lt), fun _ => rfl⟩
  case current => exact fun isChart => (by cases isChart)
  case chart_le => exact fun _ isChart => (by cases isChart)
  all_goals first | rfl | exact fun _ => rfl | exact fun _ mem => (by cases mem)

theorem Filling.next {source : TickSource} {range : Int × Int} {answers : Nat → Option FillError}
    {chartId : Nat} {state : TickFill} (filling : Filling source range answers chartId state) :
    Filling source range answers (chartId + 1) state :=
  { filling with
    charts := fun ent mem => (filling.charts ent mem).trans (Nat.le_succ _)
    chart_le := fun alt isChart => (filling.chart_le alt isChart).trans (Nat.le_succ _)
    current := fun isChart => absurd (filling.chart_le _ isChart) (Nat.not_succ_le_self chartId)
    fresh := fun _ => lastOf_eq_none fun ent mem => Nat.lt_succ_of_le (filling.charts ent mem) }

/-! ## One row -/

/-- How a row inside the range that is not refused changes the fill: it is not new, or it is the
first one or follows the last. -/
structure Pushed (before after : StreamingTickFill) (chartId : Nat) (row : Tick) (taken : Bool) :
    Prop where
  range : after.range = before.range
  chart : after.chartId = some chartId
  attempt : after.attemptLastId = some row.id
  forward : before.chartId = some chartId →
    ∀ previous, before.attemptLastId = some previous → previous ≤ row.id
  skipped : taken = false → after.firstId = before.firstId ∧ after.lastId = before.lastId ∧
    after.uniqueRows = before.uniqueRows ∧
    ((∃ last, before.lastId = some last ∧ row.id ≤ last) ∨
      before.chartId = some chartId ∧ before.attemptLastId = some row.id)
  new : taken = true → after.firstId = before.firstId.or (some row.id) ∧
    after.lastId = some row.id ∧ after.uniqueRows = before.uniqueRows + 1 ∧
    ∀ last, before.lastId = some last → last < row.id ∧ row.id = I64.saturated (last + 1)

theorem StreamingTickFill.take_cases {fill post : StreamingTickFill} {row : Tick} {taken : Bool}
    (ok : fill.take row = (post, .ok taken)) :
    post.range = fill.range ∧ post.chartId = fill.chartId ∧
      post.attemptLastId = fill.attemptLastId ∧
      (taken = false → post = fill ∧ ∃ last, fill.lastId = some last ∧ row.id ≤ last) ∧
      (taken = true → post.firstId = fill.firstId.or (some row.id) ∧
        post.lastId = some row.id ∧ post.uniqueRows = fill.uniqueRows + 1 ∧
        ∀ last, fill.lastId = some last → last < row.id ∧ row.id = I64.saturated (last + 1)) := by
  unfold take at ok
  dsimp only at ok
  split at ok
  · rename_i noLast
    obtain ⟨rfl, isTaken⟩ := Prod.mk.inj ok
    obtain rfl := Except.ok.inj isTaken
    refine ⟨rfl, rfl, rfl, fun absurd => (by cases absurd), fun _ => ⟨rfl, rfl, rfl, ?_⟩⟩
    intro last isLast
    rw [noLast] at isLast
    cases isLast
  · rename_i last isLast
    split at ok
    · rename_i old
      obtain ⟨rfl, isTaken⟩ := Prod.mk.inj ok
      obtain rfl := Except.ok.inj isTaken
      exact ⟨rfl, rfl, rfl, fun _ => ⟨rfl, last, isLast, old⟩, fun absurd => (by cases absurd)⟩
    · rename_i greater
      split at ok
      · cases (Prod.mk.inj ok).2
      · rename_i next
        obtain ⟨rfl, isTaken⟩ := Prod.mk.inj ok
        obtain rfl := Except.ok.inj isTaken
        refine ⟨rfl, rfl, rfl, fun absurd => (by cases absurd), fun _ => ⟨rfl, rfl, rfl, ?_⟩⟩
        intro last' isLast'
        rw [isLast] at isLast'
        obtain rfl := Option.some.inj isLast'
        exact ⟨not_le.mp greater, not_not.mp next⟩

theorem StreamingTickFill.push_cases {fill post : StreamingTickFill} {chartId : Nat} {row : Tick}
    {taken : Bool} (mem : fill.inRange row = true)
    (ok : fill.push chartId row = (post, .ok taken)) : Pushed fill post chartId row taken := by
  have sameIds : (fill.forChart chartId).range = fill.range ∧
      (fill.forChart chartId).chartId = some chartId ∧
      (fill.forChart chartId).firstId = fill.firstId ∧
      (fill.forChart chartId).lastId = fill.lastId ∧
      (fill.forChart chartId).uniqueRows = fill.uniqueRows ∧
      (fill.chartId = some chartId →
        (fill.forChart chartId).attemptLastId = fill.attemptLastId) := by
    unfold forChart
    split
    · rename_i same
      exact ⟨rfl, same, rfl, rfl, rfl, fun _ => rfl⟩
    · rename_i other
      exact ⟨rfl, rfl, rfl, rfl, rfl, fun same => absurd same other⟩
  obtain ⟨sameRange, isChart, sameFirst, sameLast, sameUnique, sameAttempt⟩ := sameIds
  -- the row goes on to the test against the last id
  have toTake : ({ fill.forChart chartId with attemptLastId := some row.id }.take row) =
      (post, .ok taken) →
      (fill.chartId = some chartId → ∀ prev, fill.attemptLastId = some prev → prev ≤ row.id) →
      Pushed fill post chartId row taken := by
    intro isTake forward
    obtain ⟨range, ch, attempt, skipped, new⟩ := take_cases isTake
    refine ⟨range.trans sameRange, ch.trans isChart, attempt, forward, fun isFalse => ?_,
      fun isTrue => ?_⟩
    · obtain ⟨rfl, last, fin, old⟩ := skipped isFalse
      exact ⟨sameFirst, sameLast, sameUnique, .inl ⟨last, sameLast ▸ fin, old⟩⟩
    · obtain ⟨fst, fin, isUnique, next⟩ := new isTrue
      refine ⟨fst.trans ?_, fin, isUnique.trans ?_, fun last pre => ?_⟩
      · dsimp only
        rw [sameFirst]
      · dsimp only
        rw [sameUnique]
      · exact next last (sameLast.trans pre)
  unfold push at ok
  rw [if_pos mem] at ok
  dsimp only at ok
  split at ok
  · rename_i noPrevious
    refine toTake ok fun same prev isPrevious => ?_
    rw [sameAttempt same, isPrevious] at noPrevious
    cases noPrevious
  · rename_i prev isPrevious
    split_ifs at ok with back same
    · cases (Prod.mk.inj ok).2
    · obtain ⟨rfl, isTaken⟩ := Prod.mk.inj ok
      obtain rfl := Except.ok.inj isTaken
      have old : fill.chartId = some chartId ∧ fill.attemptLastId = some row.id := by
        unfold forChart at isPrevious
        split at isPrevious
        · rename_i sameChart
          exact ⟨sameChart, same ▸ isPrevious⟩
        · cases isPrevious
      refine ⟨sameRange, isChart, same ▸ isPrevious, ?_, fun _ => ?_, fun absurd => (by cases absurd)⟩
      · intro _ other alt
        rw [old.2] at alt
        exact (Option.some.inj alt).symm.le
      · exact ⟨sameFirst, sameLast, sameUnique, .inr old⟩
    · refine toTake ok fun sameChart other alt => ?_
      rw [sameAttempt sameChart, alt] at isPrevious
      obtain rfl := Option.some.inj isPrevious
      exact not_lt.mp back

namespace Filling

variable {source : TickSource} {range : Int × Int} {answers : Nat → Option FillError}
  {chartId : Nat} {state : TickFill} {row : Tick} {fill : StreamingTickFill}

/-- A final row that was taken is one that was seen. -/
theorem final_seen (filling : Filling source range answers chartId state) {fin : Tick}
    (isFinal : state.taken.getLast? = some fin) : ∃ ent ∈ state.seen, ent.2 = fin :=
  mem_map.mp (filling.taken_seen fin (mem_of_getLast? isFinal))

variable {taken : Bool}

section

variable (filling : Filling source range answers chartId state)

include filling

/-- Of its chart the row comes after one with an id that is not larger. -/
theorem forward_of_last (push : Pushed state.fill fill chartId row taken) {prev : Tick}
    (isLast : lastOf chartId state.seen = some prev) : prev.id ≤ row.id := by
  by_cases same : state.fill.chartId = some chartId
  · refine push.forward same prev.id ?_
    rw [filling.current same, isLast]
    rfl
  · rw [filling.fresh same] at isLast
    cases isLast

theorem follows_row (push : Pushed state.fill fill chartId row taken)
    (rch : state.seen ≠ [] → ∃ ent ∈ state.seen, row.id ≤ ent.2.id + 1) :
    ∀ pre prev next, Follows (state.seen ++ [(chartId, row)]) pre prev next →
      prev.id ≤ next.id ∧ (prev.id + 1 < next.id → ∃ ent ∈ pre, next.id ≤ ent.2.id + 1) := by
  intro pre prev next nxt
  rcases follows_snoc nxt with old | ⟨rfl, rfl, last⟩
  · exact ⟨filling.forward _ _ _ old, filling.hidden _ _ _ old⟩
  · exact ⟨filling.forward_of_last push last, fun _ => rch (ne_nil_of_mem (lastOf_mem last))⟩

theorem inSource_row (ofS : row ∈ source.rows) (inn : state.fill.inRange row = true) :
    ∀ ent ∈ state.seen ++ [(chartId, row)], ent.2 ∈ source.rows ∧
      range.1 ≤ ent.2.datetime ∧ ent.2.datetime < range.2 := by
  intro ent mem
  rcases mem_append.mp mem with old | new
  · exact filling.inSource ent old
  · rw [mem_singleton.mp new, ← filling.isRange]
    exact ⟨ofS, of_decide_eq_true inn⟩

theorem charts_row (push : Pushed state.fill fill chartId row taken) :
    (∀ ent ∈ state.seen ++ [(chartId, row)], ent.1 ≤ chartId) ∧
      (∀ alt, fill.chartId = some alt → alt ≤ chartId) ∧
      (fill.chartId = some chartId →
        fill.attemptLastId = (lastOf chartId (state.seen ++ [(chartId, row)])).map (·.id)) ∧
      (fill.chartId ≠ some chartId → lastOf chartId (state.seen ++ [(chartId, row)]) = none) := by
  refine ⟨fun ent mem => ?_, fun alt isChart => ?_, fun _ => ?_, fun ne => absurd push.chart ne⟩
  · rcases mem_append.mp mem with old | new
    · exact filling.charts ent old
    · rw [mem_singleton.mp new]
  · rw [push.chart] at isChart
    exact (Option.some.inj isChart).symm.le
  · rw [push.attempt, lastOf_snoc_self]
    rfl

/-- The row is not new. -/
theorem skip (push : Pushed state.fill fill chartId row false) (ofS : row ∈ source.rows)
    (inn : state.fill.inRange row = true) :
    Filling source range answers chartId
      { state with fill := fill, seen := state.seen ++ [(chartId, row)] } := by
  obtain ⟨sameFirst, sameLast, sameUnique, why⟩ := push.skipped rfl
  have known : ∃ final, state.taken.getLast? = some final ∧ row.id ≤ final.id := by
    rcases why with ⟨last, fin, le⟩ | ⟨sameChart, isAttempt⟩
    · rw [filling.last] at fin
      obtain ⟨final, isFinal, rfl⟩ := Option.map_eq_some_iff.mp fin
      exact ⟨final, isFinal, le⟩
    · rw [filling.current sameChart] at isAttempt
      obtain ⟨prev, isPrevious, same⟩ := Option.map_eq_some_iff.mp isAttempt
      obtain ⟨final, isFinal, le⟩ := filling.seen_le _ (lastOf_mem isPrevious)
      exact ⟨final, isFinal, same ▸ le⟩
  obtain ⟨final, isFinal, le⟩ := known
  obtain ⟨ent, entrySeen, isEntry⟩ := filling.final_seen isFinal
  have nxt := filling.follows_row push fun _ => ⟨ent, entrySeen, by rw [isEntry]; omega⟩
  obtain ⟨chts, chart_le, cur, fresh⟩ := filling.charts_row push
  refine
    { filling with
      isRange := push.range.trans filling.isRange
      inSource := filling.inSource_row ofS inn
      charts := chts, chart_le := chart_le, current := cur, fresh := fresh
      first := sameFirst.trans filling.first
      last := sameLast.trans filling.last
      unique := sameUnique.trans filling.unique
      seen_le := ?_, firstSeen := ?_, taken_seen := ?_
      forward := fun pre prev next isNext => (nxt pre prev next isNext).1
      hidden := fun pre prev next isNext => (nxt pre prev next isNext).2 }
  · intro alt mem
    rcases mem_append.mp mem with old | new
    · exact filling.seen_le alt old
    · rw [mem_singleton.mp new]
      exact ⟨final, isFinal, le⟩
  · rw [filling.firstSeen, head?_append_of_ne_nil _ (ne_nil_of_mem entrySeen)]
  · intro alt mem
    rw [map_append]
    exact mem_append_left _ (filling.taken_seen alt mem)

/-- The row is new. -/
theorem take (push : Pushed state.fill fill chartId row true) (ofS : row ∈ source.rows)
    (inn : state.fill.inRange row = true) :
    Filling source range answers chartId
      { state with
        fill := fill
        seen := state.seen ++ [(chartId, row)]
        pendingRows := state.pendingRows ++ [row]
        taken := state.taken ++ [row] } := by
  obtain ⟨fst, fin, isUnique, next⟩ := push.new rfl
  have isNext : ∀ final, state.taken.getLast? = some final → row.id = final.id + 1 := by
    intro final isFinal
    have lastId : state.fill.lastId = some final.id := by
      rw [filling.last, isFinal]
      rfl
    obtain ⟨greater, isSaturated⟩ := next final.id lastId
    obtain ⟨ent, entrySeen, rfl⟩ := filling.final_seen isFinal
    have low := (source.inRange ent.2 (filling.inSource ent entrySeen).1).1
    have high := (source.inRange row ofS).2
    rw [isSaturated, I64.saturated_eq ⟨by omega, by omega⟩]
  have rch : state.seen ≠ [] → ∃ ent ∈ state.seen, row.id ≤ ent.2.id + 1 := by
    intro ne
    obtain ⟨final, isFinal, -⟩ := filling.seen_le _ (head_mem ne)
    obtain ⟨ent, entrySeen, isEntry⟩ := filling.final_seen isFinal
    exact ⟨ent, entrySeen, by rw [isEntry, isNext final isFinal]⟩
  have nxt := filling.follows_row push rch
  obtain ⟨chts, chart_le, cur, fresh⟩ := filling.charts_row push
  refine
    { filling with
      isRange := push.range.trans filling.isRange
      inSource := filling.inSource_row ofS inn
      charts := chts, chart_le := chart_le, current := cur, fresh := fresh
      consecutive := ?_, first := ?_
      last := fin.trans (by simp)
      unique := isUnique.trans (by simp [filling.unique])
      seen_le := ?_, firstSeen := ?_, taken_seen := ?_, perm := ?_
      forward := fun pre prev next isNext => (nxt pre prev next isNext).1
      hidden := fun pre prev next isNext => (nxt pre prev next isNext).2 }
  · refine isChain_append.mpr ⟨filling.consecutive, .singleton row, ?_⟩
    intro final isFinal hd fst
    obtain rfl := Option.some.inj fst
    exact isNext final isFinal
  · rw [fst, filling.first]
    cases state.taken <;> rfl
  · intro alt mem
    refine ⟨row, by simp, ?_⟩
    rcases mem_append.mp mem with old | new
    · obtain ⟨final, isFinal, le⟩ := filling.seen_le alt old
      have := isNext final isFinal
      omega
    · rw [mem_singleton.mp new]
  · have head := filling.firstSeen
    cases isTaken : state.taken with
    | cons hd rest =>
      rw [isTaken] at head
      have ne : state.seen ≠ [] := by
        intro emp
        rw [emp] at head
        cases head
      rw [head?_append_of_ne_nil _ ne, ← head]
      rfl
    | nil =>
      rw [isTaken] at head
      have emp : state.seen = [] := by
        cases isSeen : state.seen with
        | nil => rfl
        | cons ent rest =>
          rw [isSeen] at head
          cases head
      rw [emp]
      rfl
  · intro alt mem
    rw [map_append]
    rcases mem_append.mp mem with old | new
    · exact mem_append_left _ (filling.taken_seen alt old)
    · rw [mem_singleton.mp new]
      exact mem_append_right _ mem_cons_self
  · rw [← append_assoc]
    exact filling.perm.append_right [row]

theorem appendPending (some_pending : state.pendingRows ≠ []) :
    Filling source range answers chartId (state.appendPending answers).1 := by
  have split : ∀ answer, answers state.appends = answer →
      ((∀ idx < state.appends + 1, answers idx = none) ↔
        (∀ idx < state.appends, answers idx = none) ∧ answer = none) := by
    rintro _ rfl
    constructor
    · exact fun all => ⟨fun idx lt => all idx (lt.trans (Nat.lt_succ_self _)),
        all _ (Nat.lt_succ_self _)⟩
    · rintro ⟨pre, here⟩ idx lt
      rcases Nat.lt_succ_iff_lt_or_eq.mp lt with less | rfl
      · exact pre idx less
      · exact here
  unfold TickFill.appendPending
  dsimp only
  cases isAnswer : answers state.appends with
  | none =>
    refine { filling with perm := ?_, lost_iff := ?_ }
    · dsimp only
      rw [append_nil, ← append_assoc]
      exact filling.perm
    · dsimp only
      rw [split _ isAnswer, filling.lost_iff]
      exact ⟨fun all => ⟨all, rfl⟩, fun both => both.1⟩
  | some err =>
    refine { filling with perm := ?_, lost_iff := ?_ }
    · dsimp only
      rw [append_nil]
      refine List.Perm.trans ?_ filling.perm
      rw [append_assoc, append_assoc]
      exact List.Perm.append_left _ perm_append_comm
    · dsimp only
      rw [split _ isAnswer]
      constructor
      · exact fun noLost => absurd (append_eq_nil_iff.mp noLost).2 some_pending
      · rintro ⟨-, absurd⟩
        cases absurd

end

end Filling

/-! ## Whole attempts -/

/-- An error that ends the fill without a retry did not occur. -/
def Survived {α : Type} (result : Except FillError α) : Prop :=
  ∀ error, result ≠ .error (.data error)

/-- What a part of an attempt makes of the fill. -/
structure Progress (source : TickSource) (range : Int × Int) (answers : Nat → Option FillError)
    (chartId : Nat) (before after : TickFill) : Prop where
  filling : Filling source range answers chartId after
  seen : ∀ entry ∈ before.seen, entry ∈ after.seen

section Attempt

variable {source : TickSource} {range : Int × Int} {answers : Nat → Option FillError}
  {chartId : Nat} {state : TickFill}

theorem Progress.refl (filling : Filling source range answers chartId state) :
    Progress source range answers chartId state state := ⟨filling, fun _ mem => mem⟩

theorem Progress.trans {mid post : TickFill} (hd : Progress source range answers chartId state mid)
    (snd : Progress source range answers chartId mid post) :
    Progress source range answers chartId state post :=
  ⟨snd.filling, fun ent mem => snd.seen ent (hd.seen ent mem)⟩

theorem TickFill.appendPending_seen (state : TickFill) (answers : Nat → Option FillError) :
    (state.appendPending answers).1.seen = state.seen := by
  unfold appendPending
  dsimp only
  split <;> rfl

section

variable (filling : Filling source range answers chartId state)

include filling

theorem Filling.consumeRow {row : Tick} (ofS : row ∈ source.rows)
    (alive : Survived (state.consumeRow answers chartId row).2) :
    Progress source range answers chartId state (state.consumeRow answers chartId row).1 ∧
      (range.1 ≤ row.datetime → row.datetime < range.2 →
        (chartId, row) ∈ (state.consumeRow answers chartId row).1.seen) := by
  cases inn : state.fill.inRange row with
  | false =>
    have same : state.consumeRow answers chartId row = (state, .ok ()) := by
      unfold TickFill.consumeRow StreamingTickFill.push
      rw [inn]
      rfl
    rw [same]
    refine ⟨.refl filling, fun lo stop => ?_⟩
    have out := of_decide_eq_false inn
    rw [filling.isRange] at out
    exact absurd ⟨lo, stop⟩ out
  | true =>
    cases pushed : state.fill.push chartId row with
    | mk fill res =>
      unfold TickFill.consumeRow at alive ⊢
      rw [pushed, inn] at alive ⊢
      dsimp only at alive ⊢
      rw [if_pos rfl] at alive ⊢
      have old : ∀ ent ∈ state.seen, ent ∈ state.seen ++ [(chartId, row)] :=
        fun ent mem => mem_append_left _ mem
      have new : (chartId, row) ∈ state.seen ++ [(chartId, row)] := by simp
      cases res with
      | error error => exact absurd rfl (alive error)
      | ok taken =>
        have step := StreamingTickFill.push_cases inn pushed
        cases taken with
        | false => exact ⟨⟨filling.skip step ofS inn, old⟩, fun _ _ => new⟩
        | true =>
          have next := filling.take step ofS inn
          dsimp only
          split
          · refine ⟨⟨next.appendPending (by simp), ?_⟩, fun _ _ => ?_⟩
            · rw [TickFill.appendPending_seen]
              exact old
            · rw [TickFill.appendPending_seen]
              exact new
          · exact ⟨⟨next, old⟩, fun _ _ => new⟩

theorem Filling.consumeRows (rows : List Tick) (ofS : ∀ row ∈ rows, row ∈ source.rows)
    (alive : Survived (state.consumeRows answers chartId rows).2) :
    Progress source range answers chartId state (state.consumeRows answers chartId rows).1 ∧
      ((state.consumeRows answers chartId rows).2 = .ok () →
        ∀ row ∈ rows, range.1 ≤ row.datetime → row.datetime < range.2 →
          (chartId, row) ∈ (state.consumeRows answers chartId rows).1.seen) := by
  induction rows generalizing state with
  | nil => exact ⟨.refl filling, fun _ _ mem => (by cases mem)⟩
  | cons row rest ih =>
    have hd := filling.consumeRow (ofS row mem_cons_self)
    unfold TickFill.consumeRows at alive ⊢
    cases fst : state.consumeRow answers chartId row with
    | mk next res =>
      rw [fst] at alive hd
      cases res with
      | error error => exact ⟨(hd alive).1, fun ok => (by cases ok)⟩
      | ok =>
        obtain ⟨prog, here⟩ := hd (fun _ absurd => (by cases absurd))
        obtain ⟨post, sent⟩ := ih prog.filling
          (fun alt mem => ofS alt (mem_cons_of_mem _ mem)) alive
        refine ⟨prog.trans post, fun ok alt mem lo stop => ?_⟩
        rcases mem_cons.mp mem with rfl | inRest
        · exact post.seen _ (here lo stop)
        · exact sent ok alt inRest lo stop

def TickFillEvent.rows : TickFillEvent → List Tick
  | .ticks _ rows => rows
  | _ => []

/-- The rows of the events before the terminal. -/
def deliveredRows : List TickFillEvent → List Tick
  | [] => []
  | event :: rest => if event = .streamCompleted then [] else event.rows ++ deliveredRows rest

theorem Filling.consumeEvent (sym : String) {ev : TickFillEvent}
    (ofS : ∀ row ∈ ev.rows, row ∈ source.rows)
    (alive : Survived (state.consumeEvent answers sym chartId ev).2) :
    Progress source range answers chartId state
        (state.consumeEvent answers sym chartId ev).1 ∧
      ((state.consumeEvent answers sym chartId ev).2 = .ok true → ev = .streamCompleted) ∧
      ((state.consumeEvent answers sym chartId ev).2 = .ok false →
        ev ≠ .streamCompleted ∧
        ∀ row ∈ ev.rows, range.1 ≤ row.datetime → row.datetime < range.2 →
          (chartId, row) ∈ (state.consumeEvent answers sym chartId ev).1.seen) := by
  unfold TickFill.consumeEvent at alive ⊢
  cases ev with
  | streamCompleted => exact ⟨.refl filling, fun _ => rfl, fun absurd => (by cases absurd)⟩
  | canonicalKlines => exact absurd rfl (alive _)
  | chartCompleted eventSymbol =>
    dsimp only at alive ⊢
    split at alive
    · exact absurd rfl (alive _)
    · rename_i same
      rw [if_neg same]
      exact ⟨.refl filling, fun absurd => (by cases absurd),
        fun _ => ⟨fun absurd => (by cases absurd), fun _ mem => (by cases mem)⟩⟩
  | ticks eventSymbol rows =>
    dsimp only at alive ⊢
    split at alive
    · exact absurd rfl (alive _)
    · rename_i same
      rw [if_neg same]
      have used := filling.consumeRows rows ofS
      cases isConsumed : state.consumeRows answers chartId rows with
      | mk next res =>
        rw [isConsumed] at alive used
        cases res with
        | error error =>
          have fail : Survived (.error error : Except FillError Unit) :=
            fun data isData => alive data (by rw [Except.error.inj isData])
          exact ⟨(used fail).1, fun absurd => (by cases absurd),
            fun absurd => (by cases absurd)⟩
        | ok =>
          obtain ⟨prog, sent⟩ := used (fun _ absurd => (by cases absurd))
          exact ⟨prog, fun absurd => (by cases absurd),
            fun _ => ⟨fun absurd => (by cases absurd), sent rfl⟩⟩

theorem Filling.consumeEvents (sym : String) (ovr : FillError) {evs : List TickFillEvent}
    (ofS : ∀ row ∈ deliveredRows evs, row ∈ source.rows)
    (alive : Survived (state.consumeEvents answers sym chartId ovr evs).2) :
    Progress source range answers chartId state
        (state.consumeEvents answers sym chartId ovr evs).1 ∧
      ((state.consumeEvents answers sym chartId ovr evs).2 = .ok () →
        ∀ row ∈ deliveredRows evs, range.1 ≤ row.datetime → row.datetime < range.2 →
          (chartId, row) ∈ (state.consumeEvents answers sym chartId ovr evs).1.seen) := by
  induction evs generalizing state with
  | nil => exact ⟨.refl filling, fun ok => (by cases ok)⟩
  | cons ev rest ih =>
    have eventSource : ∀ row ∈ ev.rows, row ∈ source.rows := by
      intro row mem
      refine ofS row ?_
      unfold deliveredRows
      split
      · rename_i isTerminal
        rw [isTerminal] at mem
        cases mem
      · exact mem_append_left _ mem
    have hd := filling.consumeEvent sym eventSource
    unfold TickFill.consumeEvents at alive ⊢
    cases fst : state.consumeEvent answers sym chartId ev with
    | mk next res =>
      rw [fst] at alive hd
      cases res with
      | error error =>
        have fail : Survived (.error error : Except FillError Bool) :=
          fun data isData => alive data (by rw [Except.error.inj isData])
        exact ⟨(hd fail).1, fun ok => (by cases ok)⟩
      | ok done =>
        obtain ⟨prog, term, sent⟩ := hd (fun _ absurd => (by cases absurd))
        cases done with
        | true =>
          refine ⟨prog, fun _ row mem => ?_⟩
          rw [term rfl] at mem
          cases mem
        | false =>
          obtain ⟨notTerminal, here⟩ := sent rfl
          unfold deliveredRows at ofS ⊢
          rw [if_neg notTerminal] at ofS ⊢
          obtain ⟨post, inRest⟩ := ih prog.filling
            (fun row mem => ofS row (mem_append_right _ mem)) alive
          refine ⟨prog.trans post, fun ok row mem lo stop => ?_⟩
          rcases mem_append.mp mem with ofEvent | ofRest
          · exact post.seen _ (here row ofEvent lo stop)
          · exact inRest ok row ofRest lo stop

theorem Filling.runAttempt (sym : String) {attempt : FillAttempt}
    (ofS : ∀ row ∈ deliveredRows attempt.events, row ∈ source.rows)
    (alive : Survived (state.runAttempt answers sym chartId attempt).2) :
    Progress source range answers chartId state
        (state.runAttempt answers sym chartId attempt).1 ∧
      ((state.runAttempt answers sym chartId attempt).2 = .ok () →
        ∀ row ∈ deliveredRows attempt.events, range.1 ≤ row.datetime →
          row.datetime < range.2 →
          (chartId, row) ∈ (state.runAttempt answers sym chartId attempt).1.seen) := by
  unfold TickFill.runAttempt at alive ⊢
  cases isOpened : attempt.opened with
  | some error => exact ⟨.refl filling, fun ok => (by cases ok)⟩
  | none =>
    rw [isOpened] at alive
    dsimp only at alive ⊢
    have used := filling.consumeEvents sym attempt.ended ofS
    cases isConsumed : state.consumeEvents answers sym chartId attempt.ended attempt.events with
    | mk next res =>
      rw [isConsumed] at alive used
      cases res with
      | error error => exact ⟨(used alive).1, fun ok => (by cases ok)⟩
      | ok =>
        obtain ⟨prog, sent⟩ := used (fun _ absurd => (by cases absurd))
        dsimp only
        cases attempt.closed with
        | some error => exact ⟨prog, fun ok => (by cases ok)⟩
        | none => exact ⟨prog, fun _ => sent rfl⟩

end

/-- An attempt completes, and all it has delivered inside the range was seen. -/
theorem Filling.consumeWithRetries {sym : String} {attempts : Nat → FillAttempt}
    {rem attempt completing : Nat} {post : TickFill}
    (filling : Filling source range answers attempt state)
    (ofS : ∀ attempt, ∀ row ∈ deliveredRows (attempts attempt).events, row ∈ source.rows)
    (ok : state.consumeWithRetries answers sym attempts rem attempt = (post, .ok completing)) :
    Filling source range answers completing post ∧
      ∀ row ∈ deliveredRows (attempts completing).events, range.1 ≤ row.datetime →
        row.datetime < range.2 → (completing, row) ∈ post.seen := by
  induction rem generalizing state attempt with
  | zero => cases (Prod.mk.inj ok).2
  | succ rem ih =>
    have ran := filling.runAttempt sym (ofS attempt)
    unfold TickFill.consumeWithRetries at ok
    split at ok
    · cases (Prod.mk.inj ok).2
    · split at ok
      · rename_i next isRun
        obtain ⟨rfl, isCompleting⟩ := Prod.mk.inj ok
        obtain rfl := Except.ok.inj isCompleting
        rw [isRun] at ran
        obtain ⟨prog, sent⟩ := ran (fun _ absurd => (by cases absurd))
        exact ⟨prog.filling, sent rfl⟩
      · rename_i next err isRun
        split at ok
        · rename_i retries
          rw [isRun] at ran
          have alive : Survived (.error err : Except FillError Unit) := by
            intro data isData
            rw [Except.error.inj isData] at retries
            cases retries.2
          split at ok
          · cases (Prod.mk.inj ok).2
          · exact ih (ran alive).1.filling.next ok
        · cases (Prod.mk.inj ok).2

end Attempt

/-! ## The whole fill -/

/-- Consecutive ids are those between the first and the last one. -/
theorem mem_ids_iff {hd last : Tick} {rest : List Tick}
    (consec : (hd :: rest).IsChain fun left right => right.id = left.id + 1)
    (isLast : (hd :: rest).getLast? = some last) (id : Int) :
    id ∈ (hd :: rest).map (·.id) ↔ hd.id ≤ id ∧ id ≤ last.id := by
  induction rest generalizing hd id with
  | nil =>
    rw [getLast?_singleton] at isLast
    obtain rfl := Option.some.inj isLast
    simp only [map_cons, map_nil, mem_singleton]
    omega
  | cons snd rest ih =>
    obtain ⟨next, post⟩ := isChain_cons_cons.mp consec
    rw [getLast?_cons_cons] at isLast
    have reaches := (ih post isLast snd.id).mp (by simp)
    rw [map_cons, mem_cons, ih post isLast id]
    omega

theorem ids_nodup {rows : List Tick}
    (consec : rows.IsChain fun left right => right.id = left.id + 1) :
    (rows.map (·.id)).Nodup := by
  have incr : (rows.map (·.id)).IsChain (· < ·) := by
    rw [isChain_map]
    exact consec.imp fun left right next => by omega
  exact (isChain_iff_pairwise.mp incr).imp fun less => less.ne

section Outcome

variable (range : Int × Int) (answers : Nat → Option FillError)

/-- What a fill promises that reaches its mark: the rows of the completing attempt are in the
cache; the ids that were appended are those of the mark, without a gap and counted; a fill in
which an attempt has passed over an id or gone back fails; and a fill that fails commits
nothing. -/
structure TickFillOutcome.Sound (attempts : Nat → FillAttempt) (outcome : TickFillOutcome) :
    Prop where
  holds : ∀ mark completing, outcome.mark = some mark → outcome.completing = some completing →
    ∀ row ∈ deliveredRows (attempts completing).events, range.1 ≤ row.datetime →
      row.datetime < range.2 → row ∈ outcome.state.appended
  counted : ∀ mark, outcome.mark = some mark →
    outcome.state.appended.length = mark.rows ∧ (outcome.state.appended.map (·.id)).Nodup ∧
    ((outcome.state.appended = [] ∧ mark.idRange = none) ∨
      ∃ first last, mark.idRange = some (first, last) ∧
        ∀ id, id ∈ outcome.state.appended.map (·.id) ↔ first ≤ id ∧ id ≤ last)
  continuous : (∃ before previous next, Follows outcome.state.seen before previous next ∧
      (next.id < previous.id ∨ previous.id + 1 < next.id)) →
    ∃ error, outcome.result = .error error
  uncommitted : ∀ error, outcome.result = .error error → outcome.committed = false

/-- No row of the completing attempt inside the range has an id below that of the first row that
was delivered, no append has failed, and, where the mark succeeds, a gap in the ids of an attempt
is above all ids delivered before. -/
def TickFillOutcome.NoHiddenRows (attempts : Nat → FillAttempt) (outcome : TickFillOutcome) :
    Prop :=
  (∀ completing first, outcome.completing = some completing →
    outcome.state.seen.head? = some first →
    ∀ row ∈ deliveredRows (attempts completing).events, range.1 ≤ row.datetime →
      row.datetime < range.2 → first.2.id ≤ row.id) ∧
  (∀ index < outcome.state.appends, answers index = none) ∧
  (outcome.committed = true → ∀ before previous next,
    Follows outcome.state.seen before previous next → previous.id + 1 < next.id →
    ∀ entry ∈ before, entry.2.id + 1 < next.id)

end Outcome

/-- The state in which a fill reaches its mark. -/
structure Marked (source : TickSource) (range : Int × Int) (answers : Nat → Option FillError)
    (attempts : Nat → FillAttempt) (outcome : TickFillOutcome) (mark : TickMark)
    (completing : Nat) : Prop where
  isCompleting : outcome.completing = some completing
  filling : Filling source range answers completing outcome.state
  drained : outcome.state.pendingRows = []
  delivered : ∀ row ∈ deliveredRows (attempts completing).events, range.1 ≤ row.datetime →
    row.datetime < range.2 → (completing, row) ∈ outcome.state.seen
  rows : mark.rows = outcome.state.fill.uniqueRows
  idRange : mark.idRange = outcome.state.fill.firstId.bind fun first =>
    outcome.state.fill.lastId.map fun last => (first, last)
  committed : outcome.committed = false → ∃ error, outcome.result = .error error
  uncommitted : ∀ error, outcome.result = .error error → outcome.committed = false

section Fill

variable {source : TickSource} {range : Int × Int} {answers : Nat → Option FillError}
  {attempts : Nat → FillAttempt}

/-- A fill ends with an error and no mark, or has reached its mark. -/
theorem TickFill.finish_cases {asOf : Option Int} {cancelled marking : Option FillError}
    {state : TickFill} {used : Except FillError Nat}
    (completes : ∀ completing, used = .ok completing →
      Filling source range answers completing state ∧
        ∀ row ∈ deliveredRows (attempts completing).events, range.1 ≤ row.datetime →
          row.datetime < range.2 → (completing, row) ∈ state.seen) {outcome : TickFillOutcome}
    (isOutcome : state.finish answers range asOf cancelled marking used = outcome) :
    (∃ state error, outcome = .failed state error) ∨
      ∃ mark completing, outcome.mark = some mark ∧
        Marked source range answers attempts outcome mark completing := by
  unfold finish at isOutcome
  split at isOutcome
  · exact .inl ⟨_, _, isOutcome.symm⟩
  · rename_i drained isDrained
    -- the last rows were appended
    have kept : ∀ completing, Filling source range answers completing state →
        Filling source range answers completing drained ∧ drained.pendingRows = [] ∧
          drained.seen = state.seen := by
      intro completing filling
      split_ifs at isDrained with emp
      · obtain ⟨rfl, -⟩ := Prod.mk.inj isDrained
        exact ⟨filling, emp, rfl⟩
      · have app := filling.appendPending emp
        have sameSeen := state.appendPending_seen answers
        rw [isDrained] at app sameSeen
        refine ⟨app, ?_, sameSeen⟩
        unfold appendPending at isDrained
        dsimp only at isDrained
        split at isDrained
        · cases (Prod.mk.inj isDrained).2
        · rw [← (Prod.mk.inj isDrained).1]
    split at isOutcome
    · exact .inl ⟨_, _, isOutcome.symm⟩
    · exact .inl ⟨_, _, isOutcome.symm⟩
    · rename_i completing
      obtain ⟨filling, sent⟩ := completes completing rfl
      obtain ⟨filling, isEmpty, sameSeen⟩ := kept completing filling
      rw [← sameSeen] at sent
      dsimp only at isOutcome
      split at isOutcome
      · rw [← isOutcome]
        exact .inr ⟨_, completing, rfl, rfl, filling, isEmpty, sent, rfl, rfl,
          fun _ => ⟨_, rfl⟩, fun _ _ => rfl⟩
      · rw [← isOutcome]
        exact .inr ⟨_, completing, rfl, rfl, filling, isEmpty, sent, rfl, rfl,
          fun absurd => (by cases absurd), fun _ absurd => (by cases absurd)⟩

theorem fillTicks_cases {sym : String} {asOf : Option Int} {nowNs : Int}
    {cancelled marking : Option FillError} {outcome : TickFillOutcome}
    (ofS : ∀ attempt, ∀ row ∈ deliveredRows (attempts attempt).events, row ∈ source.rows)
    (isOutcome : fillTicks answers sym range asOf nowNs attempts cancelled marking = outcome) :
    (∃ state error, outcome = .failed state error) ∨
      ∃ mark completing, outcome.mark = some mark ∧
        Marked source range answers attempts outcome mark completing := by
  unfold fillTicks at isOutcome
  split at isOutcome
  · exact .inl ⟨_, _, isOutcome.symm⟩
  · dsimp only at isOutcome
    refine TickFill.finish_cases (fun completing isOk => ?_) isOutcome
    exact (filling_start source range answers).next.consumeWithRetries ofS (Prod.ext rfl isOk)

namespace Marked

variable {outcome : TickFillOutcome} {mark : TickMark} {completing : Nat}

section

variable (marked : Marked source range answers attempts outcome mark completing)

include marked

/-- With its lost rows, the appended ones are those that were taken. -/
theorem perm :
    (outcome.state.lost ++ outcome.state.appended).Perm outcome.state.taken := by
  have perm := marked.filling.perm
  rwa [marked.drained, append_nil] at perm

theorem mem_taken {row : Tick} (mem : row ∈ outcome.state.appended) : row ∈ outcome.state.taken :=
  marked.perm.subset (mem_append_right _ mem)

theorem taken_ofSource {row : Tick} (mem : row ∈ outcome.state.taken) :
    row ∈ source.rows ∧ range.1 ≤ row.datetime ∧ row.datetime < range.2 := by
  obtain ⟨ent, seen, rfl⟩ := mem_map.mp (marked.filling.taken_seen row mem)
  exact marked.filling.inSource ent seen

/-- Where nothing was lost, a row of the source between the first and the last one that were
taken is appended. -/
theorem appended (noLost : outcome.state.lost = []) {ent : Nat × Tick}
    (seen : ent ∈ outcome.state.seen)
    (notBefore : ∀ hd, outcome.state.seen.head? = some hd → hd.2.id ≤ ent.2.id) :
    ent.2 ∈ outcome.state.appended := by
  obtain ⟨fin, isFinal, notAfter⟩ := marked.filling.seen_le ent seen
  have perm := marked.perm
  rw [noLost, nil_append] at perm
  have fst := marked.filling.firstSeen
  have consec := marked.filling.consecutive
  cases isTaken : outcome.state.taken with
  | nil =>
    rw [isTaken] at isFinal
    cases isFinal
  | cons hd rest =>
    rw [isTaken] at fst isFinal consec
    obtain ⟨head, isHead, rfl⟩ := Option.map_eq_some_iff.mp fst.symm
    have btw := (mem_ids_iff consec isFinal ent.2.id).mpr ⟨notBefore head isHead, notAfter⟩
    obtain ⟨row, inTaken, sameId⟩ := mem_map.mp btw
    rw [← isTaken] at inTaken
    have same := source.unique row (marked.taken_ofSource inTaken).1 ent.2
      (marked.filling.inSource ent seen).1 sameId
    rw [← same]
    exact perm.symm.subset inTaken

theorem counted (noLost : outcome.state.lost = []) :
    outcome.state.appended.length = mark.rows ∧ (outcome.state.appended.map (·.id)).Nodup ∧
    ((outcome.state.appended = [] ∧ mark.idRange = none) ∨
      ∃ hd last, mark.idRange = some (hd, last) ∧
        ∀ id, id ∈ outcome.state.appended.map (·.id) ↔ hd ≤ id ∧ id ≤ last) := by
  have perm := marked.perm
  rw [noLost, nil_append] at perm
  have consec := marked.filling.consecutive
  refine ⟨perm.length_eq.trans (marked.rows.trans marked.filling.unique).symm,
    (perm.map _).nodup_iff.mpr (ids_nodup consec), ?_⟩
  rw [marked.idRange, marked.filling.first, marked.filling.last]
  cases isTaken : outcome.state.taken with
  | nil =>
    rw [isTaken] at perm
    exact .inl ⟨perm.eq_nil, rfl⟩
  | cons hd rest =>
    have isFinal := getLast?_eq_some_getLast (cons_ne_nil hd rest)
    rw [isTaken] at consec perm
    refine .inr ⟨hd.id, ((hd :: rest).getLast (cons_ne_nil hd rest)).id, ?_, ?_⟩
    · rw [isFinal]
      rfl
    · intro id
      rw [← mem_ids_iff consec isFinal id]
      exact (perm.map _).mem_iff

end

end Marked

/-- A fill keeps its promise exactly where, when it reaches its mark, no row hides behind the ids
of another attempt and no append has failed. -/
theorem fillTicks_sound_iff (source : TickSource) (symbol : String) (range : Int × Int)
    (provisionalAsOfNs : Option Int) (nowNs : Int) (attempts : Nat → FillAttempt)
    (answers : Nat → Option FillError) (cancelled marking : Option FillError)
    (ofSource : ∀ attempt, ∀ row ∈ deliveredRows (attempts attempt).events, row ∈ source.rows)
    (complete : ∀ completing,
      (fillTicks answers symbol range provisionalAsOfNs nowNs attempts cancelled
        marking).completing = some completing →
      ∀ row ∈ source.rows, range.1 ≤ row.datetime → row.datetime < range.2 →
        row ∈ deliveredRows (attempts completing).events) :
    (fillTicks answers symbol range provisionalAsOfNs nowNs attempts cancelled marking).Sound
        range attempts ↔
      ((fillTicks answers symbol range provisionalAsOfNs nowNs attempts cancelled
          marking).mark ≠ none →
        (fillTicks answers symbol range provisionalAsOfNs nowNs attempts cancelled
          marking).NoHiddenRows range answers attempts) := by
  generalize isOutcome : fillTicks answers symbol range provisionalAsOfNs nowNs attempts cancelled
    marking = outcome at complete ⊢
  obtain ⟨state, error, rfl⟩ | ⟨mark, completing, isMark, marked⟩ :=
    fillTicks_cases ofSource isOutcome
  · refine ⟨fun _ marks => absurd rfl marks, fun _ => ⟨?_, ?_, ?_, ?_⟩⟩
    · exact fun _ _ absurd => (by cases absurd)
    · exact fun _ absurd => (by cases absurd)
    · exact fun _ => ⟨error, rfl⟩
    · exact fun _ _ => rfl
  · have filling := marked.filling
    have fail := marked.committed
    constructor
    · intro snd _
      refine ⟨?_, ?_, ?_⟩
      · intro completing' hd isCompleting isHead row mem lo stop
        have held := marked.mem_taken (snd.holds mark _ isMark isCompleting row mem lo stop)
        have fst := filling.firstSeen
        have consec := filling.consecutive
        cases isTaken : outcome.state.taken with
        | nil =>
          rw [isTaken] at held
          cases held
        | cons firstTaken rest =>
          have isFinal := getLast?_eq_some_getLast (cons_ne_nil firstTaken rest)
          rw [isTaken] at fst consec held
          rw [isHead] at fst
          obtain rfl := Option.some.inj fst
          exact ((mem_ids_iff consec isFinal row.id).mp (mem_map_of_mem held)).1
      · rw [← filling.lost_iff]
        by_contra someLost
        obtain ⟨row, isLost⟩ := exists_mem_of_ne_nil _ someLost
        have taken := marked.perm.subset (mem_append_left _ isLost)
        obtain ⟨inS, lo, stop⟩ := marked.taken_ofSource taken
        have held := snd.holds mark completing isMark marked.isCompleting row
          (complete completing marked.isCompleting row inS lo stop) lo stop
        have nd := (marked.perm.map (·.id)).nodup_iff.mpr (ids_nodup filling.consecutive)
        rw [map_append] at nd
        exact (nodup_append.mp nd).2.2 row.id (mem_map_of_mem isLost) row.id
          (mem_map_of_mem held) rfl
      · intro isCommitted pre prev next nxt gap
        obtain ⟨error, err⟩ := snd.continuous ⟨pre, prev, next, nxt, .inr gap⟩
        rw [snd.uncommitted error err] at isCommitted
        cases isCommitted
    · intro noHidden
      obtain ⟨notBefore, allAppended, vis⟩ := noHidden (by rw [isMark]; exact Option.some_ne_none _)
      have noLost := filling.lost_iff.mpr allAppended
      refine ⟨?_, ?_, ?_, ?_⟩
      · intro mark' completing' _ isCompleting row mem lo stop
        have isSame := marked.isCompleting
        rw [isCompleting] at isSame
        obtain rfl := Option.some.inj isSame
        exact marked.appended noLost (marked.delivered row mem lo stop)
          fun hd isHead => notBefore _ hd isCompleting isHead row mem lo stop
      · intro mark' isMark'
        rw [isMark] at isMark'
        obtain rfl := Option.some.inj isMark'
        exact marked.counted noLost
      · rintro ⟨pre, prev, next, nxt, back | gap⟩
        · exact absurd back (not_lt.mpr (filling.forward pre prev next nxt))
        · cases isCommitted : outcome.committed with
          | false => exact fail isCommitted
          | true =>
            obtain ⟨ent, mem, near⟩ := filling.hidden pre prev next nxt gap
            have := vis isCommitted pre prev next nxt gap ent mem
            omega
      · exact marked.uncommitted

end Fill

/-! ## An attempt that starts earlier, and a gap among known ids -/

def fillTick (id : Int) : Tick := ⟨id, 10 * id, [], none⟩

/-- Ticks 3 to 5. -/
def threeTicks : TickSource where
  rows := { row | ∃ id, 3 ≤ id ∧ id ≤ 5 ∧ row = fillTick id }
  inRange := by
    rintro _ ⟨id, low, high, rfl⟩
    unfold I64.InRange I64.minimum I64.maximum fillTick
    dsimp only
    omega
  unique := by
    rintro _ ⟨left, _, _, rfl⟩ _ ⟨right, _, _, rfl⟩ same
    rw [show left = right from same]

/-- An attempt that breaks off after some rows. -/
def brokenAttempt (ids : List Int) : FillAttempt :=
  ⟨none, none, [.ticks "SHFE.rb2610" (ids.map fillTick)], .transient "connection reset", none, none⟩

/-- An attempt that completes. -/
def completeAttempt : FillAttempt :=
  ⟨none, none, [.ticks "SHFE.rb2610" ([3, 4, 5].map fillTick), .streamCompleted],
    .transient "connection reset", none, none⟩

/-- The first attempt breaks off after `first`, the second after `second`. -/
def threeAttempts (first second : List Int) : Nat → FillAttempt
  | 1 => brokenAttempt first
  | 2 => brokenAttempt second
  | _ => completeAttempt

def fillThreeTicks (first second : List Int) : TickFillOutcome :=
  fillTicks (fun _ => none) "SHFE.rb2610" (0, 100) (some 100) 0 (threeAttempts first second) none
    none

theorem threeTicks_complete :
    ∀ row ∈ threeTicks.rows, row ∈ deliveredRows completeAttempt.events := by
  rintro _ ⟨id, low, high, rfl⟩
  obtain rfl | rfl | rfl : id = 3 ∨ id = 4 ∨ id = 5 := by omega
  all_goals decide

/-- The first attempt begins with tick 4: the fill marks its range without tick 3.  The second
attempt passes over tick 4, which is known: the fill does not fail. -/
theorem fill_hides_rows :
    ((fillThreeTicks [4] []).completing = some 3 ∧
      ¬ (fillThreeTicks [4] []).Sound (0, 100) (threeAttempts [4] [])) ∧
    (fillThreeTicks [3, 4] [3, 5]).completing = some 3 ∧
      ¬ (fillThreeTicks [3, 4] [3, 5]).Sound (0, 100) (threeAttempts [3, 4] [3, 5]) := by
  refine ⟨⟨by decide +kernel, fun snd => ?_⟩, by decide +kernel, fun snd => ?_⟩
  · have held := snd.holds ⟨(0, 100), some 100, 2, some (4, 5)⟩ 3 (by decide +kernel)
      (by decide +kernel) (fillTick 3) (by decide +kernel) (by decide) (by decide)
    revert held
    decide +kernel
  · obtain ⟨error, err⟩ := snd.continuous
      ⟨[(1, fillTick 3), (1, fillTick 4), (2, fillTick 3)], fillTick 3, fillTick 5,
        ⟨2, [(3, fillTick 3), (3, fillTick 4), (3, fillTick 5)], by decide +kernel,
          by decide +kernel⟩, .inr (by decide)⟩
    have isOk : (fillThreeTicks [3, 4] [3, 5]).result.toBool = true := by decide +kernel
    rw [err] at isOk
    cases isOk

/-- A first attempt that breaks off before its first row, and one that completes. -/
theorem fillTicks_sound_iff_three :
    (fillThreeTicks [] []).Sound (0, 100) (threeAttempts [] []) ∧
      (fillThreeTicks [] []).mark = some ⟨(0, 100), some 100, 3, some (3, 5)⟩ := by
  have isSeen : (fillThreeTicks [] []).state.seen =
      [(3, fillTick 3), (3, fillTick 4), (3, fillTick 5)] := by decide +kernel
  refine ⟨(fillTicks_sound_iff threeTicks "SHFE.rb2610" (0, 100) (some 100) 0
    (threeAttempts [] []) (fun _ => none) none none ?_ ?_).mpr fun _ => ⟨?_, ?_, ?_⟩,
    by decide +kernel⟩
  · intro attempt row mem
    unfold threeAttempts at mem
    split at mem
    · cases mem
    · cases mem
    · obtain rfl | rfl | rfl : row = fillTick 3 ∨ row = fillTick 4 ∨ row = fillTick 5 := by
        simpa [completeAttempt, deliveredRows, TickFillEvent.rows] using mem
      · exact ⟨3, by decide, by decide, rfl⟩
      · exact ⟨4, by decide, by decide, rfl⟩
      · exact ⟨5, by decide, by decide, rfl⟩
  · intro completing isCompleting row mem _ _
    have isThree : (fillThreeTicks [] []).completing = some 3 := by decide +kernel
    obtain rfl := Option.some.inj (isCompleting.symm.trans isThree)
    exact threeTicks_complete row mem
  · intro completing hd isCompleting isHead row mem _ _
    have isThree : (fillThreeTicks [] []).completing = some 3 := by decide +kernel
    obtain rfl := Option.some.inj (isCompleting.symm.trans isThree)
    have fst : (fillThreeTicks [] []).state.seen.head? = some (3, fillTick 3) := by
      rw [isSeen]
      rfl
    obtain rfl := Option.some.inj (isHead.symm.trans fst)
    obtain rfl | rfl | rfl : row = fillTick 3 ∨ row = fillTick 4 ∨ row = fillTick 5 := by
      simpa [threeAttempts, completeAttempt, deliveredRows, TickFillEvent.rows] using mem
    all_goals decide
  · exact fun _ _ => rfl
  · rintro - pre prev next ⟨chartId, post, ps, last⟩ gap
    have inSeen : (fillThreeTicks [] []).state.seen = pre ++ (chartId, next) :: post := ps
    rw [isSeen] at inSeen
    rcases pre with _ | ⟨hd, _ | ⟨snd, _ | ⟨third, rest⟩⟩⟩
    · cases last
    · simp only [cons_append, nil_append, List.cons.injEq, Prod.mk.injEq] at inSeen
      obtain ⟨rfl, ⟨rfl, rfl⟩, -⟩ := inSeen
      obtain rfl := Option.some.inj last
      exact absurd gap (by decide)
    · simp only [cons_append, nil_append, List.cons.injEq, Prod.mk.injEq] at inSeen
      obtain ⟨rfl, rfl, ⟨rfl, rfl⟩, -⟩ := inSeen
      obtain rfl := Option.some.inj last
      exact absurd gap (by decide)
    · simp at inSeen

end Tqsdk
