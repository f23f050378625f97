import Tqsdk.Task.PlanShares
import Tqsdk.Task.Sim

/-!
# What a plan adds up to

The batches of a plan share the whole change out: what closes today's volume, what closes
yesterday's and what is left to open.  How much may be closed depends on the fields that report
the side: an exchange that keeps today's volume apart reads today's and yesterday's fields only,
and a side that reports nothing but its total has neither.
-/

namespace Tqsdk

open List

def PlannedOrder.signedVolume (order : PlannedOrder) : Int :=
  order.direction.signedVolume order.volume

/-- The volume that orders of one offset trade together. -/
def volumeOf (offset : TradeOffset) (orders : List PlannedOrder) : Int :=
  ((orders.filter fun order => order.offset = offset).map PlannedOrder.volume).sum

/-- The volume that all close orders trade together. -/
def closedVolume (orders : List PlannedOrder) : Int :=
  ((orders.filter fun order => order.offset ≠ .open_).map PlannedOrder.volume).sum

/-! ## The orders of all batches -/

section Batches

variable (exchangeId : String) (position : Position) (dir : TradeDirection)

theorem planGroups_zero (grps : List (List OffsetAction)) :
    planGroups exchangeId position grps 0 = [] := by
  cases grps with
  | nil => rfl
  | cons grp grps => rfl

/-- A batch without orders is left out, and leaves nothing out. -/
theorem planGroups_flatten_cons (grp : List OffsetAction) (grps : List (List OffsetAction))
    (rem : Int) :
    (planGroups exchangeId position (grp :: grps) rem).flatten =
      (planGroup exchangeId position grp rem 0).1 ++
        (planGroups exchangeId position grps
          (planGroup exchangeId position grp rem 0).2).flatten := by
  by_cases zero : rem = 0
  · subst zero
    rw [planGroup_zero, planGroups_zero, planGroups_zero]
    rfl
  · conv_lhs => unfold planGroups
    rw [if_neg zero]
    dsimp only
    split
    · rename_i emp
      rw [isEmpty_iff.mp emp, nil_append]
    · rw [flatten_cons]

/-- What remains after a group is what its orders leave of the change. -/
theorem planGroup_left (grp : List OffsetAction) {asked : Int} (nn : 0 ≤ asked) (pend : Int) :
    (planGroup exchangeId position grp (dir.signedVolume asked) pend).2 =
      dir.signedVolume (asked -
        ((planGroup exchangeId position grp (dir.signedVolume asked)
          pend).1.map PlannedOrder.volume).sum) := by
  obtain ⟨-, left, -, -, leftEq, total⟩ := planGroup_spec exchangeId position dir grp asked pend nn
  rw [leftEq]
  congr 1
  omega

theorem placed_volume (off : TradeOffset) (vol : Int) :
    ((placed dir off vol).map PlannedOrder.volume).sum = vol := by
  unfold placed
  split
  · rename_i zero
    rw [zero]
    rfl
  · simp

/-- The orders of a plan: the close shares, and what they leave of the change to open. -/
theorem planGroups_flatten (prio : OffsetPriority) {req : Int} (nn : 0 ≤ req) :
    let closes := (position.closing dir).closes (isShfeLike exchangeId) prio req
    (planGroups exchangeId position (offsetPriorityGroups prio)
        (dir.signedVolume req)).flatten =
      placed dir (OffsetAction.today.offset (isShfeLike exchangeId)) closes.1 ++
        (placed dir .close closes.2 ++
          placed dir .open_ (req - closes.1 - closes.2)) := by
  have bnds := (position.closing dir).closes_nonneg (isShfeLike exchangeId) req prio nn
  have last : ∀ rem, (planGroups exchangeId position [] rem).flatten = [] := fun rem => rfl
  cases prio with
  | openOnly =>
    have shut : (position.closing dir).closes (isShfeLike exchangeId) .openOnly
        req = (0, 0) := by
      unfold PositionSide.closes
      split <;> rfl
    dsimp only [offsetPriorityGroups]
    rw [planGroups_flatten_cons, last, shut, planGroup_open exchangeId position dir nn]
    simp [placed]
  | yesterdayThenOpen =>
    have shut := (position.closing dir).closes_yesterday (isShfeLike exchangeId) req nn
    have ords := planGroup_yesterday exchangeId position dir nn 0 [.open_]
    dsimp only at ords
    rw [shut] at bnds
    rw [planGroup_open exchangeId position dir (by omega)] at ords
    dsimp only [offsetPriorityGroups]
    rw [planGroups_flatten_cons, last, shut, ords]
    simp [placed]
  | todayYesterdayThenOpen =>
    have ords := planGroup_todayYesterday exchangeId position dir nn [.open_]
    dsimp only at ords
    rw [planGroup_open exchangeId position dir (by omega)] at ords
    dsimp only [offsetPriorityGroups]
    rw [planGroups_flatten_cons, last, ords, append_nil]
  | todayYesterdayThenOpenWait =>
    have ords := planGroup_todayYesterday exchangeId position dir nn []
    have same : (position.closing dir).closes (isShfeLike exchangeId)
        .todayYesterdayThenOpenWait req = (position.closing dir).closes
          (isShfeLike exchangeId) .todayYesterdayThenOpen req := rfl
    dsimp only at ords
    rw [← same] at ords
    generalize (position.closing dir).closes (isShfeLike exchangeId)
      .todayYesterdayThenOpenWait req = closes at ords bnds ⊢
    have emp : ∀ rem pend,
        (planGroup exchangeId position [] rem pend).1 = [] :=
      fun rem pend => rfl
    rw [emp, append_nil] at ords
    -- The second group starts from what the close orders leave.
    have left := planGroup_left exchangeId position dir [.today, .yesterday] nn 0
    rw [ords, map_append, sum_append, placed_volume, placed_volume, ← Int.sub_sub] at left
    dsimp only [offsetPriorityGroups]
    rw [planGroups_flatten_cons, planGroups_flatten_cons, last, left, ords,
      planGroup_open exchangeId position dir (by omega), append_nil,
      append_assoc]

end Batches

theorem computePlan_flatten (exchangeId : String) (position : Position) (tgt : Int)
    (prio : OffsetPriority) :
    let change := tgt - position.netPosition
    let direction := changeDirection change
    let shuts := (position.closing direction).closes (isShfeLike exchangeId) prio change.natAbs
    (computePlan exchangeId position tgt prio).flatten =
      placed direction (OffsetAction.today.offset (isShfeLike exchangeId)) shuts.1 ++
        (placed direction .close shuts.2 ++
          placed direction .open_ (change.natAbs - shuts.1 - shuts.2)) := by
  dsimp only
  rw [← planGroups_flatten exchangeId position _ prio (by omega : (0 : Int) ≤
    (tgt - position.netPosition).natAbs), ← changeDirection_signedVolume]
  unfold computePlan
  dsimp only
  split
  · rename_i zero
    rw [zero, planGroups_zero]
  · rfl

/-! ## Volumes by offset -/

section Volumes

variable (direction : TradeDirection) (first second : List PlannedOrder)

@[simp]
theorem volumeOf_append (off : TradeOffset) :
    volumeOf off (first ++ second) = volumeOf off first + volumeOf off second := by
  simp [volumeOf]

@[simp]
theorem closedVolume_append :
    closedVolume (first ++ second) = closedVolume first + closedVolume second := by
  simp [closedVolume]

@[simp]
theorem volumeOf_placed (asks off : TradeOffset) (vol : Int) :
    volumeOf asks (placed direction off vol) = if off = asks then vol else 0 := by
  unfold volumeOf placed
  by_cases zero : vol = 0
  · simp [zero]
  · by_cases same : off = asks
    · simp [zero, same]
    · simp [zero, same]

@[simp]
theorem closedVolume_placed (off : TradeOffset) (vol : Int) :
    closedVolume (placed direction off vol) = if off = .open_ then 0 else vol := by
  unfold closedVolume placed
  by_cases zero : vol = 0
  · simp [zero]
  · by_cases opens : off = .open_
    · simp [zero, opens]
    · simp [zero, opens]

theorem placed_signedVolume (off : TradeOffset) (vol : Int) :
    ((placed direction off vol).map PlannedOrder.signedVolume).sum =
      direction.signedVolume vol := by
  unfold placed
  split
  · rename_i zero
    rw [zero, TradeDirection.signedVolume_eq_zero.mpr rfl]
    rfl
  · simp [PlannedOrder.signedVolume]

theorem mem_placed {off : TradeOffset} {vol : Int} {ord : PlannedOrder}
    (mem : ord ∈ placed direction off vol) : ord = ⟨direction, off, vol⟩ := by
  unfold placed at mem
  split at mem
  · cases mem
  · exact mem_singleton.mp mem

end Volumes

/-! ## The target is reached -/

namespace PositionSide

/-- Today's and yesterday's volume make the total, and what is frozen is held. -/
structure Consistent (side : PositionSide) : Prop where
  totals : side.today + side.his = side.total
  frozenToday : 0 ≤ side.frozenToday ∧ side.frozenToday ≤ side.today
  frozenHis : 0 ≤ side.frozenHis ∧ side.frozenHis ≤ side.his
  frozen : 0 ≤ side.totalCloseFrozen ∧ side.totalCloseFrozen ≤ side.total

variable {side : PositionSide}

theorem Consistent.closeApart_le (cons : side.Consistent) (prio : OffsetPriority) (asked : Int) :
    (side.closeApart prio asked).1 ≤ side.today - side.frozenToday ∧
      (side.closeApart prio asked).2 ≤ side.his - side.frozenHis := by
  have today := cons.frozenToday
  have his := cons.frozenHis
  cases prio <;> simp only [closeApart] <;> omega

theorem Consistent.closeTogether_le (cons : side.Consistent) (prio : OffsetPriority) (asked : Int) :
    (side.closeTogether prio asked).1 + (side.closeTogether prio asked).2 ≤
      side.total - side.totalCloseFrozen := by
  have totals := cons.totals
  have his := cons.frozenHis
  have frz := cons.frozen
  cases prio <;> simp only [closeTogether] <;> (try split) <;> omega

end PositionSide

/-- The orders of a plan trade in one direction and add up to the change; the close orders stay
within what a consistent side has free. -/
theorem computePlan_reaches_target (exchangeId : String) (position : Position)
    (targetVolume : Int) (priority : OffsetPriority) :
    let orders := (computePlan exchangeId position targetVolume priority).flatten
    let direction := changeDirection (targetVolume - position.netPosition)
    let side := position.closing direction
    (∀ ord ∈ orders, 0 < ord.volume ∧ ord.direction = direction) ∧
      (orders.map PlannedOrder.signedVolume).sum = targetVolume - position.netPosition ∧
      (side.Consistent →
        if isShfeLike exchangeId then
          volumeOf .closeToday orders ≤ side.today - side.frozenToday ∧
            volumeOf .close orders ≤ side.his - side.frozenHis
        else
          volumeOf .closeToday orders = 0 ∧
            volumeOf .close orders ≤ side.total - side.totalCloseFrozen) := by
  dsimp only
  refine ⟨?_, ?_, ?_⟩
  · intro ord mem
    obtain ⟨b, plan, mem⟩ := mem_flatten.mp mem
    obtain ⟨-, oriented, -⟩ := computePlan_spec plan
    exact (oriented ord mem).symm
  · have all := changeDirection_signedVolume (targetVolume - position.netPosition)
    rw [computePlan_flatten]
    simp only [map_append, sum_append, placed_signedVolume]
    generalize (position.closing _).closes _ priority _ = closes
    conv_rhs => rw [all]
    cases changeDirection (targetVolume - position.netPosition) <;>
      simp only [TradeDirection.signedVolume] <;> omega
  · intro cons
    rw [computePlan_flatten]
    generalize changeDirection (targetVolume - position.netPosition) = direction at *
    cases sep : isShfeLike exchangeId with
    | true =>
      simpa [PositionSide.closes, OffsetAction.offset] using
        cons.closeApart_le priority _
    | false =>
      simpa [PositionSide.closes, OffsetAction.offset] using
        cons.closeTogether_le priority _

theorem computePlan_reaches_target_split :
    let position : Position := { long := { posToday := 2, posHis := 3, frozenToday := 1 } }
    let ords := (computePlan "SHFE" position (-1) .todayYesterdayThenOpenWait).flatten
    volumeOf .closeToday ords ≤ 1 ∧ volumeOf .close ords ≤ 3 :=
  (computePlan_reaches_target "SHFE" { long := { posToday := 2, posHis := 3, frozenToday := 1 } }
    (-1) .todayYesterdayThenOpenWait).2.2
    ⟨by decide, by decide, by decide, by decide⟩

/-! ## Closing before opening -/

namespace PositionSide

/-- A side with nothing frozen as it is reported: the volume of the day and of earlier days, or
only their total, or both, in one of the two families of fields or in both. -/
structure Reports (side : PositionSide) (today his : Int) : Prop where
  nonneg : 0 ≤ today ∧ 0 ≤ his
  posDays : (side.posToday = today ∧ side.posHis = his) ∨ (side.posToday = 0 ∧ side.posHis = 0)
  volumeDays : (side.volumeToday = today ∧ side.volumeHis = his) ∨
    (side.volumeToday = 0 ∧ side.volumeHis = 0)
  pos : side.pos = today + his ∨ side.pos = 0
  volume : side.volume = today + his ∨ side.volume = 0
  unfrozen : side.frozenToday = 0 ∧ side.frozenHis = 0 ∧ side.frozen = 0

/-- The side gives a total, and neither today's nor yesterday's volume. -/
def TotalsOnly (side : PositionSide) : Prop :=
  side.posToday = 0 ∧ side.posHis = 0 ∧ side.volumeToday = 0 ∧ side.volumeHis = 0 ∧
    (side.pos ≠ 0 ∨ side.volume ≠ 0)

instance (side : PositionSide) : Decidable side.TotalsOnly :=
  inferInstanceAs (Decidable (_ ∧ _ ∧ _ ∧ _ ∧ (_ ∨ _)))

variable {side : PositionSide} {today his : Int}

/-- A side gives its days and their sum as the total, or the total alone. -/
theorem Reports.reads (reps : side.Reports today his) :
    0 ≤ side.today ∧ 0 ≤ side.his ∧
      ((¬ side.TotalsOnly ∧ side.total = side.today + side.his) ∨
        (side.TotalsOnly ∧ side.today = 0 ∧ side.his = 0 ∧ 0 < side.total)) := by
  obtain ⟨nn, posDays, volumeDays, pos, vol, -⟩ := reps
  unfold TotalsOnly PositionSide.today PositionSide.his PositionSide.total
  grind

theorem Reports.totalCloseFrozen (reps : side.Reports today his) :
    side.totalCloseFrozen = 0 := by
  unfold PositionSide.totalCloseFrozen
  rw [reps.unfrozen.1, reps.unfrozen.2.1, reps.unfrozen.2.2]
  rfl

/-- With nothing frozen the close orders take all of the side that the change asks for, unless
the exchange keeps today's volume apart and the side does not. -/
theorem Reports.closes_eq (reps : side.Reports today his) {prio : OffsetPriority}
    (closesFirst : prio = .todayYesterdayThenOpen ∨ prio = .todayYesterdayThenOpenWait)
    (shfe : Bool) {asked : Int} (nonneg : 0 ≤ asked) :
    (side.closes shfe prio asked).1 + (side.closes shfe prio asked).2 =
      if shfe = true ∧ side.TotalsOnly then 0 else min asked side.total := by
  obtain ⟨todayNonneg, hisNonneg, total⟩ := reps.reads
  have unfrozen := reps.unfrozen
  have frozen := reps.totalCloseFrozen
  cases shfe with
  | true =>
    rcases closesFirst with rfl | rfl <;> simp only [closes, closeApart, if_true, true_and] <;>
      split <;> rename_i only <;> grind
  | false =>
    rcases closesFirst with rfl | rfl <;>
      simp only [closes, closeTogether, Bool.false_eq_true, if_false, false_and] <;> grind

end PositionSide

/-- Both sides are reported with nothing frozen; the net position is any. -/
def Position.Reported (position : Position) : Prop :=
  (∃ today his, position.long.Reports today his) ∧ ∃ today his, position.short.Reports today his

/-- An open order comes only when the close orders before it have closed what the change asks
for of the whole opposite side. -/
def OpensAfterClosing (exchangeId : String) (position : Position) (targetVolume : Int)
    (priority : OffsetPriority) : Prop :=
  let change := targetVolume - position.netPosition
  ∀ before order after,
    (computePlan exchangeId position targetVolume priority).flatten = before ++ order :: after →
    order.offset = .open_ →
    closedVolume before =
      min (change.natAbs : Int) (position.closing (changeDirection change)).total

/-- The volumes of `position_snapshot_for` at a net position. -/
def SimPosition.position (snapshot : SimPosition) : Position where
  pos := snapshot.pos
  long := { pos := max snapshot.pos 0, volume := max snapshot.pos 0 }
  short := { pos := max (-snapshot.pos) 0, volume := max (-snapshot.pos) 0 }

/-- Only the last order of a plan opens, and the orders before it are the close orders. -/
theorem split_at_open {closing : List PlannedOrder} {direction : TradeDirection} {live : Int}
    (noOpen : ∀ ord ∈ closing, ord.offset ≠ .open_) {pre post : List PlannedOrder}
    {ord : PlannedOrder} (split : closing ++ placed direction .open_ live = pre ++ ord :: post)
    (opens : ord.offset = .open_) : pre = closing ∧ live ≠ 0 := by
  rcases append_eq_append_iff.mp split with
    ⟨mid, beforeEq, tail⟩ | ⟨mid, closingEq, tail⟩
  · unfold placed at tail
    split at tail
    · simp at tail
    · rename_i nz
      cases mid with
      | nil => exact ⟨by simpa using beforeEq, nz⟩
      | cons first mid => simp at tail
  · cases mid with
    | nil =>
      refine ⟨by simpa using closingEq.symm, fun zero => ?_⟩
      simp [placed, zero] at tail
    | cons first mid =>
      obtain ⟨rfl, -⟩ := List.cons.inj tail
      exact absurd opens (noOpen ord (by simp [closingEq]))

theorem Position.Reported.closing {position : Position} (repd : position.Reported)
    (direction : TradeDirection) : ∃ today his, (position.closing direction).Reports today his :=
  match direction with
  | .buy => repd.2
  | .sell => repd.1

/-- The opposite side is closed before anything opens, unless the exchange keeps today's volume
apart and the side gives its total only; then everything opens. -/
theorem opensAfterClosing_iff (exchangeId : String) {position : Position}
    (reported : position.Reported) (targetVolume : Int) {priority : OffsetPriority}
    (closesFirst :
      priority = .todayYesterdayThenOpen ∨ priority = .todayYesterdayThenOpenWait) :
    OpensAfterClosing exchangeId position targetVolume priority ↔
      ¬ (isShfeLike exchangeId = true ∧ targetVolume ≠ position.netPosition ∧
        (position.closing
          (changeDirection (targetVolume - position.netPosition))).TotalsOnly) := by
  unfold OpensAfterClosing
  simp only [computePlan_flatten]
  have someChange : targetVolume ≠ position.netPosition ↔
      (targetVolume - position.netPosition).natAbs ≠ 0 := by omega
  rw [someChange]
  generalize changeDirection (targetVolume - position.netPosition) = direction
  generalize (targetVolume - position.netPosition).natAbs = requested
  obtain ⟨today, his, reps⟩ := reported.closing direction
  have nn : (0 : Int) ≤ requested := Int.natCast_nonneg requested
  have shut := reps.closes_eq closesFirst (isShfeLike exchangeId) nn
  have bnds :=
    (position.closing direction).closes_nonneg (isShfeLike exchangeId) requested priority nn
  have reads := reps.reads
  generalize (position.closing direction).closes (isShfeLike exchangeId) priority requested =
    closes at shut bnds ⊢
  rw [← append_assoc]
  have noOpen : ∀ ord ∈ placed direction (OffsetAction.today.offset (isShfeLike exchangeId))
      closes.1 ++ placed direction .close closes.2, ord.offset ≠ .open_ := by
    intro ord mem
    rcases mem_append.mp mem with first | second
    · rw [mem_placed direction first]
      cases isShfeLike exchangeId <;> simp [OffsetAction.offset]
    · rw [mem_placed direction second]
      simp
  have vol : closedVolume (placed direction
      (OffsetAction.today.offset (isShfeLike exchangeId)) closes.1 ++
        placed direction .close closes.2) = closes.1 + closes.2 := by
    cases isShfeLike exchangeId <;> simp [OffsetAction.offset]
  generalize placed direction (OffsetAction.today.offset (isShfeLike exchangeId)) closes.1 ++
    placed direction .close closes.2 = closing at noOpen vol ⊢
  constructor
  · rintro closesAll ⟨sep, someChange, only⟩
    rw [if_pos ⟨sep, only⟩] at shut
    have opn : placed direction .open_ (requested - closes.1 - closes.2) =
        [⟨direction, .open_, requested - closes.1 - closes.2⟩] :=
      if_neg (by omega)
    have all := closesAll closing ⟨direction, .open_, requested - closes.1 - closes.2⟩ []
      (by rw [opn]) rfl
    have held : 0 < (position.closing direction).total := by
      rcases reads.2.2 with ⟨notOnly, -⟩ | ⟨-, -, -, held⟩
      · exact absurd only notOnly
      · exact held
    omega
  · intro fine pre ord post split opens
    obtain ⟨rfl, opn⟩ := split_at_open noOpen split opens
    rw [vol, shut]
    refine if_neg fun bad => fine ⟨bad.1, ?_, bad.2⟩
    rintro zero
    omega

theorem opensAfterClosing_iff_days :
    OpensAfterClosing "SHFE" { long := { posToday := 2, posHis := 3 } } (-1)
      .todayYesterdayThenOpen :=
  (@opensAfterClosing_iff "SHFE" { long := { posToday := 2, posHis := 3 } }
    ⟨⟨2, 3, by decide, by decide, by decide, by decide, by decide, by decide⟩,
      0, 0, by decide, by decide, by decide, by decide, by decide, by decide⟩
    (-1) _ (.inl rfl)).mpr (by decide)

/-- A simulated account that is long three lots of a contract. -/
def longThreeLots : TqSim where
  accountId := "TQSIM"
  initBalance := 1000
  balance := 1000
  positions := [("SHFE.rb2610", 3)]

/-- On the way to zero three short lots are opened, and none of the long ones is closed. -/
theorem not_opensAfterClosing_longThreeLots :
    ¬ OpensAfterClosing "SHFE" (longThreeLots.positionSnapshot "SHFE.rb2610").position 0
      .todayYesterdayThenOpen := by
  intro closesAll
  have shut := closesAll [] ⟨.sell, .open_, 3⟩ [] (by decide +kernel) rfl
  revert shut
  decide +kernel

end Tqsdk
