import Mathlib

/-!
# Closing and opening towards a target

`plan.rs` of `tqsdk-task`: the orders that take the net position of one contract to a target
volume, in batches, by the offsets that an `OffsetPriority` allows.

A position holds the same nine volumes for its long and its short side, so they are one record
here; `volume_long_frozen_today` of the source is `position.long.frozenToday`.
-/

namespace Tqsdk

open List

inductive TradeDirection
  | buy | sell
  deriving DecidableEq

inductive TradeOffset
  | open_ | close | closeToday
  deriving DecidableEq

/-- The fields `pos_*_today`, `pos_*_his`, `pos_*`, `volume_*_today`, `volume_*_his`, `volume_*`
and `volume_*_frozen_today`, `volume_*_frozen_his`, `volume_*_frozen` of one side. -/
structure PositionSide where
  posToday : Int := 0
  posHis : Int := 0
  pos : Int := 0
  volumeToday : Int := 0
  volumeHis : Int := 0
  volume : Int := 0
  frozenToday : Int := 0
  frozenHis : Int := 0
  frozen : Int := 0
  deriving DecidableEq

structure Position where
  pos : Int := 0
  long : PositionSide := {}
  short : PositionSide := {}
  deriving DecidableEq

inductive OffsetPriority
  | todayYesterdayThenOpenWait | todayYesterdayThenOpen | yesterdayThenOpen | openOnly
  deriving DecidableEq

inductive OffsetAction
  | today | yesterday | open_
  deriving DecidableEq

structure PlannedOrder where
  direction : TradeDirection
  offset : TradeOffset
  volume : Int
  deriving DecidableEq

abbrev PlannedBatch := List PlannedOrder

/-! ## Reading a position -/

namespace PositionSide

variable (side : PositionSide)

/-- `long_today` and `short_today`. -/
def today : Int :=
  if side.posToday ≠ 0 ∨ side.posHis ≠ 0 then side.posToday else side.volumeToday

/-- `long_his` and `short_his`. -/
def his : Int :=
  if side.posToday ≠ 0 ∨ side.posHis ≠ 0 then side.posHis else side.volumeHis

/-- `long_total` and `short_total`. -/
def total : Int :=
  if side.posToday ≠ 0 ∨ side.posHis ≠ 0 then side.posToday + side.posHis
  else if side.pos ≠ 0 then side.pos
  else if side.volume ≠ 0 then side.volume
  else side.volumeToday + side.volumeHis

/-- One branch of `total_close_frozen`. -/
def totalCloseFrozen : Int :=
  if side.frozen ≠ 0 then side.frozen else side.frozenToday + side.frozenHis

end PositionSide

namespace Position

/-- The side an order of this direction would close. -/
def closing (position : Position) : TradeDirection → PositionSide
  | .buy => position.short
  | .sell => position.long

def netPosition (position : Position) : Int :=
  if position.pos ≠ 0 then position.pos else position.long.total - position.short.total

end Position

def TradeDirection.signedVolume (volume : Int) : TradeDirection → Int
  | .buy => volume
  | .sell => -volume

/-- `matches!(exchange_id, "SHFE" | "INE")`. -/
def isShfeLike (exchangeId : String) : Bool :=
  exchangeId == "SHFE" || exchangeId == "INE"

/-! ## The plan -/

def offsetPriorityGroups : OffsetPriority → List (List OffsetAction)
  | .todayYesterdayThenOpenWait => [[.today, .yesterday], [.open_]]
  | .todayYesterdayThenOpen => [[.today, .yesterday, .open_]]
  | .yesterdayThenOpen => [[.yesterday, .open_]]
  | .openOnly => [[.open_]]

/-- The offset of an action and the volume it can trade, for `requested` wanted volume. -/
def OffsetAction.available (action : OffsetAction) (shfeLike : Bool) (side : PositionSide)
    (requested pendingFrozen : Int) : TradeOffset × Int :=
  match action with
  | .open_ => (.open_, requested)
  | .today =>
    if shfeLike then (.closeToday, side.today - side.frozenToday)
    else (.close, side.today - pendingFrozen - side.totalCloseFrozen)
  | .yesterday =>
    if shfeLike then (.close, side.his - side.frozenHis)
    else
      let frozen := pendingFrozen + side.totalCloseFrozen
      if side.today - frozen > 0 then (.close, 0) else (.close, side.total - frozen)

def plannedOrderForAction (action : OffsetAction) (remaining pendingFrozen : Int)
    (exchangeId : String) (position : Position) : Option (PlannedOrder × Int) :=
  let direction := if remaining > 0 then TradeDirection.buy else .sell
  let requested := (remaining.natAbs : Int)
  let (offset, available) :=
    action.available (isShfeLike exchangeId) (position.closing direction) requested pendingFrozen
  let volume := min requested (max available 0)
  if volume = 0 then none
  else some (⟨direction, offset, volume⟩, if offset = .open_ then 0 else volume)

/-- The inner loop of `compute_plan`: the orders of one group and what remains after it. -/
def planGroup (exchangeId : String) (position : Position) :
    List OffsetAction → Int → Int → List PlannedOrder × Int
  | [], remaining, _ => ([], remaining)
  | action :: group, remaining, pendingFrozen =>
    if remaining = 0 then ([], remaining)
    else
      match plannedOrderForAction action remaining pendingFrozen exchangeId position with
      | none => planGroup exchangeId position group remaining pendingFrozen
      | some (order, frozenDelta) =>
        let (orders, left) :=
          planGroup exchangeId position group
            (remaining - order.direction.signedVolume order.volume)
            (pendingFrozen + frozenDelta)
        (order :: orders, left)

/-- The outer loop of `compute_plan`. -/
def planGroups (exchangeId : String) (position : Position) :
    List (List OffsetAction) → Int → List PlannedBatch
  | [], _ => []
  | group :: groups, remaining =>
    if remaining = 0 then []
    else
      let (orders, left) := planGroup exchangeId position group remaining 0
      let batches := planGroups exchangeId position groups left
      if orders.isEmpty then batches else orders :: batches

def computePlan (exchangeId : String) (position : Position) (targetVolume : Int)
    (priority : OffsetPriority) : List PlannedBatch :=
  let remaining := targetVolume - position.netPosition
  if remaining = 0 then []
  else planGroups exchangeId position (offsetPriorityGroups priority) remaining

/-! ## What a group plans -/

/-- The order for a share of the change: none when the share is empty. -/
def placed (direction : TradeDirection) (offset : TradeOffset) (volume : Int) :
    List PlannedOrder :=
  if volume = 0 then [] else [⟨direction, offset, volume⟩]

namespace OffsetAction

variable (action : OffsetAction) (shfeLike : Bool) (side : PositionSide)

def offset : TradeOffset :=
  match action with
  | .open_ => .open_
  | .today => if shfeLike then .closeToday else .close
  | .yesterday => .close

/-- What an action takes of the `requested` volume. -/
def share (requested pendingFrozen : Int) : Int :=
  min requested (max (action.available shfeLike side requested pendingFrozen).2 0)

/-- What an order of this action freezes for the actions after it. -/
def freezes (volume : Int) : Int :=
  match action with
  | .open_ => 0
  | _ => volume

variable (requested pendingFrozen : Int)

theorem available_fst :
    (action.available shfeLike side requested pendingFrozen).1 = action.offset shfeLike := by
  cases action with
  | open_ => rfl
  | today => cases shfeLike <;> rfl
  | yesterday =>
    cases shfeLike with
    | true => rfl
    | false =>
      unfold available offset
      simp only [Bool.false_eq_true, if_false]
      split <;> rfl

theorem share_nonneg {requested : Int} (nn : 0 ≤ requested) (pendingFrozen : Int) :
    0 ≤ action.share shfeLike side requested pendingFrozen := by
  unfold share
  omega

theorem share_le : action.share shfeLike side requested pendingFrozen ≤ requested := by
  unfold share
  omega

@[simp]
theorem share_open (nn : 0 ≤ requested) :
    OffsetAction.open_.share shfeLike side requested pendingFrozen = requested := by
  unfold share available
  dsimp only
  omega

theorem freezes_eq (vol : Int) :
    (if action.offset shfeLike = .open_ then 0 else vol) = action.freezes vol := by
  cases action <;> cases shfeLike <;> rfl

end OffsetAction

theorem TradeDirection.signedVolume_sub (direction : TradeDirection) (left right : Int) :
    direction.signedVolume left - direction.signedVolume right =
      direction.signedVolume (left - right) := by
  cases direction with
  | buy => rfl
  | sell =>
    simp only [TradeDirection.signedVolume]
    omega

theorem TradeDirection.signedVolume_eq_zero {direction : TradeDirection} {vol : Int} :
    direction.signedVolume vol = 0 ↔ vol = 0 := by
  cases direction with
  | buy => rfl
  | sell =>
    simp only [TradeDirection.signedVolume]
    omega

theorem plannedOrderForAction_signed (action : OffsetAction) (exchangeId : String)
    (position : Position) (direction : TradeDirection) (pendingFrozen : Int) {requested : Int}
    (pos : 0 < requested) :
    plannedOrderForAction action (direction.signedVolume requested) pendingFrozen exchangeId
        position =
      let volume :=
        action.share (isShfeLike exchangeId) (position.closing direction) requested pendingFrozen
      if volume = 0 then none
      else some (⟨direction, action.offset (isShfeLike exchangeId), volume⟩,
        action.freezes volume) := by
  have hit : (if direction.signedVolume requested > 0 then TradeDirection.buy else .sell) =
      direction := by
    cases direction <;> simp only [TradeDirection.signedVolume]
    · exact if_pos pos
    · exact if_neg (by omega)
  have magnitude : ((direction.signedVolume requested).natAbs : Int) = requested := by
    cases direction <;> simp only [TradeDirection.signedVolume] <;> omega
  unfold plannedOrderForAction
  simp only [hit, magnitude, OffsetAction.available_fst, OffsetAction.freezes_eq]
  rfl

theorem planGroup_zero (exchangeId : String) (position : Position) (grp : List OffsetAction)
    (pendingFrozen : Int) : planGroup exchangeId position grp 0 pendingFrozen = ([], 0) := by
  cases grp with
  | nil => rfl
  | cons action grp => rfl

section

variable (exchangeId : String) (position : Position) (direction : TradeDirection)

include exchangeId position direction

/-- One turn of the inner loop: the order of the action, then the rest of the group. -/
theorem planGroup_cons (action : OffsetAction) (grp : List OffsetAction) (pendingFrozen : Int)
    {requested : Int} (nn : 0 ≤ requested) :
    planGroup exchangeId position (action :: grp) (direction.signedVolume requested)
        pendingFrozen =
      let shfeLike := isShfeLike exchangeId
      let vol := action.share shfeLike (position.closing direction) requested pendingFrozen
      let rest :=
        planGroup exchangeId position grp (direction.signedVolume (requested - vol))
          (pendingFrozen + action.freezes vol)
      (placed direction (action.offset shfeLike) vol ++ rest.1, rest.2) := by
  have bdd :=
    action.share_le (isShfeLike exchangeId) (position.closing direction) requested pendingFrozen
  have cnt :=
    action.share_nonneg (isShfeLike exchangeId) (position.closing direction) nn pendingFrozen
  rcases Int.lt_or_eq_of_le nn with pos | rfl
  · rw [planGroup, if_neg (mt TradeDirection.signedVolume_eq_zero.mp (by omega)),
      plannedOrderForAction_signed action exchangeId position direction pendingFrozen pos]
    dsimp only
    by_cases emp : action.share (isShfeLike exchangeId) (position.closing direction) requested
        pendingFrozen = 0
    · have frozenNothing : action.freezes 0 = 0 := by cases action <;> rfl
      simp [emp, placed, frozenNothing]
    · simp [emp, placed, TradeDirection.signedVolume_sub]
  · have emp : action.share (isShfeLike exchangeId) (position.closing direction) 0
        pendingFrozen = 0 := by omega
    have still : direction.signedVolume 0 = 0 := TradeDirection.signedVolume_eq_zero.mpr rfl
    simp [emp, placed, still, planGroup_zero]

/-- The orders of a group share the change out: all trade in its direction, with positive
volumes, and what is left is what their volumes leave of it. -/
theorem planGroup_spec (grp : List OffsetAction) :
    ∀ (requested pendingFrozen : Int), 0 ≤ requested →
      (∀ ord ∈ (planGroup exchangeId position grp (direction.signedVolume requested)
          pendingFrozen).1, ord.direction = direction ∧ 0 < ord.volume) ∧
      ∃ left, 0 ≤ left ∧ left ≤ requested ∧
        (planGroup exchangeId position grp (direction.signedVolume requested)
          pendingFrozen).2 = direction.signedVolume left ∧
        ((planGroup exchangeId position grp (direction.signedVolume requested)
          pendingFrozen).1.map PlannedOrder.volume).sum + left = requested := by
  induction grp with
  | nil =>
    intro requested pendingFrozen nn
    exact ⟨by simp [planGroup], requested, nn, Int.le_refl _, rfl, by simp [planGroup]⟩
  | cons action grp ih =>
    intro requested pendingFrozen nn
    have bdd := action.share_le (isShfeLike exchangeId) (position.closing direction)
      requested pendingFrozen
    have cnt := action.share_nonneg (isShfeLike exchangeId) (position.closing direction)
      nn pendingFrozen
    rw [planGroup_cons exchangeId position direction action grp pendingFrozen nn]
    dsimp only
    generalize action.share (isShfeLike exchangeId) (position.closing direction) requested
      pendingFrozen = volume at bdd cnt ⊢
    obtain ⟨oriented, left, leftNonneg, leftLe, leftEq, total⟩ :=
      ih (requested - volume) (pendingFrozen + action.freezes volume) (by omega)
    refine ⟨fun ord mem => ?_, left, leftNonneg, by omega, leftEq, ?_⟩
    · rcases mem_append.mp mem with here | later
      · unfold placed at here
        split at here
        · exact absurd here not_mem_nil
        · rw [mem_singleton.mp here]
          exact ⟨rfl, by dsimp only; omega⟩
      · exact oriented ord later
    · have own : ((placed direction (action.offset (isShfeLike exchangeId)) volume).map
          PlannedOrder.volume).sum = volume := by
        unfold placed
        split
        · simp_all
        · simp
      rw [map_append, sum_append, own]
      omega

/-- Every batch of a plan trades in the direction of the change, and not more than it. -/
theorem planGroups_spec (grps : List (List OffsetAction)) :
    ∀ requested, 0 ≤ requested →
      ∀ b ∈ planGroups exchangeId position grps (direction.signedVolume requested),
        b ≠ [] ∧ (∀ ord ∈ b, ord.direction = direction ∧ 0 < ord.volume) ∧
          (b.map PlannedOrder.volume).sum ≤ requested := by
  induction grps with
  | nil => exact fun requested nn b member => absurd member not_mem_nil
  | cons grp grps ih =>
    intro requested nn b member
    obtain ⟨oriented, left, leftNonneg, leftLe, leftEq, total⟩ :=
      planGroup_spec exchangeId position direction grp requested 0 nn
    unfold planGroups at member
    split at member
    · exact absurd member not_mem_nil
    · dsimp only at member
      rw [leftEq] at member
      have post : b ∈ planGroups exchangeId position grps
          (direction.signedVolume left) → _ := ih left leftNonneg b
      split at member
      · obtain ⟨someOrder, ords, bnd⟩ := post member
        exact ⟨someOrder, ords, by omega⟩
      · rename_i someOrder
        rcases mem_cons.mp member with rfl | member
        · exact ⟨by simpa using someOrder, oriented, by omega⟩
        · obtain ⟨someOrder, ords, bnd⟩ := post member
          exact ⟨someOrder, ords, by omega⟩

end

def changeDirection (change : Int) : TradeDirection :=
  if change > 0 then .buy else .sell

theorem changeDirection_signedVolume (chg : Int) :
    chg = (changeDirection chg).signedVolume chg.natAbs := by
  unfold changeDirection
  split <;> simp only [TradeDirection.signedVolume] <;> omega

theorem computePlan_spec {exchangeId : String} {position : Position} {tgt : Int}
    {prio : OffsetPriority} {b : PlannedBatch}
    (plan : b ∈ computePlan exchangeId position tgt prio) :
    b ≠ [] ∧
      (∀ ord ∈ b, ord.direction = changeDirection (tgt - position.netPosition) ∧ 0 < ord.volume) ∧
      (b.map PlannedOrder.volume).sum ≤ (tgt - position.netPosition).natAbs := by
  unfold computePlan at plan
  dsimp only at plan
  split at plan
  · exact absurd plan not_mem_nil
  · rw [changeDirection_signedVolume (tgt - position.netPosition)] at plan
    exact planGroups_spec exchangeId position _ _ _ (by omega) b plan

end Tqsdk
