import Tqsdk.Task.Planner

/-!
# The close shares of a change

How a plan shares a change out over the volume that may be closed: an exchange that keeps today's
volume apart takes frozen volume off each kind, the others take it off today's volume and off the
total.  The groups of the planner place exactly these shares.
-/

namespace Tqsdk

open List Option

/-! ## The shares of a change -/

/-- The close volumes on an exchange that keeps today's volume apart: each is limited by what is
free of its own kind. -/
def PositionSide.closeApart (side : PositionSide) (priority : OffsetPriority)
    (requested : Int) : Int × Int :=
  let freeToday := max (side.today - side.frozenToday) 0
  let freeHis := max (side.his - side.frozenHis) 0
  match priority with
  | .todayYesterdayThenOpenWait | .todayYesterdayThenOpen =>
    (min requested freeToday, min (requested - min requested freeToday) freeHis)
  | .yesterdayThenOpen => (0, min requested freeHis)
  | .openOnly => (0, 0)

/-- The close volumes elsewhere: the frozen volume is taken off today's volume and off the
total, and yesterday's is reached only when today's is used up. -/
def PositionSide.closeTogether (side : PositionSide) (priority : OffsetPriority)
    (requested : Int) : Int × Int :=
  let freeToday := max (side.today - side.totalCloseFrozen) 0
  let freeTotal := side.total - side.totalCloseFrozen
  match priority with
  | .todayYesterdayThenOpenWait | .todayYesterdayThenOpen =>
    (min requested freeToday,
      min (requested - min requested freeToday)
        (max (freeTotal - min requested freeToday) 0))
  | .yesterdayThenOpen => (0, if freeToday > 0 then 0 else min requested (max freeTotal 0))
  | .openOnly => (0, 0)

/-- The close shares of the first batch. -/
def PositionSide.closes (side : PositionSide) (shfeLike : Bool) (priority : OffsetPriority)
    (requested : Int) : Int × Int :=
  if shfeLike then side.closeApart priority requested else side.closeTogether priority requested

section Closes

variable (side : PositionSide) (shfeLike : Bool) (requested : Int)

theorem PositionSide.closes_todayYesterday :
    let today := OffsetAction.today.share shfeLike side requested 0
    side.closes shfeLike .todayYesterdayThenOpen requested =
      (today, OffsetAction.yesterday.share shfeLike side (requested - today) (0 + today)) := by
  cases shfeLike with
  | true => rfl
  | false =>
    have todayEq : OffsetAction.today.share false side requested 0 =
        min requested (max (side.today - side.totalCloseFrozen) 0) := by
      simp [OffsetAction.share, OffsetAction.available]
    dsimp only
    rw [todayEq]
    refine Prod.ext rfl ?_
    simp only [PositionSide.closes, PositionSide.closeTogether, OffsetAction.share,
      OffsetAction.available, Bool.false_eq_true, if_false]
    -- With today's volume left, the whole change is already shared out.
    split <;> omega

theorem PositionSide.closes_yesterday (nn : 0 ≤ requested) :
    side.closes shfeLike .yesterdayThenOpen requested =
      (0, OffsetAction.yesterday.share shfeLike side requested 0) := by
  cases shfeLike with
  | true => rfl
  | false =>
    refine Prod.ext rfl ?_
    simp only [PositionSide.closes, PositionSide.closeTogether, OffsetAction.share,
      OffsetAction.available, Bool.false_eq_true, if_false]
    split <;> split <;> omega

theorem PositionSide.closes_nonneg (prio : OffsetPriority) (nn : 0 ≤ requested) :
    0 ≤ (side.closes shfeLike prio requested).1 ∧
      0 ≤ (side.closes shfeLike prio requested).2 ∧
      (side.closes shfeLike prio requested).1 +
        (side.closes shfeLike prio requested).2 ≤ requested := by
  cases shfeLike <;> cases prio <;>
    simp only [PositionSide.closes, PositionSide.closeApart, PositionSide.closeTogether,
      Bool.false_eq_true, if_false, if_true] <;>
    refine ⟨?_, ?_, ?_⟩ <;> (try split) <;> omega

end Closes

section Shares

variable (exch : String) (position : Position) (direction : TradeDirection)
variable {requested : Int}

theorem planGroup_open (nn : 0 ≤ requested) (pend : Int) :
    (planGroup exch position [.open_] (direction.signedVolume requested) pend).1 =
      placed direction .open_ requested := by
  rw [planGroup_cons exch position direction .open_ [] pend nn]
  dsimp only
  rw [OffsetAction.share_open _ _ _ _ nn]
  simp [planGroup, OffsetAction.offset]

theorem planGroup_yesterday (nn : 0 ≤ requested) (pend : Int) (grp : List OffsetAction) :
    let shfeLike := isShfeLike exch
    let vol := OffsetAction.yesterday.share shfeLike (position.closing direction) requested
      pend
    (planGroup exch position (.yesterday :: grp) (direction.signedVolume requested)
        pend).1 =
      placed direction .close vol ++
        (planGroup exch position grp (direction.signedVolume (requested - vol))
          (pend + vol)).1 := by
  rw [planGroup_cons exch position direction .yesterday grp pend nn]
  rfl

theorem planGroup_today (nn : 0 ≤ requested) (pend : Int) (grp : List OffsetAction) :
    let shfeLike := isShfeLike exch
    let vol := OffsetAction.today.share shfeLike (position.closing direction) requested
      pend
    (planGroup exch position (.today :: grp) (direction.signedVolume requested)
        pend).1 =
      placed direction (OffsetAction.today.offset shfeLike) vol ++
        (planGroup exch position grp (direction.signedVolume (requested - vol))
          (pend + vol)).1 := by
  rw [planGroup_cons exch position direction .today grp pend nn]
  rfl

theorem planGroup_todayYesterday (nn : 0 ≤ requested) (grp : List OffsetAction) :
    let shfeLike := isShfeLike exch
    let shuts := (position.closing direction).closes shfeLike .todayYesterdayThenOpen requested
    (planGroup exch position (.today :: .yesterday :: grp)
        (direction.signedVolume requested) 0).1 =
      placed direction (OffsetAction.today.offset shfeLike) shuts.1 ++
        (placed direction .close shuts.2 ++
          (planGroup exch position grp
            (direction.signedVolume (requested - shuts.1 - shuts.2))
            (shuts.1 + shuts.2)).1) := by
  have todayLe := OffsetAction.today.share_le (isShfeLike exch)
    (position.closing direction) requested 0
  dsimp only
  rw [PositionSide.closes_todayYesterday, planGroup_today exch position direction nn]
  dsimp only
  rw [planGroup_yesterday exch position direction (by omega)]
  simp only [Int.zero_add]

end Shares

end Tqsdk
