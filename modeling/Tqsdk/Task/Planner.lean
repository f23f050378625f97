import Tqsdk.F64
import Tqsdk.Task.Plan
import Tqsdk.Runtime.OrderLifecycle

/-!
# The desired batch and the live orders

`target_pos/planner.rs` with the types of `config.rs` and `target_pos/state.rs` it uses: the
first batch of the plan, cut by the split policy and priced from the quote, and its comparison
with the orders that rest on the exchange.
-/

namespace Tqsdk

open List Option

structure Quote where
  exchangeId : String := ""
  askPrice1 : F64 := .nan
  bidPrice1 : F64 := .nan
  lastPrice : F64 := .nan
  askVolume1 : Int := 0
  bidVolume1 : Int := 0
  margin : F64 := .nan
  commission : F64 := .nan
  volumeMultiple : Int := 0
  underlyingSymbol : String := ""
  deriving DecidableEq

structure Order where
  orderId : String
  direction : Option TradeDirection
  offset : Option TradeOffset
  volumeLeft : Int
  limitPrice : F64
  lifecycle : OrderLifecycle
  deriving DecidableEq

inductive PriceMode
  | active | passive | last
  deriving DecidableEq

/-- `VolumeSplitPolicy::new` refuses volumes that are not positive and a minimum above the
maximum. -/
structure VolumeSplitPolicy where
  minVolume : Int
  maxVolume : Int
  minPositive : 0 < minVolume
  minLeMax : minVolume ≤ maxVolume

def VolumeSplitPolicy.new (minVolume maxVolume : Int) : Except String VolumeSplitPolicy :=
  if positive : minVolume ≤ 0 ∨ maxVolume ≤ 0 then
    .error "split policy volumes must be positive"
  else if ordered : minVolume > maxVolume then
    .error "split policy min_volume must not exceed max_volume"
  else .ok ⟨minVolume, maxVolume, by omega, by omega⟩

structure TargetPosConfig where
  priceMode : PriceMode := .active
  offsetPriority : OffsetPriority := .todayYesterdayThenOpenWait
  splitPolicy : Option VolumeSplitPolicy := none

structure DesiredOrder where
  direction : TradeDirection
  offset : TradeOffset
  volume : Int
  limitPrice : F64
  deriving DecidableEq

abbrev DesiredBatch := List DesiredOrder

/-! ## Pricing and splitting -/

def firstFinite (primary secondary fallback : F64) : Option F64 :=
  if primary.isFinite then some primary
  else if secondary.isFinite then some secondary
  else if fallback.isFinite then some fallback else none

def resolveLimitPrice (quote : Quote) (direction : TradeDirection) (mode : PriceMode) :
    Option F64 :=
  let activePrice :=
    match direction with
    | .buy => firstFinite quote.askPrice1 quote.bidPrice1 quote.lastPrice
    | .sell => firstFinite quote.bidPrice1 quote.askPrice1 quote.lastPrice
  let passivePrice :=
    match direction with
    | .buy => firstFinite quote.bidPrice1 quote.askPrice1 quote.lastPrice
    | .sell => firstFinite quote.askPrice1 quote.bidPrice1 quote.lastPrice
  match mode with
  | .active => activePrice
  | .passive => passivePrice
  | .last => if quote.lastPrice.isFinite then some quote.lastPrice else none

def splitOrderVolume (volume : Int) (splitPolicy : Option VolumeSplitPolicy) : Int :=
  match splitPolicy with
  | none => volume
  | some policy =>
    if volume < policy.maxVolume then volume
    else
      let tail := volume - policy.maxVolume
      if tail > 0 ∧ tail < policy.minVolume then volume - policy.minVolume
      else policy.maxVolume

/-- `quote_exchange_id`: the quote's exchange, else the part of the symbol before its first
dot. -/
def quoteExchangeId (quote : Quote) (symbol : String) : String :=
  if quote.exchangeId ≠ "" then quote.exchangeId
  else if symbol.toList.contains '.' then String.ofList (symbol.toList.takeWhile (· ≠ '.'))
  else ""

/-! ## The desired batch -/

def desiredOrder (config : TargetPosConfig) (quote : Quote) (order : PlannedOrder) :
    Option DesiredOrder :=
  (resolveLimitPrice quote order.direction config.priceMode).map fun limitPrice =>
    ⟨order.direction, order.offset, splitOrderVolume order.volume config.splitPolicy, limitPrice⟩

def desiredBatchForTarget (symbol : String) (config : TargetPosConfig) (targetVolume : Int)
    (currentPosition : Position) (quote : Quote) : Option DesiredBatch :=
  let exchangeId := quoteExchangeId quote symbol
  match computePlan exchangeId currentPosition targetVolume config.offsetPriority with
  | [] => none
  | batch :: _ => batch.mapM (desiredOrder config quote)

/-! ## Reconciliation with the live orders -/

def orderCanSatisfyDesired (order : Order) (desired : DesiredOrder) : Bool :=
  order.direction == some desired.direction && order.offset == some desired.offset &&
    decide (order.volumeLeft > 0) && decide (order.volumeLeft ≤ desired.volume) &&
    order.limitPrice.eq desired.limitPrice

def orderExactlyMatchesDesired (order : Order) (desired : DesiredOrder) : Bool :=
  orderCanSatisfyDesired order desired && order.volumeLeft == desired.volume

/-- `consume_compatible_desired_order`: the orders still missing, or `none` where the source
returns `false` and leaves them as they are. -/
def consumeCompatibleDesiredOrder (missingOrders : List DesiredOrder) (order : Order) :
    Option (List DesiredOrder) :=
  let exactIndex := missingOrders.findIdx? (orderExactlyMatchesDesired order)
  let fallbackIndex :=
    exactIndex.or (missingOrders.findIdx? (orderCanSatisfyDesired order))
  match fallbackIndex with
  | none => none
  | some index =>
    match missingOrders[index]? with
    | none => none
    | some desired =>
      if order.volumeLeft = desired.volume then some (missingOrders.eraseIdx index)
      else some (missingOrders.set index
        { desired with volume := desired.volume - order.volumeLeft })

structure LiveOrderReconciliation where
  staleOrderIds : List String
  missingBatch : DesiredBatch
  deriving DecidableEq

def reconcileLiveOrders (liveOrders : List Order) (desiredBatch : DesiredBatch) :
    LiveOrderReconciliation :=
  liveOrders.foldl (fun reconciliation order =>
    match consumeCompatibleDesiredOrder reconciliation.missingBatch order with
    | some missing => { reconciliation with missingBatch := missing }
    | none =>
      { reconciliation with staleOrderIds := reconciliation.staleOrderIds ++ [order.orderId] })
    ⟨[], desiredBatch⟩

/-! ## One live order -/

/-- What is left of a desired order that a live order stands for. -/
def DesiredOrder.without (desired : DesiredOrder) (volume : Int) : List DesiredOrder :=
  if volume = desired.volume then []
  else [{ desired with volume := desired.volume - volume }]

variable {order : Order} {live : List Order} {pre after missing desired : List DesiredOrder}

/-- The orders still missing once every live order is consumed, or `none` when one is stale. -/
def settle : List Order → List DesiredOrder → Option (List DesiredOrder)
  | [], missing => some missing
  | order :: live, missing => (consumeCompatibleDesiredOrder missing order).bind (settle live)

/-- Without a stale order, the reconciliation has consumed every live order. -/
theorem settle_of_stale_nil (new : (reconcileLiveOrders live desired).staleOrderIds = []) :
    settle live desired = some (reconcileLiveOrders live desired).missingBatch := by
  unfold reconcileLiveOrders at new ⊢
  -- A stale id is never taken back, so the fold is followed from any ids found so far.
  suffices general : ∀ stale, (live.foldl _ (LiveOrderReconciliation.mk stale desired)
      : LiveOrderReconciliation).staleOrderIds = [] →
      stale = [] ∧ settle live desired = some (live.foldl _
        (LiveOrderReconciliation.mk stale desired)).missingBatch from (general [] new).2
  clear new
  induction live generalizing desired with
  | nil => exact fun stale new => ⟨new, rfl⟩
  | cons order live ih =>
    intro stale new
    rw [foldl_cons] at new ⊢
    cases used : consumeCompatibleDesiredOrder desired order with
    | none =>
      rw [used] at new
      exact absurd (ih _ new).1 (by simp)
    | some rest =>
      rw [used] at new
      rw [settle, used]
      exact ih stale new

/-! ## The orders of a desired batch -/

/-- A slice is a part of its volume, and empty only with it. -/
theorem splitOrderVolume_bounds {vol : Int} (nn : 0 ≤ vol)
    (splitPolicy : Option VolumeSplitPolicy) :
    0 ≤ splitOrderVolume vol splitPolicy ∧ splitOrderVolume vol splitPolicy ≤ vol ∧
      (splitOrderVolume vol splitPolicy = 0 ↔ vol = 0) := by
  cases splitPolicy with
  | none => exact ⟨nn, Int.le_refl _, Iff.rfl⟩
  | some pol =>
    have minPositive := pol.minPositive
    have minLeMax := pol.minLeMax
    unfold splitOrderVolume
    dsimp only
    split
    · exact ⟨nn, Int.le_refl _, Iff.rfl⟩
    · split <;> omega

end Tqsdk
