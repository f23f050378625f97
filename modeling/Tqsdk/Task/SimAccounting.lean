import Tqsdk.Task.Sim
import Mathlib.Tactic.FieldSimp
import Mathlib.Tactic.Ring
import Mathlib.Tactic.Linarith
import Mathlib.Tactic.LinearCombination

/-!
# The books of the simulated account

What every run of the simulator keeps: the balance is the initial one with the profit that was
realised and without the commission; a position is the signed sum of its trades; and at any mark
price the trades of a symbol are worth what they have realised plus what the open position,
held at its average price, would realise.
-/

namespace Tqsdk

open List OrdMap

/-! ## The profit of one fill -/

theorem profitForNet_finite (net : Int) (avgPrice price mult : ℚ) :
    profitForNet net avgPrice (.finite price) mult = (net : ℚ) * (price - avgPrice) * mult := by
  unfold profitForNet
  simp only [F64.value?]
  rcases lt_trichotomy net 0 with negative | rfl | pos
  · have vol : ((net.natAbs : ℕ) : ℚ) = -(net : ℚ) := by
      rw [← Int.cast_natCast, Int.ofNat_natAbs_of_nonpos negative.le, Int.cast_neg]
    rw [if_neg (by omega), if_neg (by omega), vol]
    ring
  · simp
  · have vol : ((net.natAbs : ℕ) : ℚ) = (net : ℚ) := by
      rw [← Int.cast_natCast, Int.natAbs_of_nonneg pos.le]
    rw [if_neg (by omega), if_pos pos, vol]
    ring

/-- The part of the old position that a fill closes, with its sign. -/
def closedPart (previous delta : Int) : Int :=
  if previous = 0 ∨ delta = 0 ∨ previous.sign = delta.sign then 0
  else previous.sign * min (previous.natAbs : Int) delta.natAbs

theorem closeProfitForDelta_eq (previous delta : Int) (avgPrice tradePrice mult : ℚ) :
    closeProfitForDelta previous delta avgPrice tradePrice mult =
      (closedPart previous delta : ℚ) * (tradePrice - avgPrice) * mult := by
  unfold closeProfitForDelta closedPart
  split
  · simp
  · exact profitForNet_finite _ _ _ _

/-- The average price of the position after a fill. -/
def nextAverage (previous delta : Int) (previousAvg tradePrice : ℚ) : ℚ :=
  if previous = 0 ∨ previous.sign = delta.sign then
    (previousAvg * previous.natAbs + tradePrice * delta.natAbs) /
      (previous.natAbs + delta.natAbs)
  else if (previous + delta).sign = previous.sign then previousAvg
  else tradePrice

theorem updateAveragePrice_get? (prices : List (String × ℚ)) (symbol alt : String)
    (previous delta : Int) (previousAvg tradePrice : ℚ) :
    get? alt (updateAveragePrice prices symbol previous delta previousAvg tradePrice) =
      if alt = symbol then
        if previous + delta = 0 then none
        else some (nextAverage previous delta previousAvg tradePrice)
      else get? alt prices := by
  unfold updateAveragePrice nextAverage
  dsimp only
  split
  · rw [get?_erase]
  split
  · rw [get?_insert]
  split
  · rw [get?_insert]
  · rw [get?_insert]

/-- The fill trades against the position. -/
def Opposed (previous delta : Int) : Prop :=
  0 < previous ∧ delta < 0 ∨ previous < 0 ∧ 0 < delta

variable {previous delta : Int}

theorem sign_ne_of_opposed (opposed : Opposed previous delta) :
    ¬(previous = 0 ∨ delta = 0 ∨ previous.sign = delta.sign) := by
  rcases opposed with ⟨long, sells⟩ | ⟨few, buys⟩
  · rw [Int.sign_eq_one_of_pos long, Int.sign_eq_neg_one_of_neg sells]
    omega
  · rw [Int.sign_eq_neg_one_of_neg few, Int.sign_eq_one_of_pos buys]
    omega

theorem sign_eq_of_not_opposed (nz : delta ≠ 0) (algn : ¬Opposed previous delta) :
    previous = 0 ∨ previous.sign = delta.sign := by
  unfold Opposed at algn
  rcases lt_trichotomy previous 0 with few | flat | long
  · right
    rw [Int.sign_eq_neg_one_of_neg few, Int.sign_eq_neg_one_of_neg (by omega)]
  · exact .inl flat
  · right
    rw [Int.sign_eq_one_of_pos long, Int.sign_eq_one_of_pos (by omega)]

theorem closedPart_opposed (opposed : Opposed previous delta) :
    closedPart previous delta = if previous.natAbs ≤ delta.natAbs then previous else -delta := by
  unfold closedPart
  rw [if_neg (sign_ne_of_opposed opposed)]
  rcases opposed with ⟨long, sells⟩ | ⟨few, buys⟩
  · rw [Int.sign_eq_one_of_pos long]
    split <;> omega
  · rw [Int.sign_eq_neg_one_of_neg few]
    split <;> omega

theorem nextAverage_opposed (opposed : Opposed previous delta) (next : previous + delta ≠ 0)
    (avg price : ℚ) :
    nextAverage previous delta avg price =
      if previous.natAbs ≤ delta.natAbs then price else avg := by
  unfold nextAverage
  have sep := sign_ne_of_opposed opposed
  rw [if_neg fun same => sep (same.imp_right Or.inr)]
  rcases opposed with ⟨long, sells⟩ | ⟨few, buys⟩
  · rw [Int.sign_eq_one_of_pos long]
    by_cases flips : previous.natAbs ≤ delta.natAbs
    · rw [if_pos flips, Int.sign_eq_neg_one_of_neg (by omega), if_neg (by omega)]
    · rw [if_neg flips, Int.sign_eq_one_of_pos (by omega), if_pos rfl]
  · rw [Int.sign_eq_neg_one_of_neg few]
    by_cases flips : previous.natAbs ≤ delta.natAbs
    · rw [if_pos flips, Int.sign_eq_one_of_pos (by omega), if_neg (by omega)]
    · rw [if_neg flips, Int.sign_eq_neg_one_of_neg (by omega), if_pos rfl]

/-- Adding to a position keeps its cost. -/
theorem nextAverage_aligned (nz : delta ≠ 0) (algn : ¬Opposed previous delta) (avg price : ℚ) :
    ((previous + delta : Int) : ℚ) * nextAverage previous delta avg price =
      (previous : ℚ) * avg + (delta : ℚ) * price := by
  have volumes : ∃ unit : ℚ, unit ≠ 0 ∧ ((previous.natAbs : ℕ) : ℚ) = unit * previous ∧
      ((delta.natAbs : ℕ) : ℚ) = unit * delta := by
    unfold Opposed at algn
    rcases Int.lt_or_gt_of_ne nz with sells | buys
    · refine ⟨-1, by norm_num, ?_, ?_⟩
      · rw [← Int.cast_natCast, Int.ofNat_natAbs_of_nonpos (by omega)]
        push_cast
        ring
      · rw [← Int.cast_natCast, Int.ofNat_natAbs_of_nonpos (by omega)]
        push_cast
        ring
    · refine ⟨1, one_ne_zero, ?_, ?_⟩
      · rw [← Int.cast_natCast, Int.natAbs_of_nonneg (by omega), one_mul]
      · rw [← Int.cast_natCast, Int.natAbs_of_nonneg (by omega), one_mul]
  obtain ⟨unit, unitNonzero, previousVolume, deltaVolume⟩ := volumes
  have next : ((previous : ℚ) + delta) ≠ 0 := by
    unfold Opposed at algn
    have := (Int.cast_ne_zero (α := ℚ)).mpr (show previous + delta ≠ 0 by omega)
    push_cast at this
    exact this
  unfold nextAverage
  rw [if_pos (sign_eq_of_not_opposed nz algn), previousVolume, deltaVolume]
  push_cast
  field_simp

/-- At any mark price, a fill moves as much into the realised profit and the position as the
trade itself is worth. -/
theorem nextAverage_conserves (previous delta : Int) (nz : delta ≠ 0) (avg price mark : ℚ) :
    (closedPart previous delta : ℚ) * (price - avg) +
        ((previous + delta : Int) : ℚ) *
          (mark - (if previous + delta = 0 then 0 else nextAverage previous delta avg price)) =
      (previous : ℚ) * (mark - avg) + (delta : ℚ) * (mark - price) := by
  by_cases opposed : Opposed previous delta
  · rw [closedPart_opposed opposed]
    by_cases flat : previous + delta = 0
    · have same : delta = -previous := by omega
      subst same
      rw [if_pos (by omega)]
      push_cast
      ring
    · rw [if_neg flat, nextAverage_opposed opposed flat]
      split
      · push_cast
        ring
      · push_cast
        ring
  · have closesNothing : closedPart previous delta = 0 := by
      unfold closedPart
      rw [if_pos]
      rcases sign_eq_of_not_opposed nz opposed with zero | same
      · exact .inl zero
      · exact .inr (.inr same)
    have next : previous + delta ≠ 0 := by
      unfold Opposed at opposed
      omega
    have cost := nextAverage_aligned nz opposed avg price
    rw [closesNothing, if_neg next, mul_sub ((previous + delta : Int) : ℚ), cost]
    push_cast
    ring

/-! ## The books -/

namespace TqSim

def tradesOf (sim : TqSim) (symbol : String) : List SimTrade :=
  (sim.trades.map Prod.snd).filter fun trade => trade.symbol = symbol

def averagePrice (sim : TqSim) (symbol : String) : ℚ :=
  (get? symbol sim.avgPriceBySymbol).getD 0

def closeProfitOf (sim : TqSim) (symbol : String) : ℚ :=
  (get? symbol sim.closeProfitBySymbol).getD 0

end TqSim

def SimTrade.signedVolume (trade : SimTrade) : Int :=
  signedPositionDelta trade.direction trade.offset trade.volume

/-- The position that a trade of the books met, from the trades that were made before it. -/
def TqSim.positionBefore (sim : TqSim) (trade : SimTrade) : Int :=
  (((sim.tradesOf trade.symbol).filter fun other => other.seqno < trade.seqno).map
    SimTrade.signedVolume).sum

/-- A fill makes the position no larger and leaves it on its side. -/
def Reduces (previous delta : Int) : Prop :=
  (previous + delta).natAbs ≤ previous.natAbs ∧
    (previous + delta = 0 ∨ (previous + delta).sign = previous.sign)

/-- What a trade is worth at a mark price. -/
def SimTrade.worth (trade : SimTrade) (mark multiplier : ℚ) : ℚ :=
  (trade.signedVolume : ℚ) * (mark - trade.price) * multiplier

/-- The books of the account are in order. -/
structure TqSim.Accounts (sim : TqSim) : Prop where
  balance : sim.balance = sim.initBalance + sim.closeProfit - sim.commission
  realised : sim.closeProfit = (sim.closeProfitBySymbol.map Prod.snd).sum
  position : ∀ symbol,
    sim.net symbol = ((sim.tradesOf symbol).map SimTrade.signedVolume).sum
  conserved : ∀ symbol mark,
    ((sim.tradesOf symbol).map fun trade =>
        trade.worth mark (sim.contractMultiplierFor symbol)).sum =
      sim.closeProfitOf symbol + (sim.net symbol : ℚ) * (mark - sim.averagePrice symbol) *
        sim.contractMultiplierFor symbol
  sorted : OrdMap.Sorted sim.positions
  counted : sim.nonzeroPositionCount = sim.positions.countP fun entry => decide (entry.2 ≠ 0)
  closes : ∀ symbol, ∀ trade ∈ sim.tradesOf symbol, trade.offset ≠ .open_ →
    Reduces (sim.positionBefore trade) trade.signedVolume

/-- What the simulator relies on besides. -/
structure TqSim.Sound (sim : TqSim) : Prop extends sim.Accounts where
  averaged : ∀ symbol, sim.net symbol ≠ 0 →
    (get? symbol sim.avgPriceBySymbol).isSome = true
  numbered : ∀ entry ∈ sim.trades, ∃ tradeSeq < sim.nextTradeSeq, entry.1 = TqSim.tradeId tradeSeq
  earlier : ∀ symbol, ∀ trade ∈ sim.tradesOf symbol, trade.seqno < sim.nextSeq
  positive : ∀ entry ∈ sim.orders, 0 < entry.2.request.volume

namespace TqSim

theorem countP_eq_sum {α : Type} (p : α → Bool) (ents : List α) :
    ents.countP p = (ents.map fun ent => if p ent then 1 else 0).sum := by
  induction ents with
  | nil => rfl
  | cons ent ents ih => rw [countP_cons, map_cons, sum_cons, ih, Nat.add_comm]

/-- Storing a position keeps the count of the symbols that have one. -/
theorem updateNonzeroPositionCount_countP {posns : List (String × Int)} {symbol : String}
    {next : Int} {n : Nat} (cnt : n = posns.countP fun ent => decide (ent.2 ≠ 0)) :
    updateNonzeroPositionCount n ((get? symbol posns).getD 0) next =
      (OrdMap.insert symbol next posns).countP fun ent => decide (ent.2 ≠ 0) := by
  have total := sum_insert
    (fun ent : String × Int => if decide (ent.2 ≠ 0) then 1 else 0) symbol next posns
  rw [← countP_eq_sum fun ent : String × Int => decide (ent.2 ≠ 0),
    ← countP_eq_sum fun ent : String × Int => decide (ent.2 ≠ 0), ← cnt] at total
  unfold updateNonzeroPositionCount
  cases got : get? symbol posns with
  | none =>
    rw [got] at total
    by_cases zero : next = 0
    · simp [zero] at total ⊢
      omega
    · simp [zero] at total ⊢
      omega
  | some old =>
    rw [got] at total
    by_cases wasZero : old = 0
    · by_cases zero : next = 0
      · simp [zero, wasZero] at total ⊢
        omega
      · simp [zero, wasZero] at total ⊢
        omega
    · by_cases zero : next = 0
      · simp [zero, wasZero] at total ⊢
        omega
      · simp [zero, wasZero] at total ⊢
        omega

/-! ## A fill keeps the books -/

section Fill

variable (sim : TqSim) (order : SimOrder) (price : ℚ)

theorem fillOrder_net (symbol : String) :
    (sim.fillOrder order price).1.net symbol =
      if symbol = order.request.symbol then
        sim.net symbol + signedPositionDelta order.request.direction order.request.offset
          order.request.volume
      else sim.net symbol := by
  change (get? symbol (OrdMap.insert order.request.symbol _ sim.positions)).getD 0 = _
  rw [get?_insert]
  split
  · rename_i same
    rw [same]
    rfl
  · rfl

/-- The profit that a fill realises. -/
def realises : ℚ :=
  (closedPart (sim.net order.request.symbol)
      (signedPositionDelta order.request.direction order.request.offset order.request.volume) : ℚ) *
    (price - (get? order.request.symbol sim.avgPriceBySymbol).getD price) *
    sim.contractMultiplierFor order.request.symbol

theorem fillOrder_closeProfit :
    (sim.fillOrder order price).1.closeProfit = sim.closeProfit + sim.realises order price :=
  congrArg _ (closeProfitForDelta_eq _ _ _ _ _)

theorem fillOrder_closeProfitBySymbol :
    (sim.fillOrder order price).1.closeProfitBySymbol =
      OrdMap.insert order.request.symbol
        (sim.closeProfitOf order.request.symbol + sim.realises order price)
        sim.closeProfitBySymbol :=
  congrArg (fun profit => OrdMap.insert order.request.symbol
    (sim.closeProfitOf order.request.symbol + profit) sim.closeProfitBySymbol)
    (closeProfitForDelta_eq _ _ _ _ _)

/-- The trade of a fill. -/
def tradeOf : SimTrade :=
  sim.trade order.request (sim.nextSeq + 1) sim.nextTradeSeq price
    (sim.commissionFor order.request.symbol * (order.request.volume : ℚ))

theorem fillOrder_trades :
    (sim.fillOrder order price).1.trades =
      OrdMap.insert (tradeId sim.nextTradeSeq) (sim.tradeOf order price) sim.trades := rfl

theorem fresh_of_numbered {sim : TqSim}
    (nums : ∀ ent ∈ sim.trades, ∃ tradeSeq < sim.nextTradeSeq, ent.1 = tradeId tradeSeq) :
    get? (tradeId sim.nextTradeSeq) sim.trades = none := by
  by_contra taken
  obtain ⟨td, got⟩ := Option.ne_none_iff_exists'.mp taken
  obtain ⟨tradeSeq, bnd, nm⟩ := nums _ (mem_of_get? got)
  have same := Numbered.name_injective nm
  omega

theorem fillOrder_tradesOf {sim : TqSim} (sound : sim.Sound) (symbol : String) :
    ((sim.fillOrder order price).1.tradesOf symbol).Perm
      (if symbol = order.request.symbol then sim.tradeOf order price :: sim.tradesOf symbol
        else sim.tradesOf symbol) := by
  have perm := ((insert_perm (v := sim.tradeOf order price) (fresh_of_numbered sound.numbered)).map
    Prod.snd).filter fun td => td.symbol = symbol
  have own : (sim.tradeOf order price).symbol = order.request.symbol := rfl
  unfold tradesOf
  rw [fillOrder_trades]
  refine perm.trans (List.Perm.of_eq ?_)
  rw [map_cons, filter_cons]
  by_cases same : symbol = order.request.symbol
  · simp [same, own]
  · simp [same, own, Ne.symm same]

theorem fillOrder_average (symbol : String) :
    get? symbol (sim.fillOrder order price).1.avgPriceBySymbol =
      if symbol = order.request.symbol then
        if (sim.fillOrder order price).1.net order.request.symbol = 0 then none
        else some (nextAverage (sim.net order.request.symbol)
          (signedPositionDelta order.request.direction order.request.offset order.request.volume)
          ((get? order.request.symbol sim.avgPriceBySymbol).getD price) price)
      else get? symbol sim.avgPriceBySymbol := by
  rw [fillOrder_net, if_pos rfl]
  exact updateAveragePrice_get? _ _ _ _ _ _ _

theorem signedPositionDelta_ne_zero {dir : TradeDirection} {off : TradeOffset}
    {vol : Int} (pos : 0 < vol) : signedPositionDelta dir off vol ≠ 0 := by
  unfold signedPositionDelta
  cases dir with
  | buy =>
    dsimp only
    omega
  | sell =>
    dsimp only
    omega

section

variable {sim : TqSim} (sound : sim.Sound)

include sound

theorem Sound.fillOrder_position (symbol : String) :
    (sim.fillOrder order price).1.net symbol =
      (((sim.fillOrder order price).1.tradesOf symbol).map SimTrade.signedVolume).sum := by
  rw [fillOrder_net, ((fillOrder_tradesOf order price sound symbol).map _).sum_eq]
  split
  · rename_i same
    rw [map_cons, sum_cons, ← sound.position, Int.add_comm]
    rfl
  · exact sound.position symbol

theorem Sound.fillOrder_conserved (pos : 0 < order.request.volume) (symbol : String) (mark : ℚ) :
    (((sim.fillOrder order price).1.tradesOf symbol).map fun td =>
        td.worth mark (sim.contractMultiplierFor symbol)).sum =
      (sim.fillOrder order price).1.closeProfitOf symbol +
        ((sim.fillOrder order price).1.net symbol : ℚ) *
          (mark - (sim.fillOrder order price).1.averagePrice symbol) *
          sim.contractMultiplierFor symbol := by
  rw [((fillOrder_tradesOf order price sound symbol).map _).sum_eq]
  have pre := sound.conserved symbol mark
  unfold closeProfitOf averagePrice at pre ⊢
  rw [fillOrder_closeProfitBySymbol, get?_insert, fillOrder_average]
  by_cases same : symbol = order.request.symbol
  · subst same
    have move := nextAverage_conserves (sim.net order.request.symbol)
      (signedPositionDelta order.request.direction order.request.offset order.request.volume)
      (signedPositionDelta_ne_zero pos)
      ((get? order.request.symbol sim.avgPriceBySymbol).getD price) price mark
    -- The price that stands in for a missing average is never used: there is no position then.
    have held : (sim.net order.request.symbol : ℚ) *
        (mark - (get? order.request.symbol sim.avgPriceBySymbol).getD 0) =
        (sim.net order.request.symbol : ℚ) *
          (mark - (get? order.request.symbol sim.avgPriceBySymbol).getD price) := by
      by_cases flat : sim.net order.request.symbol = 0
      · rw [flat]
        simp
      · obtain ⟨average, got⟩ := Option.isSome_iff_exists.mp (sound.averaged _ flat)
        rw [got]
        rfl
    have worth : (sim.tradeOf order price).worth mark
        (sim.contractMultiplierFor order.request.symbol) =
        (signedPositionDelta order.request.direction order.request.offset
          order.request.volume : ℚ) * (mark - price) *
          sim.contractMultiplierFor order.request.symbol := rfl
    simp only [if_true, map_cons, sum_cons, pre, worth, fillOrder_net, realises,
      closeProfitOf, Option.getD_some]
    have average : ∀ val : ℚ, (if sim.net order.request.symbol +
        signedPositionDelta order.request.direction order.request.offset order.request.volume = 0
        then none else some val).getD 0 = if sim.net order.request.symbol +
        signedPositionDelta order.request.direction order.request.offset order.request.volume = 0
        then 0 else val := by
      intro val
      split <;> rfl
    rw [held, average]
    linear_combination -(sim.contractMultiplierFor order.request.symbol) * move
  · rw [if_neg same, if_neg same, if_neg same, fillOrder_net, if_neg same]
    exact pre

theorem Sound.fillOrder_positionBefore {td : SimTrade} (old : td.seqno < sim.nextSeq) :
    (sim.fillOrder order price).1.positionBefore td = sim.positionBefore td := by
  have perm := (fillOrder_tradesOf order price sound td.symbol).filter
    fun alt => alt.seqno < td.seqno
  unfold positionBefore
  rw [(perm.map _).sum_eq]
  split
  · have post : ¬(sim.tradeOf order price).seqno < td.seqno := by
      change ¬(sim.nextSeq + 1 < td.seqno)
      omega
    rw [filter_cons_of_neg (by simpa using post)]
  · rfl

theorem Sound.fillOrder_tradeOf_positionBefore :
    (sim.fillOrder order price).1.positionBefore (sim.tradeOf order price) =
      sim.net order.request.symbol := by
  have perm := (fillOrder_tradesOf order price sound order.request.symbol).filter
    fun alt => alt.seqno < (sim.tradeOf order price).seqno
  rw [if_pos rfl, filter_cons_of_neg (by simp)] at perm
  have all : (sim.tradesOf order.request.symbol).filter
      (fun alt => alt.seqno < (sim.tradeOf order price).seqno) =
      sim.tradesOf order.request.symbol := by
    refine filter_eq_self.mpr fun alt mem => ?_
    have bnd := sound.earlier _ alt mem
    have num : (sim.tradeOf order price).seqno = sim.nextSeq + 1 := rfl
    simp only [num, decide_eq_true_eq]
    omega
  rw [all] at perm
  rw [sound.position]
  exact (perm.map _).sum_eq

end

/-- An order that closes is let through only against a position that it does not exceed. -/
theorem reduces_of_allowed {sim : TqSim} (pos : 0 < order.request.volume)
    (shuts : order.request.offset ≠ .open_) (may : sim.pretradeRejection order.request = none) :
    Reduces (sim.net order.request.symbol)
      (signedPositionDelta order.request.direction order.request.offset order.request.volume) := by
  unfold pretradeRejection at may
  rw [if_neg shuts] at may
  dsimp only at may
  generalize sim.net order.request.symbol = cur at may ⊢
  unfold signedPositionDelta Reduces
  cases dir : order.request.direction with
  | sell =>
    rw [dir] at may
    have cov : ¬cur < order.request.volume := fun few => by
      rw [if_pos few] at may
      cases may
    dsimp only
    refine ⟨by omega, ?_⟩
    by_cases flat : cur + -order.request.volume = 0
    · exact .inl flat
    · rw [Int.sign_eq_one_of_pos (by omega), Int.sign_eq_one_of_pos (by omega)]
      exact .inr rfl
  | buy =>
    rw [dir] at may
    have cov : ¬-cur < order.request.volume := fun long => by
      rw [if_pos long] at may
      cases may
    dsimp only
    refine ⟨by omega, ?_⟩
    by_cases flat : cur + order.request.volume = 0
    · exact .inl flat
    · rw [Int.sign_eq_neg_one_of_neg (by omega), Int.sign_eq_neg_one_of_neg (by omega)]
      exact .inr rfl

/-- A trade after a fill is the new one or was there before. -/
theorem Sound.mem_fillOrder_tradesOf {sim : TqSim} (sound : sim.Sound) {symbol : String}
    {td : SimTrade} (mem : td ∈ (sim.fillOrder order price).1.tradesOf symbol) :
    td = sim.tradeOf order price ∨ td ∈ sim.tradesOf symbol := by
  have seen := (fillOrder_tradesOf order price sound symbol).mem_iff.mp mem
  split at seen
  · exact mem_cons.mp seen
  · exact .inr seen

section

variable {sim : TqSim} (sound : sim.Sound) (pos : 0 < order.request.volume)
  (may : sim.pretradeRejection order.request = none)

include sound pos may

theorem Sound.fillOrder_closes (symbol : String) (td : SimTrade)
    (mem : td ∈ (sim.fillOrder order price).1.tradesOf symbol) (shuts : td.offset ≠ .open_) :
    Reduces ((sim.fillOrder order price).1.positionBefore td) td.signedVolume := by
  rcases sound.mem_fillOrder_tradesOf order price mem with rfl | old
  · rw [sound.fillOrder_tradeOf_positionBefore]
    exact reduces_of_allowed order pos shuts may
  · rw [sound.fillOrder_positionBefore order price (sound.earlier symbol td old)]
    exact sound.closes symbol td old shuts

theorem Sound.fillOrder :
    (sim.fillOrder order price).1.Sound where
  balance := by
    have pre := sound.balance
    have profit := sim.fillOrder_closeProfit order price
    have paid : (sim.fillOrder order price).1.commission = sim.commission +
        sim.commissionFor order.request.symbol * (order.request.volume : ℚ) := rfl
    have done : (sim.fillOrder order price).1.balance = sim.balance -
        sim.commissionFor order.request.symbol * (order.request.volume : ℚ) +
        sim.realises order price := congrArg _ (closeProfitForDelta_eq _ _ _ _ _)
    have initial : (sim.fillOrder order price).1.initBalance = sim.initBalance := rfl
    rw [profit, paid, done, initial, pre]
    ring
  realised := by
    have total := sum_insert Prod.snd order.request.symbol
      (sim.closeProfitOf order.request.symbol + sim.realises order price) sim.closeProfitBySymbol
    have old : ((get? order.request.symbol sim.closeProfitBySymbol).map fun old =>
        (Prod.snd (order.request.symbol, old) : ℚ)).getD 0 =
        sim.closeProfitOf order.request.symbol := by
      unfold closeProfitOf
      cases get? order.request.symbol sim.closeProfitBySymbol with
      | none => rfl
      | some old => rfl
    rw [old, ← sound.realised] at total
    rw [fillOrder_closeProfit, fillOrder_closeProfitBySymbol]
    linarith
  position := sound.fillOrder_position order price
  conserved := sound.fillOrder_conserved order price pos
  sorted := sound.sorted.insert _ _
  counted := updateNonzeroPositionCount_countP sound.counted
  closes := sound.fillOrder_closes order price pos may
  averaged := by
    intro symbol held
    rw [fillOrder_average]
    by_cases same : symbol = order.request.symbol
    · subst same
      rw [if_pos rfl, if_neg held]
      rfl
    · rw [fillOrder_net, if_neg same] at held
      rw [if_neg same]
      exact sound.averaged symbol held
  numbered := by
    intro ent mem
    rcases mem_insert mem with rfl | old
    · exact ⟨sim.nextTradeSeq, Nat.lt_succ_self _, rfl⟩
    · obtain ⟨tradeSeq, bnd, nm⟩ := sound.numbered ent old
      exact ⟨tradeSeq, Nat.lt_succ_of_lt bnd, nm⟩
  earlier := by
    intro symbol td mem
    have next : (sim.fillOrder order price).1.nextSeq = sim.nextSeq + 2 := rfl
    rw [next]
    rcases sound.mem_fillOrder_tradesOf order price mem with rfl | old
    · exact Nat.lt_succ_self _
    · have bnd := sound.earlier symbol td old
      omega
  positive := by
    intro ent mem
    rcases mem_insert mem with rfl | old
    · exact pos
    · exact sound.positive ent old

end

end Fill

/-! ## Orders -/

section Orders

variable {sim : TqSim} (order : SimOrder)

theorem Sound.storeOrder (sound : sim.Sound) (pos : 0 < order.request.volume)
    (life : OrderLifecycle) (lastMsg : String) (stat : Option CommandStatus) :
    (sim.storeOrder order life lastMsg stat).1.Sound where
  balance := sound.balance
  realised := sound.realised
  position := sound.position
  conserved := sound.conserved
  sorted := sound.sorted
  counted := sound.counted
  closes := sound.closes
  averaged := sound.averaged
  numbered := sound.numbered
  earlier := by
    intro symbol td mem
    exact Nat.lt_succ_of_lt (sound.earlier symbol td mem)
  positive := by
    intro ent mem
    rcases mem_insert mem with rfl | old
    · exact pos
    · exact sound.positive ent old

variable {sim' : TqSim} {out : SimOrderOutcome}

/-- Applying an order stores it, with a fill or without one. -/
theorem applyOrder_cases [PositionSums] (app : sim.applyOrder order = .ok (sim', out)) :
    (∃ life lastMsg stat,
        (sim.matchDecision order.request = .fill → life ≠ .accepted) ∧
          (life = .accepted ∧ stat = none ∨ ∃ fin, stat = some fin ∧ fin.isTerminal = true) ∧
          (sim', out) = sim.storeOrder order life lastMsg stat) ∨
      (sim.pretradeRejection order.request = none ∧ sim.matchDecision order.request = .fill ∧
        ∃ price, sim.tradePrice order.request = .ok price ∧
          (sim', out) = sim.fillOrder order price) := by
  unfold applyOrder at app
  dsimp only at app
  cases rejection : sim.pretradeRejection order.request with
  | some why =>
    rw [rejection] at app
    exact .inl ⟨_, _, _, fun _ => by decide, .inr ⟨_, rfl, rfl⟩, (Except.ok.inj app).symm⟩
  | none =>
    rw [rejection] at app
    dsimp only at app
    split at app
    · rename_i decision
      cases priced : sim.tradePrice order.request with
      | error error =>
        rw [priced] at app
        cases app
      | ok price =>
        rw [priced] at app
        exact .inr ⟨rfl, decision, price, rfl, (Except.ok.inj app).symm⟩
    · rename_i decision
      refine .inl ⟨_, _, _, fun fills => ?_, .inl ⟨rfl, rfl⟩, (Except.ok.inj app).symm⟩
      rw [decision] at fills
      cases fills
    · exact .inl ⟨_, _, _, fun _ => by decide, .inr ⟨_, rfl, rfl⟩,
        (Except.ok.inj app).symm⟩

theorem Sound.applyOrder (sound : sim.Sound) (pos : 0 < order.request.volume)
    (app : sim.applyOrder order = .ok (sim', out)) : sim'.Sound := by
  rcases applyOrder_cases order app with
    ⟨lifecycle, lastMsg, status, -, -, stored⟩ | ⟨may, -, price, -, filled⟩
  · obtain rfl := congrArg Prod.fst stored
    exact sound.storeOrder order pos lifecycle lastMsg status
  · obtain rfl := congrArg Prod.fst filled
    exact sound.fillOrder order price pos may

/-- What is not the state of orders, positions and accounts stays. -/
theorem applyOrder_keeps [PositionSums] (app : sim.applyOrder order = .ok (sim', out)) :
    sim'.quotes = sim.quotes ∧
      sim'.contractMultiplierBySymbol = sim.contractMultiplierBySymbol := by
  rcases applyOrder_cases order app with
    ⟨lifecycle, lastMsg, status, -, -, stored⟩ | ⟨-, -, price, -, filled⟩
  · obtain rfl := congrArg Prod.fst stored
    exact ⟨rfl, rfl⟩
  · obtain rfl := congrArg Prod.fst filled
    exact ⟨rfl, rfl⟩

/-- What every applied order keeps is kept by the loop over the pending ones. -/
theorem matchPending_invariant [PositionSums] (hold : TqSim → Prop) {pend : List SimOrder}
    (step : ∀ order ∈ pend, ∀ {sim sim' : TqSim} {out : SimOrderOutcome}, hold sim →
      sim.matchDecision order.request = .fill → sim.applyOrder order = .ok (sim', out) →
      hold sim') (pre : hold sim) :
    hold (matchPending pend sim).1 := by
  induction pend generalizing sim with
  | nil => exact pre
  | cons order pend ih =>
    have post : ∀ {sim : TqSim}, hold sim → hold (matchPending pend sim).1 :=
      ih fun order mem => step order (mem_cons_of_mem _ mem)
    unfold TqSim.matchPending
    split
    · rename_i fills
      cases app : sim.applyOrder order with
      | error error => exact post pre
      | ok res =>
        obtain ⟨sim', out⟩ := res
        exact post (step order mem_cons_self pre fills app)
    · exact post pre

end Orders

/-! ## Quotes -/

/-- The books and the orders are the same; what is known of the market may differ. -/
structure SameBooks (sim sim' : TqSim) : Prop where
  initBalance : sim'.initBalance = sim.initBalance
  balance : sim'.balance = sim.balance
  commission : sim'.commission = sim.commission
  closeProfit : sim'.closeProfit = sim.closeProfit
  closeProfitBySymbol : sim'.closeProfitBySymbol = sim.closeProfitBySymbol
  orders : sim'.orders = sim.orders
  positions : sim'.positions = sim.positions
  nonzeroPositionCount : sim'.nonzeroPositionCount = sim.nonzeroPositionCount
  avgPriceBySymbol : sim'.avgPriceBySymbol = sim.avgPriceBySymbol
  trades : sim'.trades = sim.trades
  nextTradeSeq : sim'.nextTradeSeq = sim.nextTradeSeq
  nextSeq : sim'.nextSeq = sim.nextSeq

/-- The multiplier of a symbol that has been traded is kept. -/
def MultiplierKept (sim sim' : TqSim) : Prop :=
  ∀ symbol, sim.tradesOf symbol ≠ [] →
    sim'.contractMultiplierFor symbol = sim.contractMultiplierFor symbol

variable {sim' : TqSim} {visit : List SimOrder → List SimOrder}

theorem Sound.of_sameBooks {sim : TqSim} (sound : sim.Sound) (same : SameBooks sim sim')
    (kept : MultiplierKept sim sim') : sim'.Sound := by
  have net : ∀ symbol, sim'.net symbol = sim.net symbol := fun symbol => by
    unfold TqSim.net
    rw [same.positions]
  have tds : ∀ symbol, sim'.tradesOf symbol = sim.tradesOf symbol := fun symbol => by
    unfold tradesOf
    rw [same.trades]
  have average : ∀ symbol, sim'.averagePrice symbol = sim.averagePrice symbol := fun symbol => by
    unfold averagePrice
    rw [same.avgPriceBySymbol]
  have profit : ∀ symbol, sim'.closeProfitOf symbol = sim.closeProfitOf symbol :=
    fun symbol => by
      unfold closeProfitOf
      rw [same.closeProfitBySymbol]
  refine ⟨⟨?_, ?_, ?_, ?_, ?_, ?_, ?_⟩, ?_, ?_, ?_, ?_⟩
  · rw [same.balance, same.initBalance, same.closeProfit, same.commission]
    exact sound.balance
  · rw [same.closeProfit, same.closeProfitBySymbol]
    exact sound.realised
  · intro symbol
    rw [net, tds]
    exact sound.position symbol
  · intro symbol mark
    have pre := sound.conserved symbol mark
    rw [net, tds, average, profit]
    by_cases traded : sim.tradesOf symbol = []
    · -- Without a trade there is no profit and no position, whatever the multiplier.
      have flat := sound.position symbol
      rw [traded, map_nil, sum_nil] at flat pre
      rw [traded, map_nil, sum_nil]
      rw [flat] at pre ⊢
      simpa using pre
    · rw [kept symbol traded]
      exact pre
  · rw [same.positions]
    exact sound.sorted
  · rw [same.nonzeroPositionCount, same.positions]
    exact sound.counted
  · intro symbol td mem shuts
    unfold positionBefore
    rw [tds] at mem ⊢
    exact sound.closes symbol td mem shuts
  · intro symbol held
    rw [net] at held
    rw [same.avgPriceBySymbol]
    exact sound.averaged symbol held
  · intro ent mem
    rw [same.trades] at mem
    rw [same.nextTradeSeq]
    exact sound.numbered ent mem
  · intro symbol td mem
    rw [tds] at mem
    rw [same.nextSeq]
    exact sound.earlier symbol td mem
  · intro ent mem
    rw [same.orders] at mem
    exact sound.positive ent mem

variable (sim : TqSim)

theorem SameBooks.refl : SameBooks sim sim :=
  ⟨rfl, rfl, rfl, rfl, rfl, rfl, rfl, rfl, rfl, rfl, rfl, rfl⟩

theorem SameBooks.recordQuote {sim : TqSim} (same : SameBooks sim sim') (symbol : String)
    (q : Quote) : SameBooks sim (sim'.recordQuote symbol q) :=
  ⟨same.1, same.2, same.3, same.4, same.5, same.6, same.7, same.8, same.9, same.10, same.11,
    same.12⟩

theorem SameBooks.aliased (symbol : String) (q : Quote) :
    SameBooks sim (sim.updateExecutionSymbolAliasFromQuote symbol q).1 := by
  unfold updateExecutionSymbolAliasFromQuote
  dsimp only
  split
  · exact .refl sim
  split
  · exact ⟨rfl, rfl, rfl, rfl, rfl, rfl, rfl, rfl, rfl, rfl, rfl, rfl⟩
  · exact ⟨rfl, rfl, rfl, rfl, rfl, rfl, rfl, rfl, rfl, rfl, rfl, rfl⟩

theorem quoted_sameBooks (symbol : String) (q : Quote) :
    SameBooks sim (sim.quoted symbol q).1 := by
  have aliased := SameBooks.aliased sim symbol q
  unfold quoted
  generalize sim.updateExecutionSymbolAliasFromQuote symbol q = res at aliased ⊢
  obtain ⟨sim', exec⟩ := res
  cases exec with
  | none => exact aliased.recordQuote symbol q
  | some exec => exact (aliased.recordQuote symbol q).recordQuote exec q

/-- The orders of the quoted symbol, then those of its execution symbol. -/
def matched [PositionSums] (visit : List SimOrder → List SimOrder) (symbol : String)
    (executionSymbol : Option String) (sim : TqSim) : TqSim :=
  let sim := (sim.matchPendingForSymbol visit symbol).1
  match executionSymbol with
  | none => sim
  | some executionSymbol => (sim.matchPendingForSymbol visit executionSymbol).1

theorem settleQuote_fst [PositionSums] (visit : List SimOrder → List SimOrder) (symbol : String)
    (exec : Option String) :
    (sim.settleQuote visit symbol exec).1 =
      if sim.orders.isEmpty && sim.nonzeroPositionCount == 0 then sim
      else if sim.orders.isEmpty && !sim.hasNonzeroPosition symbol &&
          exec.all fun executed => !sim.hasNonzeroPosition executed then sim
      else sim.matched visit symbol exec := by
  unfold settleQuote matched
  split
  · rfl
  split
  · rfl
  · dsimp only
    cases exec <;> dsimp only <;> split <;> rfl

theorem settleQuote_cases (visit : List SimOrder → List SimOrder) (symbol : String)
    (exec : Option String) :
    (sim.settleQuote visit symbol exec).1 = sim ∨
      (sim.settleQuote visit symbol exec).1 = sim.matched visit symbol exec := by
  rw [settleQuote_fst]
  split_ifs
  · exact .inl rfl
  · exact .inl rfl
  · exact .inr rfl

section

variable {sim : TqSim} (sound : sim.Sound) (visits : ∀ pending, (visit pending).Perm pending)
  (symbol : String)

include sound visits symbol

theorem Sound.matchPendingForSymbol :
    (sim.matchPendingForSymbol visit symbol).1.Sound := by
  refine matchPending_invariant TqSim.Sound (fun order mem _ _ _ pre _ app => ?_) sound
  have pend := (visits _).mem_iff.mp mem
  obtain ⟨ent, got, rfl⟩ := mem_map.mp (mem_of_mem_filter pend)
  exact pre.applyOrder ent.2 (sound.positive ent got) app

theorem Sound.matched (exec : Option String) :
    (sim.matched visit symbol exec).Sound := by
  have hd := sound.matchPendingForSymbol visits symbol
  unfold TqSim.matched
  cases exec with
  | none => exact hd
  | some exec => exact hd.matchPendingForSymbol visits exec

end

variable (sim : TqSim)

theorem matched_multiplier (visit : List SimOrder → List SimOrder) (symbol : String)
    (exec : Option String) :
    (sim.matched visit symbol exec).contractMultiplierBySymbol =
      sim.contractMultiplierBySymbol := by
  have pass : ∀ (sim : TqSim) symbol,
      (sim.matchPendingForSymbol visit symbol).1.contractMultiplierBySymbol =
        sim.contractMultiplierBySymbol := fun sim symbol =>
    matchPending_invariant
      (fun sim' => sim'.contractMultiplierBySymbol = sim.contractMultiplierBySymbol)
      (fun order _ _ _ _ pre _ app => (applyOrder_keeps order app).2.trans pre)
      rfl
  unfold TqSim.matched
  cases exec with
  | none => exact pass sim symbol
  | some exec => exact (pass _ exec).trans (pass sim symbol)

/-- A quote update leaves the multipliers at what the quote made them. -/
theorem Sound.updateQuoteRefInner {sim : TqSim} (sound : sim.Sound)
    (visits : ∀ pend, (visit pend).Perm pend) (symbol : String) (q : Quote)
    (kept : MultiplierKept sim (sim.updateQuoteRefInner visit symbol q).1) :
    (sim.updateQuoteRefInner visit symbol q).1.Sound := by
  have note := quoted_sameBooks sim symbol q
  unfold TqSim.updateQuoteRefInner at kept ⊢
  generalize sim.quoted symbol q = res at note kept ⊢
  obtain ⟨sim', exec⟩ := res
  dsimp only at note kept ⊢
  rcases settleQuote_cases sim' visit symbol exec with unmatched | matched
  · rw [unmatched] at kept ⊢
    exact sound.of_sameBooks note kept
  · rw [matched] at kept ⊢
    refine Sound.matched (sound.of_sameBooks note fun symbol traded => ?_) visits symbol exec
    have same := kept symbol traded
    unfold contractMultiplierFor at same ⊢
    rw [matched_multiplier] at same
    exact same

theorem Sound.timed {sim : TqSim} (sound : sim.Sound) (timeNs : Int) :
    ({ sim with currentTimeNs := timeNs } : TqSim).Sound :=
  ⟨⟨sound.balance, sound.realised, sound.position, sound.conserved, sound.sorted, sound.counted,
    sound.closes⟩, sound.averaged, sound.numbered, sound.earlier, sound.positive⟩

theorem validateRequest_positive {req : TqSimOrderRequest}
    (fine : validateRequest req = .ok ()) : 0 < req.volume := by
  unfold validateRequest at fine
  split at fine
  · cases fine
  split at fine
  · cases fine
  split at fine
  · cases fine
  · omega

/-- An inserted order is applied under the symbol it is executed in. -/
theorem insertOrder_cases {sim : TqSim} {req : TqSimOrderRequest} {cid : Option Nat}
    {rep : TqSimStepReport} (ins : sim.insertOrder req cid = .ok (sim', rep)) :
    ∃ order out, 0 < order.request.volume ∧ sim.applyOrder order = .ok (sim', out) := by
  unfold TqSim.insertOrder at ins
  dsimp only at ins
  generalize sim.resolveOrderRequest req = req at ins
  cases fine : validateRequest req with
  | error error =>
    rw [fine] at ins
    cases ins
  | ok done =>
    rw [fine] at ins
    dsimp only at ins
    cases app : sim.applyOrder ⟨req, cid, true, sim.currentTimeNs, none⟩ with
    | error error =>
      rw [app] at ins
      cases ins
    | ok res =>
      rw [app] at ins
      obtain ⟨next, out⟩ := res
      obtain rfl : next = sim' := congrArg Prod.fst (Except.ok.inj ins)
      have pos : 0 < req.volume := validateRequest_positive fine
      exact ⟨⟨req, cid, true, sim.currentTimeNs, none⟩, out, pos, app⟩

/-! ## Settings -/

theorem setMargin_sameBooks (symbol : String) (margin : F64) :
    SameBooks sim (sim.setMargin symbol margin) := by
  unfold setMargin
  split
  · exact .refl sim
  · exact ⟨rfl, rfl, rfl, rfl, rfl, rfl, rfl, rfl, rfl, rfl, rfl, rfl⟩

theorem setCommission_sameBooks (symbol : String) (commission : F64) :
    SameBooks sim (sim.setCommission symbol commission) := by
  unfold setCommission
  split
  · exact .refl sim
  · exact ⟨rfl, rfl, rfl, rfl, rfl, rfl, rfl, rfl, rfl, rfl, rfl, rfl⟩

theorem setContractMultiplier_sameBooks (symbol : String) (mult : F64) :
    SameBooks sim (sim.setContractMultiplier symbol mult) := by
  unfold setContractMultiplier
  split
  · exact .refl sim
  · exact ⟨rfl, rfl, rfl, rfl, rfl, rfl, rfl, rfl, rfl, rfl, rfl, rfl⟩

/-! ## Every run keeps the books -/

theorem sound_withAccount (acct : String) (bal : F64) :
    (withAccount acct bal).Sound where
  balance := by
    change (withAccount acct bal).initBalance = _ + (0 : ℚ) - 0
    ring
  realised := rfl
  position := fun _ => rfl
  conserved := by
    intro symbol mark
    change (0 : ℚ) = 0 + ((0 : Int) : ℚ) * _ * _
    simp
  sorted := List.Pairwise.nil
  counted := rfl
  closes := fun _ _ mem => absurd mem not_mem_nil
  averaged := fun _ held => absurd rfl held
  numbered := fun _ mem => absurd mem not_mem_nil
  earlier := fun _ _ mem => absurd mem not_mem_nil
  positive := fun _ mem => absurd mem not_mem_nil

theorem Sound.step {call : TqSimCall} {sim : TqSim} (sound : sim.Sound) (step : Step call sim sim')
    (kept : MultiplierKept sim sim') : sim'.Sound := by
  obtain ⟨visit, visits, rfl⟩ := step
  cases call with
  | setMargin symbol margin => exact sound.of_sameBooks (setMargin_sameBooks sim symbol margin) kept
  | setCommission symbol commission =>
    exact sound.of_sameBooks (setCommission_sameBooks sim symbol commission) kept
  | setContractMultiplier symbol mult =>
    exact sound.of_sameBooks (setContractMultiplier_sameBooks sim symbol mult) kept
  | updateQuote symbol q time => exact (sound.timed _).updateQuoteRefInner visits symbol q kept
  | insertOrder req cid =>
    unfold execute
    dsimp only
    split
    · rename_i ins
      obtain ⟨order, out, pos, app⟩ := insertOrder_cases ins
      exact sound.applyOrder order pos app
    · exact sound

/-- The step keeps the multiplier of every symbol that was traded before it. -/
def KeepsMultipliers (_call : TqSimCall) (sim sim' : TqSim) : Prop := MultiplierKept sim sim'

theorem Run.sound {acct : String} {bal : F64} {cls : List TqSimCall} {sim : TqSim}
    (run : Run KeepsMultipliers acct bal cls sim) : sim.Sound := by
  induction run with
  | start => exact sound_withAccount acct bal
  | call pre step hold sound => exact sound.step step hold

/-- Every run that keeps the multipliers of the traded symbols keeps the books. -/
theorem accounts_of_run (accountId : String) (initBalance : F64) (calls : List TqSimCall)
    (sim : TqSim) (run : Run KeepsMultipliers accountId initBalance calls sim) : sim.Accounts :=
  run.sound.toAccounts

section Example

def tradingMarket : TqSimCall :=
  .updateQuote "SHFE.au2512"
    { lastPrice := .finite 100, askPrice1 := .finite 100, askVolume1 := 5,
      bidPrice1 := .finite 90, bidVolume1 := 5, volumeMultiple := 10 } none

def buysTwo : TqSimCall :=
  .insertOrder ⟨"1", "SHFE.au2512", .buy, .open_, 2, .limit, some 100⟩ none

def sellsThree : TqSimCall :=
  .insertOrder ⟨"2", "SHFE.au2512", .sell, .open_, 3, .any, none⟩ none

def openedMarket : TqSim := (withAccount "TQSIM" (.finite 1000)).execute id tradingMarket

def boughtTwo : TqSim := openedMarket.execute id buysTwo

def soldThree : TqSim := boughtTwo.execute id sellsThree

theorem keepsMultipliers_of_eq {call : TqSimCall} {sim sim' : TqSim}
    (same : sim'.contractMultiplierBySymbol = sim.contractMultiplierBySymbol) :
    KeepsMultipliers call sim sim' :=
  fun symbol _ => congrArg (fun tbl => (get? symbol tbl).getD 1) same

theorem accounts_of_run_soldThree :
    Run KeepsMultipliers "TQSIM" (.finite 1000) [tradingMarket, buysTwo, sellsThree] soldThree ∧
      soldThree.net "SHFE.au2512" = -1 ∧ soldThree.balance = 800 ∧ soldThree.Accounts := by
  have opn : Run KeepsMultipliers "TQSIM" (.finite 1000) [tradingMarket] openedMarket :=
    .call .start (step_execute _ _) fun _ traded => absurd rfl traded
  have bought : Run KeepsMultipliers "TQSIM" (.finite 1000) [tradingMarket, buysTwo] boughtTwo :=
    .call opn (step_execute _ _) (keepsMultipliers_of_eq (by decide +kernel))
  have sold : Run KeepsMultipliers "TQSIM" (.finite 1000) [tradingMarket, buysTwo, sellsThree]
      soldThree :=
    .call bought (step_execute _ _) (keepsMultipliers_of_eq (by decide +kernel))
  exact ⟨sold, by decide +kernel, by decide +kernel, accounts_of_run _ _ _ _ sold⟩

end Example

end TqSim

end Tqsdk
