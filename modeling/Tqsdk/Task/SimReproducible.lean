import Mathlib.Data.List.Permutation
import Tqsdk.Task.SimAccounting

/-!
# Two runs of the simulated account

Two hash maps of a simulator are visited in an order that changes from process to process.  The
pending orders of a symbol are applied in such an order, each with the numbers and against the funds
that the ones before it have left.  The margins, float profits and market values of the positions
are added up in such an order too, and an addition of two `f64` rounds, so the account and the check
of the funds for an opening order may differ in the last digits.

Runs of the same calls agree as long as no quote triggers two pending orders of a symbol at once and
the sums come out the same in every order.  The addition of two `f64` is a parameter.  The other
operations on amounts are functions of their arguments in any process and are left exact.
-/

namespace Tqsdk

open List

/-! ## Sums in the order of a hash map -/

/-- How a process visits the positions, at the times that `next_seq` counts. -/
structure HashOrder where
  visit : Nat → List (String × Int) → List (String × Int)
  perm : ∀ seq positions, (visit seq positions).Perm positions

namespace HashOrder

/-- The sums of a process, where `add` adds two `f64`. -/
abbrev sums (order : HashOrder) (add : ℚ → ℚ → ℚ) : PositionSums where
  total seq positions amount := ((order.visit seq positions).map amount).foldl add 0

def byKey : HashOrder := ⟨fun _ positions => positions, fun _ _ => .refl _⟩

def reversed : HashOrder := ⟨fun _ => List.reverse, fun _ => reverse_perm⟩

end HashOrder

/-- The amounts have the same sum in every order. -/
def AddsInAnyOrder (add : ℚ → ℚ → ℚ) (amounts : List ℚ) : Prop :=
  ∀ visited : List ℚ, visited.Perm amounts → visited.foldl add 0 = amounts.foldl add 0

theorem HashOrder.total_eq (order : HashOrder) {add : ℚ → ℚ → ℚ} {positions : List (String × Int)}
    {amount : String × Int → ℚ} (free : AddsInAnyOrder add (positions.map amount)) (seq : Nat) :
    (order.sums add).total seq positions amount = (positions.map amount).foldl add 0 :=
  free _ ((order.perm seq positions).map amount)

theorem eq_of_perm_of_length_le_one {α : Type} {left right : List α} (perm : left.Perm right)
    (atMost : right.length ≤ 1) : left = right := by
  match right, atMost with
  | [], _ => exact perm.eq_nil
  | [a], _ => exact perm.eq_singleton

theorem addsInAnyOrder_single (add : ℚ → ℚ → ℚ) {amounts : List ℚ} (atMost : amounts.length ≤ 1) :
    AddsInAnyOrder add amounts :=
  fun _ perm => congrArg (List.foldl add 0) (eq_of_perm_of_length_le_one perm atMost)

namespace TqSim

/-! ## Calls whose outcome does not depend on the order -/

/-- The pending orders of a symbol that can be filled. -/
def triggered (sim : TqSim) (symbol : String) : List SimOrder :=
  (sim.pendingFor symbol).filter fun order => sim.matchDecision order.request = .fill

/-- The quote triggers at most one order of its symbol and at most one of the symbol that orders
are executed in. -/
def TriggersAtMostOne (sim : TqSim) (symbol : String) (quote : Quote) : Prop :=
  ((sim.quoted symbol quote).1.triggered symbol).length ≤ 1 ∧
    ∀ executionSymbol ∈ (sim.quoted symbol quote).2,
      ((sim.quoted symbol quote).1.triggered executionSymbol).length ≤ 1

instance (sim : TqSim) (symbol : String) (quote : Quote) :
    Decidable (sim.TriggersAtMostOne symbol quote) :=
  inferInstanceAs (Decidable (_ ∧ ∀ executionSymbol ∈ (sim.quoted symbol quote).2, _))

def margins (sim : TqSim) : List ℚ := sim.positions.map sim.marginOf

section

variable (add : ℚ → ℚ → ℚ)

/-- The sums of the account are the same in every order. -/
structure AccountFree (sim : TqSim) : Prop where
  margins : AddsInAnyOrder add sim.margins
  floatProfits : AddsInAnyOrder add
    (sim.positions.map fun entry => sim.floatProfitFor entry.1)
  marketValues : AddsInAnyOrder add (sim.positions.map sim.marketValueOf)

/-- Where an order that the quote triggers is checked, the margins add up in any order: in the state
with the quote recorded, and for the symbol that orders are executed in once the orders of the
quoted one are matched. -/
def ChecksFree (sim : TqSim) (symbol : String) (quote : Quote) : Prop :=
  let recorded := (sim.quoted symbol quote).1
  let matched := (@matchPendingForSymbol recorded (HashOrder.byKey.sums add) id symbol).1
  (recorded.triggered symbol ≠ [] → AddsInAnyOrder add recorded.margins) ∧
    ∀ executionSymbol ∈ (sim.quoted symbol quote).2,
      matched.triggered executionSymbol ≠ [] → AddsInAnyOrder add matched.margins

/-- A call whose outcome does not depend on the order of a hash map. -/
def OrderFree (call : TqSimCall) (sim sim' : TqSim) : Prop :=
  AccountFree add sim' ∧
    match call with
    | .updateQuote symbol quote eventTimeNs =>
      let timed := { sim with currentTimeNs := eventTimeNs.getD sim.currentTimeNs }
      TriggersAtMostOne timed symbol quote ∧ ChecksFree add timed symbol quote
    | _ => True

end

/-! ## The loop over the pending orders -/

theorem matchDecision_congr {sim sim' : TqSim} (same : sim'.quotes = sim.quotes)
    (req : TqSimOrderRequest) : sim'.matchDecision req = sim.matchDecision req := by
  unfold matchDecision counterpartyPrice
  rw [same]

section Applied

variable {sim sim' : TqSim} {order : SimOrder} {out : SimOrderOutcome}

theorem matchPending_filter [PositionSums] (pend : List SimOrder) (sim : TqSim) :
    matchPending pend sim =
      matchPending (pend.filter fun order => sim.matchDecision order.request = .fill) sim := by
  induction pend generalizing sim with
  | nil => rfl
  | cons order pend ih =>
    by_cases fills : sim.matchDecision order.request = .fill
    · rw [filter_cons_of_pos (by simpa using fills)]
      unfold matchPending
      rw [if_pos fills, if_pos fills]
      cases app : sim.applyOrder order with
      | error error => exact ih sim
      | ok res =>
        obtain ⟨sim', out⟩ := res
        have same := (applyOrder_keeps _ app).1
        dsimp only
        rw [ih sim']
        simp only [matchDecision_congr same]
    · rw [filter_cons_of_neg (by simpa using fills), ← ih sim]
      conv_lhs => unfold matchPending
      rw [if_neg fills]

/-- A triggered order that is applied is no longer pending, and no other one becomes so. -/
theorem applyOrder_triggered [PositionSums] (fills : sim.matchDecision order.request = .fill)
    (app : sim.applyOrder order = .ok (sim', out)) (symbol : String) :
    (sim'.triggered symbol).Sublist (sim.triggered symbol) := by
  have decs := matchDecision_congr (applyOrder_keeps _ app).1
  unfold triggered
  simp only [decs]
  refine List.Sublist.filter _ ?_
  unfold pendingFor
  rcases applyOrder_cases order app with
    ⟨lifecycle, lastMsg, status, ends, -, stored⟩ | ⟨-, -, price, -, filled⟩
  · obtain rfl := congrArg Prod.fst stored
    refine OrdMap.filter_insert_sublist ?_ sim.orders
    rw [decide_eq_false (ends fills), Bool.false_and]
  · obtain rfl := congrArg Prod.fst filled
    exact OrdMap.filter_insert_sublist rfl sim.orders

end Applied

theorem matchPendingForSymbol_triggered [PositionSums] (sim : TqSim)
    (visit : List SimOrder → List SimOrder) (symbol alt : String) :
    ((sim.matchPendingForSymbol visit symbol).1.triggered alt).Sublist (sim.triggered alt) :=
  matchPending_invariant (fun sim' => (sim'.triggered alt).Sublist (sim.triggered alt))
    (fun _ _ _ _ _ pre fills app => (applyOrder_triggered fills app alt).trans pre)
    (List.Sublist.refl _)

/-! ## Two processes -/

section Processes

variable {add : ℚ → ℚ → ℚ} {sim : TqSim} (left right : HashOrder)

theorem applyOrder_free (free : AddsInAnyOrder add sim.margins) (order : SimOrder) :
    @applyOrder sim (left.sums add) order = @applyOrder sim (right.sums add) order := by
  have total : @marginTotal sim (left.sums add) = @marginTotal sim (right.sums add) :=
    (left.total_eq free _).trans (right.total_eq free _).symm
  have check : @pretradeRejection sim (left.sums add) order.request =
      @pretradeRejection sim (right.sums add) order.request := by
    unfold pretradeRejection accountSnapshot
    dsimp only
    rw [total]
  unfold applyOrder
  dsimp only
  rw [check]

theorem matchPending_free {pend : List SimOrder} (atMost : pend.length ≤ 1)
    (free : pend ≠ [] → AddsInAnyOrder add sim.margins) :
    (@matchPending (left.sums add) pend sim).1 = (@matchPending (right.sums add) pend sim).1 := by
  have none (sim : TqSim) :
      (@matchPending (left.sums add) [] sim).1 = (@matchPending (right.sums add) [] sim).1 := by
    unfold matchPending
    rfl
  cases pend with
  | nil => exact none sim
  | cons order rest =>
    obtain rfl : rest = [] := length_eq_zero_iff.mp (by simpa using atMost)
    unfold matchPending
    rw [applyOrder_free left right (free (cons_ne_nil _ _))]
    split_ifs
    · cases @applyOrder sim (right.sums add) order with
      | error error => exact none sim
      | ok applied => exact none applied.1
    · exact none sim

variable {visit visit' : List SimOrder → List SimOrder}
  (visits : ∀ pending, (visit pending).Perm pending)
  (visits' : ∀ pending, (visit' pending).Perm pending)

include visits visits'

variable {symbol : String}

theorem matchPendingForSymbol_free (atMost : (sim.triggered symbol).length ≤ 1)
    (free : sim.triggered symbol ≠ [] → AddsInAnyOrder add sim.margins) :
    (@matchPendingForSymbol sim (left.sums add) visit symbol).1 =
      (@matchPendingForSymbol sim (right.sums add) visit' symbol).1 := by
  have first : (visit (sim.pendingFor symbol)).filter
      (fun order => sim.matchDecision order.request = .fill) = sim.triggered symbol :=
    eq_of_perm_of_length_le_one ((visits _).filter _) atMost
  have second : (visit' (sim.pendingFor symbol)).filter
      (fun order => sim.matchDecision order.request = .fill) = sim.triggered symbol :=
    eq_of_perm_of_length_le_one ((visits' _).filter _) atMost
  unfold matchPendingForSymbol
  dsimp only
  rw [@matchPending_filter (left.sums add), @matchPending_filter (right.sums add), first, second]
  exact matchPending_free left right atMost free

theorem updateQuoteRefInner_free {quote : Quote} (atMost : sim.TriggersAtMostOne symbol quote)
    (checks : ChecksFree add sim symbol quote) :
    (@updateQuoteRefInner sim (left.sums add) visit symbol quote).1 =
      (@updateQuoteRefInner sim (right.sums add) visit' symbol quote).1 := by
  unfold updateQuoteRefInner
  rcases isQuoted : sim.quoted symbol quote with ⟨recorded, exec⟩
  unfold TriggersAtMostOne at atMost
  unfold ChecksFree at checks
  rw [isQuoted] at atMost checks
  dsimp only at atMost checks ⊢
  rw [@settleQuote_fst recorded (left.sums add), @settleQuote_fst recorded (right.sums add)]
  refine if_congr Iff.rfl rfl (if_congr Iff.rfl rfl ?_)
  have own := matchPendingForSymbol_free left right visits visits' atMost.1 checks.1
  have byKey := matchPendingForSymbol_free HashOrder.byKey right (fun _ => .refl _) visits'
    atMost.1 checks.1
  unfold matched
  dsimp only
  rw [own, ← byKey]
  cases exec with
  | none => rfl
  | some executed =>
    have fewer := (@matchPendingForSymbol_triggered (HashOrder.byKey.sums add) recorded id symbol
      executed).length_le
    exact matchPendingForSymbol_free left right visits visits'
      (fewer.trans (atMost.2 executed rfl)) (checks.2 executed rfl)

theorem execute_free {sim' : TqSim} {call : TqSimCall} (funds : AccountFree add sim)
    (free : OrderFree add call sim sim') :
    @execute (left.sums add) visit sim call = @execute (right.sums add) visit' sim call := by
  cases call with
  | setMargin symbol margin => rfl
  | setCommission symbol commission => rfl
  | setContractMultiplier symbol multiplier => rfl
  | updateQuote symbol quote time =>
    exact updateQuoteRefInner_free left right visits visits' free.2.1 free.2.2
  | insertOrder request commandId =>
    unfold execute insertOrder
    dsimp only
    cases validateRequest (sim.resolveOrderRequest request) with
    | error error => rfl
    | ok done =>
      dsimp only
      rw [applyOrder_free left right funds.margins]
      cases @applyOrder sim (right.sums add)
        ⟨sim.resolveOrderRequest request, commandId, true, sim.currentTimeNs, none⟩ <;> rfl

end Processes

section Runs

variable {add : ℚ → ℚ → ℚ} {leftOrder rightOrder : HashOrder} {accountId : String}
  {initBalance : F64} {calls : List TqSimCall} {left right : TqSim}

theorem AccountFree.same (free : AccountFree add left) (leftOrder rightOrder : HashOrder) :
    @accountSnapshot left (leftOrder.sums add) = @accountSnapshot left (rightOrder.sums add) := by
  unfold accountSnapshot marginTotal floatProfitTotal marketValueTotal
  rw [leftOrder.total_eq free.margins, rightOrder.total_eq free.margins,
    leftOrder.total_eq free.floatProfits, rightOrder.total_eq free.floatProfits,
    leftOrder.total_eq free.marketValues, rightOrder.total_eq free.marketValues]

theorem accountFree_single (add : ℚ → ℚ → ℚ) (atMost : left.positions.length ≤ 1) :
    AccountFree add left := by
  constructor <;> exact addsInAnyOrder_single add ((length_map _).trans_le atMost)

theorem Run.unique
    (run : @Run (leftOrder.sums add) (OrderFree add) accountId initBalance calls left)
    (other : @Run (rightOrder.sums add) (fun _ _ _ => True) accountId initBalance calls right) :
    left = right ∧ AccountFree add left := by
  induction run generalizing right with
  | start =>
    generalize emp : ([] : List TqSimCall) = calls at other
    cases other with
    | start => exact ⟨rfl, accountFree_single add (Nat.zero_le _)⟩
    | call before step keeps =>
      exact absurd emp.symm (append_ne_nil_of_right_ne_nil _ (cons_ne_nil _ _))
  | @call calls sim sim' call before step keeps ih =>
    generalize same : calls ++ [call] = all at other
    cases other with
    | start => exact absurd same (append_ne_nil_of_right_ne_nil _ (cons_ne_nil _ _))
    | call before' step' keeps' =>
      obtain ⟨rfl, ⟨rfl, -⟩⟩ := append_inj' same rfl
      obtain ⟨rfl, funds⟩ := ih before'
      obtain ⟨visit, visits, rfl⟩ := step
      obtain ⟨visit', visits', rfl⟩ := step'
      exact ⟨execute_free leftOrder rightOrder visits visits' funds keeps, keeps.1⟩

end Runs

section Example

end Example

end TqSim

end Tqsdk
