import Mathlib
import Tqsdk.Lib.Apportion
import Tqsdk.Lib.Checked
import Tqsdk.Lib.Int64

/-!
# Allocation of a volume to accounts

`account_group/allocation.rs`.  The ratios of the accounts are brought to a common denominator, the
product of all of theirs, in words of 128 bits, and the volume is shared by largest remainders.  The
shares are right wherever the words are wide enough, and nothing that builds a group bounds the
product.
-/

namespace Tqsdk

open List Result

/-! ## Groups -/

structure Ratio where
  numerator : UInt32
  denominator : UInt32
  numeratorPos : 0 < numerator.toNat
  denominatorPos : 0 < denominator.toNat

def Ratio.new (numerator denominator : UInt32) : Except String Ratio :=
  if noNumerator : numerator.toNat = 0 then
    .error "account allocation ratio numerator must be positive"
  else if noDenominator : denominator.toNat = 0 then
    .error "account allocation ratio denominator must be positive"
  else .ok ⟨numerator, denominator, Nat.pos_of_ne_zero noNumerator,
    Nat.pos_of_ne_zero noDenominator⟩

structure AccountAllocation where
  accountId : String
  ratio : Ratio

structure AccountGroup where
  accounts : List AccountAllocation
  minVolumePerAccount : Int
  nonempty : accounts ≠ []
  minNonneg : 0 ≤ minVolumePerAccount
  named : ∀ account ∈ accounts, account.accountId ≠ ""
  distinct : (accounts.map AccountAllocation.accountId).Nodup

structure AllocatedAccountOrder where
  accountId : String
  volume : Int
  deriving DecidableEq

structure AccountGroupBuilder where
  accounts : List AccountAllocation := []
  minVolumePerAccount : Int := 0

def AccountGroupBuilder.add (builder : AccountGroupBuilder) (accountId : String) (ratio : Ratio) :
    AccountGroupBuilder :=
  { builder with accounts := builder.accounts ++ [⟨accountId, ratio⟩] }

/-- The loop over the accounts of `build`. -/
def checkAccounts : List String → List AccountAllocation → Except String Unit
  | _, [] => .ok ()
  | seen, account :: accounts =>
    if account.accountId = "" then .error "account id cannot be empty"
    else if account.accountId ∈ seen then .error "duplicate account id in account group"
    else checkAccounts (account.accountId :: seen) accounts

theorem checkAccounts_ok {seen : List String} {accs : List AccountAllocation}
    (ok : checkAccounts seen accs = .ok ()) :
    (∀ account ∈ accs, account.accountId ≠ "") ∧
      (∀ account ∈ accs, account.accountId ∉ seen) ∧
      (accs.map AccountAllocation.accountId).Nodup := by
  induction accs generalizing seen with
  | nil => exact ⟨fun _ mem' => (by cases mem'), fun _ mem' => (by cases mem'), .nil⟩
  | cons account accs ih =>
    rw [checkAccounts] at ok
    split at ok
    · cases ok
    rename_i notEmpty
    split at ok
    · cases ok
    rename_i new
    obtain ⟨nm, unseen, nd⟩ := ih ok
    refine ⟨forall_mem_cons.mpr ⟨notEmpty, nm⟩, forall_mem_cons.mpr ⟨new,
      fun alt mem' inSeen => unseen alt mem' (mem_cons_of_mem _ inSeen)⟩, ?_⟩
    rw [map_cons, nodup_cons]
    refine ⟨fun mem' => ?_, nd⟩
    obtain ⟨alt, inRest, same⟩ := mem_map.mp mem'
    exact unseen alt inRest (by rw [same]; exact mem_cons_self)

def AccountGroupBuilder.build (builder : AccountGroupBuilder) : Except String AccountGroup :=
  if empty : builder.accounts = [] then .error "account group cannot be empty"
  else if negative : builder.minVolumePerAccount < 0 then
    .error "account minimum volume cannot be negative"
  else
    match checked : checkAccounts [] builder.accounts with
    | .error message => .error message
    | .ok () => .ok ⟨builder.accounts, builder.minVolumePerAccount, empty, not_lt.mp negative,
        (checkAccounts_ok checked).1, (checkAccounts_ok checked).2.2⟩

/-! ## Allocation -/

/-- Computations of a task that may panic. -/
abbrev Outcome (α : Type) := Except (Fault String) α

def invalid {α : Type} (message : String) : Outcome α := .error (.failed message)

/-- A value of the type `i64` that an operation gives. -/
def checkedI64 (value : Int) : Outcome Int := Checked.orPanic (I64.checked value)

/-- The cast of a word to an `i64`. -/
def castI64 (word : Nat) : Int := (word : Int).bmod 18446744073709551616

def product128 (factors : List Nat) : Outcome Nat := factors.foldlM (Checked.mul 128) 1

def sum128 (terms : List Nat) : Outcome Nat := terms.foldlM (Checked.add 128) 0

def sumI64 (terms : List Int) : Outcome Int :=
  terms.foldlM (fun sum term => checkedI64 (sum + term)) 0

open Apportion (Row)

namespace AccountGroup

variable (group : AccountGroup)

/-- `weights`, with the common denominator. -/
def checkedWeights : Outcome (List Nat) := do
  let commonDenominator ← product128 (group.accounts.map fun account =>
    account.ratio.denominator.toNat)
  group.accounts.mapM fun account =>
    Checked.mul 128 account.ratio.numerator.toNat
      (commonDenominator / account.ratio.denominator.toNat)

/-- The rows with the quotients of the volume. -/
def quotientRows (totalVolume : Int) (weights : List Nat) : Outcome (List Row) := do
  let totalWeight ← sum128 weights
  weights.zipIdx.mapM fun entry => do
    let weighted ← Checked.mul 128 totalVolume.toNat entry.1
    return ⟨entry.2, castI64 (weighted / totalWeight), weighted % totalWeight⟩

/-- The rows in the order of their remainders, the first of which get one more. -/
def raisedRows (remaining : Nat) (rows : List Row) : Outcome (List Row) := do
  let ranked := Apportion.ranked rows
  let raised ← (ranked.take remaining).mapM fun row => do
    let volume ← checkedI64 (row.volume + 1)
    return { row with volume }
  return raised ++ ranked.drop remaining

/-- What the allocation requires of the volume before it shares it. -/
def checkTotal (totalVolume : Int) : Outcome Unit :=
  if totalVolume ≤ 0 then invalid "total volume must be positive"
  else if group.accounts.isEmpty then invalid "account group cannot be empty"
  else if 0 < group.minVolumePerAccount then do
    let least ← checkedI64 (group.minVolumePerAccount * group.accounts.length)
    if totalVolume < least then invalid "total volume cannot satisfy account minimum volume"
    else return ()
  else return ()

def allocate (totalVolume : Int) : Outcome (List AllocatedAccountOrder) := do
  group.checkTotal totalVolume
  let weights ← group.checkedWeights
  let rows ← quotientRows totalVolume weights
  let allocated ← sumI64 (rows.map Row.volume)
  let difference ← checkedI64 (totalVolume - allocated)
  let rows ← raisedRows (max difference 0).toNat rows
  let rows := Apportion.inOrder rows
  if 0 < group.minVolumePerAccount ∧
      (rows.any fun row => decide (row.volume < group.minVolumePerAccount)) then
    invalid "total volume cannot satisfy account minimum volume"
  else
    rows.mapM fun row => do
      let account ← Checked.index group.accounts row.index
      return ⟨account.accountId, row.volume⟩

/-! ## Words that are wide enough -/

def commonDenominator : Nat :=
  (group.accounts.map fun account => account.ratio.denominator.toNat).prod

def weight (account : AccountAllocation) : Nat :=
  account.ratio.numerator.toNat * (group.commonDenominator / account.ratio.denominator.toNat)

def weights : List Nat := group.accounts.map group.weight

/-- The volume that the group needs at least. -/
def leastVolume : Int := group.minVolumePerAccount * group.accounts.length

/-- No operation leaves its word. -/
structure Fits (totalVolume : Int) : Prop where
  least : group.leastVolume ≤ I64.maximum
  denominator : group.leastVolume ≤ totalVolume → group.commonDenominator < 2 ^ 128
  weights : group.leastVolume ≤ totalVolume → group.weights.sum < 2 ^ 128
  weighted : group.leastVolume ≤ totalVolume →
    ∀ weight ∈ group.weights, totalVolume.toNat * weight < 2 ^ 128

end AccountGroup

/-! ## Checked folds -/

theorem foldlM_mul {acc : Nat} {factors : List Nat} (fits : acc < 2 ^ 128)
    (pos : ∀ factor ∈ factors, 0 < factor) :
    (factors.foldlM (Checked.mul 128) acc : Outcome Nat) =
      if acc * factors.prod < 2 ^ 128 then .ok (acc * factors.prod) else .error .panicked := by
  induction factors generalizing acc with
  | nil =>
    rw [prod_nil, Nat.mul_one, if_pos fits]
    rfl
  | cons factor factors ih =>
    have rest := fun alt mem' => pos alt (mem_cons_of_mem _ mem')
    rw [foldlM_cons, prod_cons, ← Nat.mul_assoc]
    unfold Checked.mul
    split
    · rename_i win
      exact ih win rest
    · rename_i out
      have larger : acc * factor ≤ acc * factor * factors.prod :=
        Nat.le_mul_of_pos_right _ (List.prod_pos_iff_forall_pos_nat.mpr rest)
      rw [if_neg (by omega)]
      rfl

theorem foldlM_add {acc : Nat} {terms : List Nat} (fits : acc < 2 ^ 128) :
    (terms.foldlM (Checked.add 128) acc : Outcome Nat) =
      if acc + terms.sum < 2 ^ 128 then .ok (acc + terms.sum) else .error .panicked := by
  induction terms generalizing acc with
  | nil =>
    rw [sum_nil, Nat.add_zero, if_pos fits]
    rfl
  | cons term terms ih =>
    rw [foldlM_cons, sum_cons, ← Nat.add_assoc]
    unfold Checked.add
    split
    · rename_i win
      exact ih win
    · rw [if_neg (by omega)]
      rfl

theorem checkedI64_eq {val : Int} (inR : I64.InRange val) :
    checkedI64 val = .ok val := by
  rw [checkedI64, I64.checked_eq_some.mpr ⟨inR, rfl⟩]
  rfl

theorem checkedI64_panics {val : Int} (outs : ¬ I64.InRange val) :
    checkedI64 val = .error .panicked := by
  rw [checkedI64, I64.checked, if_neg outs]
  rfl

theorem foldlM_checkedI64 {acc : Int} {terms : List Int} (accNonneg : 0 ≤ acc)
    (nn : ∀ term ∈ terms, 0 ≤ term) (fits : acc + terms.sum ≤ I64.maximum) :
    terms.foldlM (fun sum term => checkedI64 (sum + term)) acc = .ok (acc + terms.sum) := by
  induction terms generalizing acc with
  | nil =>
    rw [sum_nil, Int.add_zero]
    rfl
  | cons term terms ih =>
    have hd := nn term mem_cons_self
    have rest := fun alt mem' => nn alt (mem_cons_of_mem _ mem')
    have restNonneg := sum_nonneg rest
    rw [sum_cons, ← Int.add_assoc] at fits ⊢
    rw [foldlM_cons, checkedI64_eq ⟨by unfold I64.minimum; omega, by omega⟩, ok_bind]
    exact ih (by omega) rest fits

theorem mapM_panics {α β : Type} {f : α → Outcome β} {xs : List α}
    (noError : ∀ x ∈ xs, ∀ msg, f x ≠ .error (.failed msg)) {x : α} (mem' : x ∈ xs)
    (panics : f x = .error .panicked) : xs.mapM f = .error .panicked := by
  induction xs with
  | nil => cases mem'
  | cons hd xs ih =>
    have rest := fun alt inRest => noError alt (mem_cons_of_mem _ inRest)
    rw [mapM_cons]
    cases hit : f hd with
    | error err =>
      cases err with
      | failed msg => exact absurd hit (noError hd mem_cons_self msg)
      | panicked => rfl
    | ok val =>
      cases mem' with
      | head => rw [hit] at panics; cases panics
      | tail _ mem' =>
        rw [ok_bind, ih rest mem']
        rfl

/-! ## The allocation without words -/

namespace AccountGroup

variable (group : AccountGroup)

theorem length_weights : group.weights.length = group.accounts.length := length_map _

theorem common_pos : 0 < group.commonDenominator := by
  refine List.prod_pos_iff_forall_pos_nat.mpr fun factor mem' => ?_
  obtain ⟨account, -, rfl⟩ := List.mem_map.mp mem'
  exact account.ratio.denominatorPos

theorem denominator_dvd {account : AccountAllocation} (mem' : account ∈ group.accounts) :
    account.ratio.denominator.toNat ∣ group.commonDenominator :=
  dvd_prod (mem_map_of_mem mem')

theorem weight_pos {account : AccountAllocation} (mem' : account ∈ group.accounts) :
    0 < group.weight account :=
  Nat.mul_pos account.ratio.numeratorPos (Nat.div_pos
    (Nat.le_of_dvd group.common_pos (group.denominator_dvd mem')) account.ratio.denominatorPos)

theorem sum_weights_pos : 0 < group.weights.sum := by
  obtain ⟨account, mem'⟩ := exists_mem_of_ne_nil _ group.nonempty
  exact lt_of_lt_of_le (group.weight_pos mem')
    (single_le_sum (fun _ _ => Nat.zero_le _) _ (mem_map_of_mem mem'))

theorem weight_le_sum {wt : Nat} (mem' : wt ∈ group.weights) :
    wt ≤ group.weights.sum := single_le_sum (fun _ _ => Nat.zero_le _) _ mem'

/-- The quotients of the volume. -/
def quotients (totalVolume : Int) : List Row :=
  Apportion.quotients totalVolume.toNat group.weights

/-- The volume that the quotients leave. -/
def remaining (totalVolume : Int) : Nat :=
  (totalVolume - ((group.quotients totalVolume).map Row.volume).sum).toNat

def settledRows (totalVolume : Int) : List Row :=
  Apportion.settled (group.remaining totalVolume) (group.quotients totalVolume)

def plan (totalVolume : Int) : Except String (List AllocatedAccountOrder) :=
  if totalVolume < group.leastVolume then
    .error "total volume cannot satisfy account minimum volume"
  else if 0 < group.minVolumePerAccount ∧ ((group.settledRows totalVolume).any fun row =>
      decide (row.volume < group.minVolumePerAccount)) then
    .error "total volume cannot satisfy account minimum volume"
  else
    .ok (zipWith (fun account row => ⟨account.accountId, row.volume⟩) group.accounts
      (group.settledRows totalVolume))

/-! ## Words -/

variable {group} {totalVolume : Int} (pos : 0 < totalVolume)

include pos

theorem checkTotal_eq : group.checkTotal totalVolume =
    if I64.maximum < group.leastVolume then .error .panicked
    else if totalVolume < group.leastVolume then
      invalid "total volume cannot satisfy account minimum volume"
    else .ok () := by
  have nn : 0 ≤ group.leastVolume := Int.mul_nonneg group.minNonneg (Int.natCast_nonneg _)
  unfold checkTotal
  rw [if_neg (by omega), if_neg (by rw [List.isEmpty_iff]; exact group.nonempty)]
  split
  · by_cases large : I64.maximum < group.leastVolume
    · have out : ¬ I64.InRange group.leastVolume := fun inR => absurd inR.2 (not_le.mpr large)
      rw [if_pos large]
      unfold leastVolume at out
      rw [checkedI64_panics out]
      rfl
    · have inR : I64.InRange group.leastVolume := ⟨le_trans (by decide) nn, not_lt.mp large⟩
      rw [if_neg large]
      unfold leastVolume at inR ⊢
      rw [checkedI64_eq inR]
      rfl
  · rename_i noMinimum
    have none : group.leastVolume = 0 := by
      have zero : group.minVolumePerAccount = 0 := le_antisymm (not_lt.mp noMinimum) group.minNonneg
      rw [leastVolume, zero, Int.zero_mul]
    rw [none, if_neg (by decide), if_neg (by omega)]
    rfl

omit pos

theorem checkedWeights_eq (denominator : group.commonDenominator < 2 ^ 128)
    (fits : ∀ wt ∈ group.weights, wt < 2 ^ 128) :
    group.checkedWeights = .ok group.weights := by
  have product : product128 (group.accounts.map fun account =>
      account.ratio.denominator.toNat) = .ok group.commonDenominator := by
    rw [product128, foldlM_mul (by decide) (fun factor mem' => by
      obtain ⟨account, -, rfl⟩ := mem_map.mp mem'
      exact account.ratio.denominatorPos), Nat.one_mul]
    exact if_pos denominator
  rw [checkedWeights, product, ok_bind]
  exact mapM_eq_map fun account mem' => Checked.mul_eq (fits _ (mem_map_of_mem mem'))

theorem checkedWeights_panics (outs : ¬ (group.commonDenominator < 2 ^ 128 ∧
    ∀ wt ∈ group.weights, wt < 2 ^ 128)) :
    group.checkedWeights = .error .panicked := by
  have product : product128 (group.accounts.map fun account =>
      account.ratio.denominator.toNat) =
        if group.commonDenominator < 2 ^ 128 then .ok group.commonDenominator
        else .error .panicked := by
    rw [product128, foldlM_mul (by decide) (fun factor mem' => by
      obtain ⟨account, -, rfl⟩ := mem_map.mp mem'
      exact account.ratio.denominatorPos), Nat.one_mul]
    rfl
  rw [checkedWeights, product]
  split
  · rename_i denominator
    rw [ok_bind]
    obtain ⟨wt, mem', large⟩ : ∃ wt ∈ group.weights, ¬ wt < 2 ^ 128 := by
      by_contra none
      push Not at none
      exact outs ⟨denominator, none⟩
    obtain ⟨account, inGroup, rfl⟩ := mem_map.mp mem'
    refine mapM_panics (fun alt _ msg => ?_) inGroup (if_neg large)
    unfold Checked.mul
    split <;> nofun
  · rfl

theorem sum128_eq {terms : List Nat} : sum128 terms =
    if terms.sum < 2 ^ 128 then .ok terms.sum else .error .panicked := by
  rw [sum128, foldlM_add (by decide), Nat.zero_add]

theorem castI64_eq {word : Nat} (fits : word ≤ 9223372036854775807) : castI64 word = word := by
  unfold castI64
  rw [Int.bmod_def]
  split <;> omega

theorem quotientRows_eq (inR : I64.InRange totalVolume) (wts : group.weights.sum < 2 ^ 128)
    (weighted : ∀ wt ∈ group.weights, totalVolume.toNat * wt < 2 ^ 128) :
    quotientRows totalVolume group.weights = .ok (group.quotients totalVolume) := by
  have bnd := inR.2
  unfold I64.maximum at bnd
  rw [quotientRows, sum128_eq, if_pos wts, ok_bind]
  refine mapM_eq_map fun ent mem' => ?_
  have hit : ent.1 ∈ group.weights := fst_mem_of_mem_zipIdx mem'
  have small : totalVolume.toNat * ent.1 / group.weights.sum ≤ totalVolume.toNat := by
    refine Nat.div_le_of_le_mul ?_
    rw [Nat.mul_comm]
    exact Nat.mul_le_mul_right _ (group.weight_le_sum hit)
  rw [Checked.mul_eq (weighted _ hit), ok_bind, castI64_eq (by omega)]
  rfl

theorem quotientRows_panics (outs : ¬ (group.weights.sum < 2 ^ 128 ∧
    ∀ wt ∈ group.weights, totalVolume.toNat * wt < 2 ^ 128)) :
    quotientRows totalVolume group.weights = .error .panicked := by
  rw [quotientRows, sum128_eq]
  split
  · rename_i fits
    obtain ⟨wt, mem', large⟩ : ∃ wt ∈ group.weights,
        ¬ totalVolume.toNat * wt < 2 ^ 128 := by
      by_contra none
      push Not at none
      exact outs ⟨fits, none⟩
    obtain ⟨index, hit⟩ := mem_iff_getElem?.mp mem'
    have ent : (wt, index) ∈ group.weights.zipIdx := mem_zipIdx_iff_getElem?.mpr hit
    rw [ok_bind]
    refine mapM_panics (fun alt _ msg => ?_) ent ?_
    · unfold Checked.mul
      split <;> nofun
    · rw [Checked.mul, if_neg large]
      rfl
  · rfl

/-! ## Shares -/

variable (group totalVolume)

/-- What the quotients and the rest of the volume amount to. -/
theorem quotients_sum : ∃ vol : Nat,
    ((group.quotients totalVolume).map Row.volume).sum = vol ∧ vol ≤ totalVolume.toNat ∧
      (totalVolume.toNat - vol) * group.weights.sum =
        ((group.quotients totalVolume).map Row.remainder).sum :=
  Apportion.sum_quotients group.sum_weights_pos

theorem remainder_lt : ∀ row ∈ group.quotients totalVolume, row.remainder < group.weights.sum := by
  intro row mem'
  obtain ⟨wt, -, -, isRemainder⟩ := Apportion.mem_quotients.mp mem'
  rw [isRemainder]
  exact Nat.mod_lt _ group.sum_weights_pos

variable {group totalVolume}

include pos

theorem remaining_mul : group.remaining totalVolume * group.weights.sum =
    ((group.quotients totalVolume).map Row.remainder).sum := by
  obtain ⟨vol, isVolume, lt, isRest⟩ := group.quotients_sum totalVolume
  rw [remaining, isVolume, ← isRest]
  congr 1
  omega

theorem remaining_le : group.remaining totalVolume ≤ (group.quotients totalVolume).length :=
  Apportion.count_le_length (group.remainder_lt totalVolume) (remaining_mul pos)
    group.sum_weights_pos

theorem sum_settledRows : ((group.settledRows totalVolume).map Row.volume).sum = totalVolume := by
  obtain ⟨vol, isVolume, lt, -⟩ := group.quotients_sum totalVolume
  rw [settledRows, Apportion.sum_settled (remaining_le pos), remaining, isVolume]
  omega

omit pos

theorem index_settledRows : (group.settledRows totalVolume).map Row.index =
    range group.accounts.length := by
  rw [settledRows, quotients, Apportion.index_settled Apportion.distinct_quotients,
    Apportion.index_quotients, group.length_weights]

theorem length_settledRows : (group.settledRows totalVolume).length = group.accounts.length := by
  have same := congrArg length (@index_settledRows group totalVolume)
  rwa [length_map, length_range] at same

include pos

theorem mem_settledRows {row : Row} (mem' : row ∈ group.settledRows totalVolume) :
    ∃ quo ∈ group.quotients totalVolume, row = quo ∨
      (0 < quo.remainder ∧ row = quo.raised) := by
  rcases Apportion.mem_settled.mp mem' with ⟨quo, took, rfl⟩ | dropped
  · exact ⟨quo, Apportion.mem_ranked.mp (mem_of_mem_take took),
      .inr ⟨Apportion.remainder_pos (group.remainder_lt totalVolume) (remaining_mul pos)
        Apportion.distinct_quotients group.sum_weights_pos took, rfl⟩⟩
  · exact ⟨row, Apportion.mem_ranked.mp (mem_of_mem_drop dropped), .inl rfl⟩

theorem raised_le {row : Row} (mem' : row ∈ group.quotients totalVolume)
    (left : 0 < row.remainder) : 0 ≤ row.volume ∧ row.volume + 1 ≤ totalVolume := by
  obtain ⟨wt, hit, isVolume, isRemainder⟩ := Apportion.mem_quotients.mp mem'
  have lt := group.weight_le_sum (mem_of_getElem? hit)
  have less : totalVolume.toNat * wt / group.weights.sum < totalVolume.toNat := by
    refine Nat.div_lt_of_lt_mul ?_
    rcases lt.lt_or_eq with less | same
    · rw [Nat.mul_comm]
      exact Nat.mul_lt_mul_of_pos_right less (by omega)
    · rw [isRemainder, same, Nat.mul_mod_left] at left
      exact absurd left (lt_irrefl 0)
  rw [isVolume]
  exact ⟨Int.natCast_nonneg _, by omega⟩

theorem raisedRows_eq (inR : I64.InRange totalVolume) :
    raisedRows (group.remaining totalVolume) (group.quotients totalVolume) =
      .ok (Apportion.raise (group.remaining totalVolume)
        (Apportion.ranked (group.quotients totalVolume))) := by
  rw [raisedRows, mapM_eq_map fun row took => ?_, ok_bind]
  · rfl
  · have left := Apportion.remainder_pos (group.remainder_lt totalVolume) (remaining_mul pos)
      Apportion.distinct_quotients group.sum_weights_pos took
    obtain ⟨nn, lt⟩ := raised_le pos (Apportion.mem_ranked.mp (mem_of_mem_take took)) left
    rw [checkedI64_eq ⟨by unfold I64.minimum; omega, lt.trans inR.2⟩, ok_bind]
    rfl

omit pos in
theorem quotients_nonneg : ∀ row ∈ group.quotients totalVolume, 0 ≤ row.volume := by
  intro row mem'
  obtain ⟨wt, -, isVolume, -⟩ := Apportion.mem_quotients.mp mem'
  rw [isVolume]
  exact Int.natCast_nonneg _

/-! ## Where the words are wide enough -/

omit pos in
theorem mapM_index {accs : List AccountAllocation} {lo : Nat} {rows : List Row}
    (inOrd : rows.map Row.index = range' lo accs.length)
    (lie : ∀ index, group.accounts[lo + index]? = accs[index]?) :
    (rows.mapM fun row => do
      let account ← Checked.index group.accounts row.index
      return (⟨account.accountId, row.volume⟩ : AllocatedAccountOrder)) =
        (.ok (zipWith (fun account row => ⟨account.accountId, row.volume⟩) accs rows) :
          Outcome (List AllocatedAccountOrder)) := by
  induction accs generalizing lo rows with
  | nil =>
    obtain rfl := map_eq_nil_iff.mp inOrd
    rfl
  | cons account accs ih =>
    cases rows with
    | nil => cases inOrd
    | cons row rows =>
      rw [map_cons, length_cons, range'_succ] at inOrd
      obtain ⟨fst, inOrd⟩ := cons.inj inOrd
      have hit : Checked.index group.accounts row.index =
          (.ok account : Outcome AccountAllocation) := by
        rw [Checked.index, fst, show group.accounts[lo]? = some account from lie 0]
        rfl
      rw [mapM_cons, hit, ih inOrd fun index => by
        rw [Nat.add_right_comm, Nat.add_assoc]
        exact lie (index + 1)]
      rfl

/-- The allocation that does not leave its words is the plan. -/
theorem allocate_eq_lift (inR : I64.InRange totalVolume) (fits : group.Fits totalVolume) :
    group.allocate totalVolume = Checked.lift (group.plan totalVolume) := by
  obtain ⟨vol, isVolume, lt, -⟩ := group.quotients_sum totalVolume
  have bnd := inR.2
  rw [allocate, checkTotal_eq pos, if_neg (not_lt.mpr fits.least), plan]
  split
  · rfl
  rename_i room
  have weightsFit := fits.weights (not_lt.mp room)
  have weightFits : ∀ wt ∈ group.weights, wt < 2 ^ 128 := fun wt mem' =>
    (group.weight_le_sum mem').trans_lt weightsFit
  have sum : sumI64 ((group.quotients totalVolume).map Row.volume) = .ok (vol : Int) := by
    rw [sumI64, foldlM_checkedI64 le_rfl ?_ (by rw [isVolume]; omega), isVolume, Int.zero_add]
    intro term mem'
    obtain ⟨row, inRows, rfl⟩ := mem_map.mp mem'
    exact quotients_nonneg row inRows
  have rest : (max (totalVolume - vol) 0).toNat = group.remaining totalVolume := by
    rw [remaining, isVolume]
    omega
  rw [ok_bind, checkedWeights_eq (fits.denominator (not_lt.mp room)) weightFits,
    ok_bind, quotientRows_eq inR weightsFit (fits.weighted (not_lt.mp room)),
    ok_bind, sum, ok_bind,
    checkedI64_eq ⟨by unfold I64.minimum; omega, by omega⟩, ok_bind, rest,
    raisedRows_eq pos inR, ok_bind]
  have isSettled : Apportion.inOrder (Apportion.raise (group.remaining totalVolume)
      (Apportion.ranked (group.quotients totalVolume))) = group.settledRows totalVolume := rfl
  dsimp only
  rw [isSettled]
  split
  · rfl
  · rw [mapM_index (index_settledRows.trans range_eq_range') fun index => by
      rw [Nat.zero_add]]
    rfl

omit pos in
theorem Fits.of_not_panicked (pos : 0 < totalVolume)
    (noPanic : group.allocate totalVolume ≠ .error .panicked) : group.Fits totalVolume := by
  rw [allocate, checkTotal_eq pos] at noPanic
  split at noPanic
  · exact absurd rfl noPanic
  rename_i low
  split at noPanic
  · rename_i few
    have none {p : Prop} (enough : group.leastVolume ≤ totalVolume) : p :=
      absurd enough (not_le.mpr few)
    exact ⟨not_lt.mp low, none, none, none⟩
  rw [ok_bind] at noPanic
  by_cases denominators : group.commonDenominator < 2 ^ 128 ∧
      ∀ weight ∈ group.weights, weight < 2 ^ 128
  · rw [checkedWeights_eq denominators.1 denominators.2, ok_bind] at noPanic
    by_cases wide : group.weights.sum < 2 ^ 128 ∧
        ∀ weight ∈ group.weights, totalVolume.toNat * weight < 2 ^ 128
    · exact ⟨not_lt.mp low, fun _ => denominators.1, fun _ => wide.1, fun _ => wide.2⟩
    · rw [quotientRows_panics wide] at noPanic
      exact absurd rfl noPanic
  · rw [checkedWeights_panics denominators] at noPanic
    exact absurd rfl noPanic

end AccountGroup

/-! ## What is allocated -/

def Ratio.value (ratio : Ratio) : ℚ := ratio.numerator.toNat / ratio.denominator.toNat

namespace AccountGroup

variable (group : AccountGroup) (totalVolume : Int)

/-- The part of the volume that the ratio of an account gives it. -/
def share (account : AccountAllocation) : ℚ :=
  totalVolume * account.ratio.value /
    (group.accounts.map fun account => account.ratio.value).sum

/-- What an allocation is to be. -/
structure Allocates (orders : List AllocatedAccountOrder) : Prop where
  accounts : orders.map AllocatedAccountOrder.accountId =
    group.accounts.map AccountAllocation.accountId
  sum : (orders.map AllocatedAccountOrder.volume).sum = totalVolume
  rounded : ∀ (index : Nat) (account : AccountAllocation) (order : AllocatedAccountOrder),
    group.accounts[index]? = some account → orders[index]? = some order →
    order.volume = ⌊group.share totalVolume account⌋ ∨
      order.volume = ⌈group.share totalVolume account⌉
  least : ∀ order ∈ orders, group.minVolumePerAccount ≤ order.volume
  priority : ∀ (left right : Nat) (leftAccount rightAccount : AccountAllocation)
    (leftOrder rightOrder : AllocatedAccountOrder),
    group.accounts[left]? = some leftAccount → group.accounts[right]? = some rightAccount →
    orders[left]? = some leftOrder → orders[right]? = some rightOrder →
    (Int.fract (group.share totalVolume rightAccount) <
        Int.fract (group.share totalVolume leftAccount) ∨
      (Int.fract (group.share totalVolume leftAccount) =
        Int.fract (group.share totalVolume rightAccount) ∧ left < right)) →
    rightOrder.volume = ⌊group.share totalVolume rightAccount⌋ + 1 →
      leftOrder.volume = ⌊group.share totalVolume leftAccount⌋ + 1

variable {group totalVolume}

variable {account : AccountAllocation} {index : Nat}

theorem cast_weight (mem' : account ∈ group.accounts) :
    (group.weight account : ℚ) = account.ratio.value * group.commonDenominator := by
  have pos : (account.ratio.denominator.toNat : ℚ) ≠ 0 :=
    Nat.cast_ne_zero.mpr account.ratio.denominatorPos.ne'
  rw [weight, Nat.cast_mul, Nat.cast_div (group.denominator_dvd mem') pos, Ratio.value]
  ring

theorem cast_sum_weights : (group.weights.sum : ℚ) =
    (group.accounts.map fun account => account.ratio.value).sum * group.commonDenominator := by
  have ps (accs : List AccountAllocation) (inside : accs ⊆ group.accounts) :
      ((accs.map group.weight).sum : ℚ) =
        (accs.map fun account => account.ratio.value).sum * group.commonDenominator := by
    induction accs with
    | nil => simp
    | cons account accs ih =>
      rw [map_cons, sum_cons, Nat.cast_add, map_cons, sum_cons, add_mul,
        cast_weight (inside mem_cons_self),
        ih fun alt mem' => inside (mem_cons_of_mem _ mem')]
  exact ps group.accounts fun _ mem' => mem'

section

variable (pos : 0 < totalVolume) (mem' : account ∈ group.accounts)

include pos mem'

theorem share_eq :
    group.share totalVolume account =
      ((totalVolume.toNat * group.weight account : Nat) : ℚ) / (group.weights.sum : Nat) := by
  have common : (group.commonDenominator : ℚ) ≠ 0 := Nat.cast_ne_zero.mpr group.common_pos.ne'
  have vol : ((totalVolume.toNat : Nat) : ℚ) = totalVolume := by
    rw [← Int.cast_natCast, Int.toNat_of_nonneg pos.le]
  rw [share, Nat.cast_mul, cast_weight mem', cast_sum_weights, vol, ← mul_assoc,
    mul_div_mul_right _ _ common]

theorem floor_share :
    ⌊group.share totalVolume account⌋ =
      (totalVolume.toNat * group.weight account / group.weights.sum : Nat) := by
  rw [share_eq pos mem', Rat.floor_natCast_div_natCast, Int.natCast_ediv]

theorem fract_share :
    Int.fract (group.share totalVolume account) =
      (totalVolume.toNat * group.weight account % group.weights.sum : Nat) /
        (group.weights.sum : ℚ) := by
  rw [share_eq pos mem', Int.fract_div_natCast_eq_div_natCast_mod]

end

theorem settledRows_getElem? {row : Row} :
    (group.settledRows totalVolume)[index]? = some row ↔
      row ∈ group.settledRows totalVolume ∧ row.index = index := by
  have place {index : Nat} {row : Row}
      (hit : (group.settledRows totalVolume)[index]? = some row) : row.index = index := by
    have isIndex := congrArg (Option.map Row.index) hit
    rw [← getElem?_map, index_settledRows, getElem?_range] at isIndex
    · exact (Option.some.inj isIndex).symm
    · have mem := (List.getElem?_eq_some_iff.mp hit).1
      rwa [length_settledRows] at mem
  constructor
  · exact fun hit => ⟨mem_of_getElem? hit, place hit⟩
  · rintro ⟨mem', rfl⟩
    obtain ⟨index, hit⟩ := mem_iff_getElem?.mp mem'
    rwa [place hit]

/-- What an account gets. -/
structure Gets (group : AccountGroup) (totalVolume : Int) (index : Nat)
    (account : AccountAllocation) (quotient : Row) : Prop where
  member : quotient ∈ group.quotients totalVolume
  index_eq : quotient.index = index
  floor : ⌊group.share totalVolume account⌋ = quotient.volume
  fract : Int.fract (group.share totalVolume account) =
    quotient.remainder / (group.weights.sum : ℚ)

theorem gets_of_getElem? (pos : 0 < totalVolume) (hit : group.accounts[index]? = some account) :
    ∃ quo, group.Gets totalVolume index account quo := by
  have mem' := mem_of_getElem? hit
  have weightFound : group.weights[index]? = some (group.weight account) := by
    rw [weights, getElem?_map, hit]
    rfl
  refine ⟨⟨index, (totalVolume.toNat * group.weight account / group.weights.sum : Nat),
    totalVolume.toNat * group.weight account % group.weights.sum⟩,
    Apportion.mem_quotients.mpr ⟨_, weightFound, rfl, rfl⟩, rfl, ?_, ?_⟩
  · exact floor_share pos mem'
  · exact fract_share pos mem'

/-- The quotient of an account is raised, and then has a remainder, or kept. -/
theorem Gets.cases {quo row : Row} (gets : group.Gets totalVolume index account quo)
    (pos : 0 < totalVolume) (hit : (group.settledRows totalVolume)[index]? = some row) :
    row = quo ∨ (0 < quo.remainder ∧ row = quo.raised) := by
  obtain ⟨mem', isIndex⟩ := settledRows_getElem?.mp hit
  obtain ⟨alt, inRows, cases⟩ := mem_settledRows pos mem'
  have same : alt.index = quo.index := by
    rw [gets.index_eq, ← isIndex]
    rcases cases with rfl | ⟨-, rfl⟩ <;> rfl
  rwa [Neighbours.eq_of_key_eq Apportion.distinct_quotients inRows gets.member same] at cases

theorem Gets.priority_lt {left right : Nat} {leftAccount rightAccount : AccountAllocation}
    {leftRow rightRow : Row} (leftGets : group.Gets totalVolume left leftAccount leftRow)
    (rightGets : group.Gets totalVolume right rightAccount rightRow)
    (pre : Int.fract (group.share totalVolume rightAccount) <
        Int.fract (group.share totalVolume leftAccount) ∨
      (Int.fract (group.share totalVolume leftAccount) =
        Int.fract (group.share totalVolume rightAccount) ∧ left < right)) :
    leftRow.priority < rightRow.priority := by
  have all : (0 : ℚ) < group.weights.sum := Nat.cast_pos.mpr group.sum_weights_pos
  rw [leftGets.fract, rightGets.fract, div_lt_div_iff_of_pos_right all,
    div_left_inj' all.ne', Nat.cast_lt, Nat.cast_inj] at pre
  rw [Apportion.Row.priority_lt_iff, leftGets.index_eq, rightGets.index_eq]
  exact pre

theorem map_zipWith {accs : List AccountAllocation} {rows : List Row}
    (long : accs.length = rows.length) :
    let orders := zipWith (fun account row => (⟨account.accountId, row.volume⟩ :
      AllocatedAccountOrder)) accs rows
    orders.map AllocatedAccountOrder.accountId = accs.map AccountAllocation.accountId ∧
      orders.map AllocatedAccountOrder.volume = rows.map Row.volume := by
  induction accs generalizing rows with
  | nil =>
    obtain rfl := length_eq_zero_iff.mp long.symm
    exact ⟨rfl, rfl⟩
  | cons account accs ih =>
    cases rows with
    | nil => cases long
    | cons row rows =>
      obtain ⟨ids, volumes⟩ := ih (Nat.succ.inj long)
      exact ⟨congrArg (account.accountId :: ·) ids, congrArg (row.volume :: ·) volumes⟩

/-- The plan shares the volume by largest remainders. -/
theorem allocates_of_plan (pos : 0 < totalVolume) {ords : List AllocatedAccountOrder}
    (ok : group.plan totalVolume = .ok ords) : group.Allocates totalVolume ords := by
  unfold plan at ok
  split at ok
  · cases ok
  split at ok
  · cases ok
  rename_i reaches
  obtain rfl := Except.ok.inj ok
  have long : group.accounts.length = (group.settledRows totalVolume).length :=
    length_settledRows.symm
  have order {index : Nat} {account : AccountAllocation} {order : AllocatedAccountOrder}
      (hit : group.accounts[index]? = some account)
      (ord : (zipWith (fun account row => (⟨account.accountId, row.volume⟩ :
        AllocatedAccountOrder)) group.accounts (group.settledRows totalVolume))[index]? =
          some order) : ∃ row, (group.settledRows totalVolume)[index]? = some row ∧
        order.volume = row.volume := by
    obtain ⟨alt, row, -, isRow, rfl⟩ := getElem?_zipWith_eq_some.mp ord
    exact ⟨row, isRow, rfl⟩
  obtain ⟨ids, volumes⟩ := map_zipWith long
  refine ⟨ids, by rw [volumes]; exact sum_settledRows pos, ?_, ?_, ?_⟩
  · intro index account order' hit ord
    obtain ⟨row, isRow, isVolume⟩ := order hit ord
    obtain ⟨quo, gets⟩ := gets_of_getElem? pos hit
    rw [isVolume]
    rcases gets.cases pos isRow with rfl | ⟨left, rfl⟩
    · exact .inl gets.floor.symm
    · have all : (0 : ℚ) < group.weights.sum := Nat.cast_pos.mpr group.sum_weights_pos
      have some : Int.fract (group.share totalVolume account) ≠ 0 := by
        rw [gets.fract]
        exact (div_pos (Nat.cast_pos.mpr left) all).ne'
      refine .inr ?_
      rw [(Int.ceil_eq_floor_add_one_iff_notMem _).mpr fun ⟨val, isValue⟩ => some (by
        rw [← isValue, Int.fract_intCast]), gets.floor]
      rfl
  · intro order' mem'
    have vol : order'.volume ∈ (group.settledRows totalVolume).map Row.volume := by
      rw [← volumes]
      exact mem_map_of_mem mem'
    obtain ⟨row, inRows, isVolume⟩ := mem_map.mp vol
    rw [← isVolume]
    by_cases low : 0 < group.minVolumePerAccount
    · refine not_lt.mp fun less => reaches ⟨low, any_eq_true.mpr ⟨row, inRows, ?_⟩⟩
      exact decide_eq_true less
    · obtain ⟨quo, inQuotients, cases⟩ := mem_settledRows pos inRows
      have nn := quotients_nonneg quo inQuotients
      rcases cases with rfl | ⟨-, rfl⟩
      · omega
      · dsimp only [Apportion.Row.raised]
        omega
  · intro left right leftAccount rightAccount leftOrder rightOrder leftFound rightFound
      leftOrdered rightOrdered before raised
    obtain ⟨leftRow, isLeft, leftVolume⟩ := order leftFound leftOrdered
    obtain ⟨rightRow, isRight, rightVolume⟩ := order rightFound rightOrdered
    obtain ⟨leftQuotient, leftGets⟩ := gets_of_getElem? pos leftFound
    obtain ⟨rightQuotient, rightGets⟩ := gets_of_getElem? pos rightFound
    rw [rightVolume, rightGets.floor] at raised
    rw [leftVolume, leftGets.floor]
    have rightRaised : rightQuotient.raised ∈ group.settledRows totalVolume := by
      rcases rightGets.cases pos isRight with rfl | ⟨-, rfl⟩
      · omega
      · exact (settledRows_getElem?.mp isRight).1
    have leftRaised : leftQuotient.raised ∈ group.settledRows totalVolume :=
      Apportion.raised_of_priority Apportion.distinct_quotients leftGets.member rightGets.member
        (leftGets.priority_lt rightGets before) rightRaised
    have same := settledRows_getElem?.mpr ⟨leftRaised, leftGets.index_eq⟩
    rw [isLeft] at same
    rw [Option.some.inj same]
    rfl

/-- An allocation is right, and leaves no word, where its words are wide enough. -/
theorem allocates_iff (inRange : I64.InRange totalVolume) (pos : 0 < totalVolume) :
    (group.allocate totalVolume ≠ .error .panicked ∧ ∀ orders,
      group.allocate totalVolume = .ok orders → group.Allocates totalVolume orders) ↔
      group.Fits totalVolume := by
  constructor
  · exact fun ⟨noPanic, _⟩ => .of_not_panicked pos noPanic
  · intro fits
    rw [allocate_eq_lift pos inRange fits]
    exact ⟨Checked.lift_ne_panicked _, fun orders ok =>
      allocates_of_plan pos (Checked.lift_eq_ok.mp ok)⟩

/-- Two accounts with a half and a third share ten. -/
theorem allocates_iff_ten : ∃ group : AccountGroup, group.accounts.length = 2 ∧
    group.allocate 10 ≠ .error .panicked ∧ ∀ orders,
      group.allocate 10 = .ok orders → group.Allocates 10 orders :=
  ⟨⟨[⟨"first", ⟨1, 2, by decide, by decide⟩⟩, ⟨"second", ⟨1, 3, by decide, by decide⟩⟩], 1,
    cons_ne_nil _ _, by decide, by decide, by decide⟩, rfl,
    (allocates_iff (by decide) (by decide)).mpr
      ⟨by decide, by decide, by decide, by decide⟩⟩

/-- Five accounts with a denominator of 2 ^ 31 each have no common denominator of 128 bits. -/
theorem allocate_panics : ∃ group : AccountGroup, AccountGroupBuilder.build
    ⟨["a", "b", "c", "d", "e"].map fun accountId =>
      ⟨accountId, ⟨1, 2147483648, by decide, by decide⟩⟩, 0⟩ = .ok group ∧
    group.allocate 10 = .error .panicked :=
  ⟨_, rfl, by
    by_contra noPanic
    exact absurd ((Fits.of_not_panicked (by decide) noPanic).denominator (by decide)) (by decide)⟩

end AccountGroup

end Tqsdk
