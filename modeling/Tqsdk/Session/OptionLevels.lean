import Mathlib.Algebra.Order.Group.Unbundled.Abs
import Mathlib.Algebra.Order.Ring.Unbundled.Rat
import Mathlib.Data.List.GetD
import Mathlib.Tactic.Linarith
import Tqsdk.Task.SimHost

/-!
# Option levels

The metadata decoder sorts the candidates by expiry and then by strike, and bisects the strikes
for the at-money option.  Its levels are right at every price exactly when no option has a higher
strike than one that expires after it.
-/

namespace Tqsdk

open List

/-! ## Candidates -/

structure OptionNode where
  instrumentId : String
  englishName : String
  callOrPut : String
  strikePrice : ℚ
  expired : Bool
  lastExerciseDatetime : Int
  exerciseYear : Int
  exerciseMonth : Int
  deriving DecidableEq

structure OptionLevelQuotes where
  inMoney : List String := []
  atMoney : List String := []
  outOfMoney : List String := []
  deriving DecidableEq

namespace MetadataSymbolDecoder

section Payload

variable (fromTimestamp : Int → Int → Option (Int × Int))

/-- The year and the month of a time; the cast of the nanoseconds to `u32` wraps. -/
def timestampNanoToDatetime (value : Int) : Option (Int × Int) :=
  fromTimestamp (value.tdiv 1000000000) (value.tmod 1000000000 % 2 ^ 32)

def parseOptionNode (edge : Value) : Option OptionNode := do
  let node ← (edge.get "node").bind Value.asObject
  let instrumentId ← (OrdMap.get? "instrument_id" node).bind Value.asStr
  let callOrPut ← (OrdMap.get? "call_or_put" node).bind Value.asStr
  let strikePrice ← (OrdMap.get? "strike_price" node).bind Value.asF64
  let lastExerciseDatetime ← (OrdMap.get? "last_exercise_datetime" node).bind Value.asI64
  let (exerciseYear, exerciseMonth) ← timestampNanoToDatetime fromTimestamp lastExerciseDatetime
  return {
    instrumentId, callOrPut, strikePrice, lastExerciseDatetime, exerciseYear, exerciseMonth
    englishName := ((OrdMap.get? "english_name" node).bind Value.asStr).getD ""
    expired := ((OrdMap.get? "expired" node).bind Value.asBool).getD false }

def parseOptionNodes (payload : Value) : List OptionNode :=
  let symbols := ((payload.get "result").bind (Value.get "multi_symbol_info")).bind Value.asArray
  (symbols.getD []).flatMap fun symbol =>
    let edges := ((symbol.get "derivatives").bind (Value.get "edges")).bind Value.asArray
    (edges.getD []).filterMap (parseOptionNode fromTimestamp)

end Payload

def filterOptionNodes (options : List OptionNode) (optionClass : Option String)
    (exerciseYear exerciseMonth : Option Int) (hasA : Option Bool) (nearbys : Option (List Int)) :
    List OptionNode :=
  let filtered := options.filter fun option =>
    optionClass.all (option.callOrPut == ·) &&
    hasA.all (decide (0 < option.englishName.toList.count 'A') == ·) &&
    exerciseYear.all (option.exerciseYear == ·) && exerciseMonth.all (option.exerciseMonth == ·)
  match nearbys with
  | none => filtered
  | some nearbys =>
    let filtered := filtered.filter fun option => !option.expired
    let expiries :=
      ((filtered.map OptionNode.lastExerciseDatetime).insertionSort (· ≤ ·)).eraseReps
    -- a negative index is cast to one behind every list
    let selected := nearbys.filterMap fun index =>
      if 0 ≤ index then expiries[index.toNat]? else none
    filtered.filter fun option => decide (option.lastExerciseDatetime ∈ selected)

theorem filterOptionNodes_sublist (options : List OptionNode) (cls : Option String)
    (year mo : Option Int) (hasA : Option Bool) (nearbys : Option (List Int)) :
    (filterOptionNodes options cls year mo hasA nearbys).Sublist
      options := by
  cases nearbys with
  | none => exact filter_sublist
  | some nearbys => exact filter_sublist.trans (filter_sublist.trans filter_sublist)

/-! ## Bisection -/

/-- `slice::partition_point` of `value <= target`, which is unspecified on values of which some
above the target stand before others. -/
structure PartitionPoint where
  point : List ℚ → ℚ → Nat
  le_length : ∀ values target, point values target ≤ values.length
  split : ∀ low high target, (∀ value ∈ low, value ≤ target) → (∀ value ∈ high, target < value) →
    point (low ++ high) target = low.length

inductive BisectPriority
  | left | right

/-- The order of the candidates. -/
def Before (left right : OptionNode) : Prop :=
  left.lastExerciseDatetime < right.lastExerciseDatetime ∨
    left.lastExerciseDatetime = right.lastExerciseDatetime ∧ left.strikePrice ≤ right.strikePrice
  deriving Decidable

variable (slice : PartitionPoint)

def bisectValueIndex (values : List ℚ) (target : ℚ) (priority : BisectPriority) : Nat :=
  let insertIndex := slice.point values target
  if 0 < insertIndex ∧ insertIndex < values.length then
    let leftDistance := target - values.getD (insertIndex - 1) 0
    let rightDistance := values.getD insertIndex 0 - target
    if leftDistance = rightDistance then
      match priority with
      | .left => insertIndex - 1
      | .right => insertIndex
    else if leftDistance < rightDistance then insertIndex - 1
    else insertIndex
  else if insertIndex = 0 then 0
  else values.length - 1

/-- The sorted candidates with the place of the at-money one. -/
def sortOptionsAndGetAtmIndex (options : List OptionNode) (underlyingPrice : ℚ)
    (optionClass : String) : Except String (List OptionNode × Nat) :=
  if options = [] then .error "options must not be empty"
  else
    let options := options.insertionSort Before
    let strikes := options.map OptionNode.strikePrice
    let atmIndex := bisectValueIndex slice strikes underlyingPrice
      (if optionClass = "CALL" then .right else .left)
    match options.find? fun option => option.strikePrice = strikes.getD atmIndex 0 with
    | none => .error "failed to locate ATM option instrument"
    | some atm =>
      let options := if optionClass = "PUT" then
          options.insertionSort fun left right => right.strikePrice ≤ left.strikePrice
        else options
      match options.findIdx? fun option => option.instrumentId = atm.instrumentId with
      | none => .error "failed to locate ATM option index"
      | some index => .ok (options, index)

def optionLevelsFromNodes (nodes : List OptionNode) (underlyingPrice : ℚ) (optionClass : String) :
    Except String OptionLevelQuotes :=
  if nodes = [] then .ok {}
  else
    (sortOptionsAndGetAtmIndex slice nodes underlyingPrice optionClass).map fun (nodes, atmIndex) =>
      ⟨(nodes.take atmIndex).map OptionNode.instrumentId,
        nodes[atmIndex]?.toList.map OptionNode.instrumentId,
        (nodes.drop (atmIndex + 1)).map OptionNode.instrumentId⟩

/-! ## Queries -/

structure AllLevelOptionQuery where
  underlyingPrice : ℚ
  optionClass : String
  exerciseYear : Option Int
  exerciseMonth : Option Int
  hasA : Option Bool

structure AtmOptionQuery extends AllLevelOptionQuery where
  priceLevels : List Int

structure FinanceOptionLevelQuery where
  underlyingPrice : ℚ
  optionClass : String
  nearbys : List Int
  hasA : Option Bool

variable (fromTimestamp : Int → Int → Option (Int × Int))

def filteredOptionNodes (payload : Value) (optionClass : Option String)
    (exerciseYear exerciseMonth : Option Int) (hasA : Option Bool) (nearbys : Option (List Int)) :
    List OptionNode :=
  filterOptionNodes (parseOptionNodes fromTimestamp payload) optionClass exerciseYear
    exerciseMonth hasA nearbys

def decodeOptionLevels (payload : Value) (query : AllLevelOptionQuery) :
    Except String OptionLevelQuotes :=
  optionLevelsFromNodes slice
    (filteredOptionNodes fromTimestamp payload (some query.optionClass) query.exerciseYear
      query.exerciseMonth query.hasA none)
    query.underlyingPrice query.optionClass

def decodeFinanceOptionLevels (payload : Value) (query : FinanceOptionLevelQuery) :
    Except String OptionLevelQuotes :=
  optionLevelsFromNodes slice
    (filteredOptionNodes fromTimestamp payload (some query.optionClass) none none query.hasA
      (some query.nearbys))
    query.underlyingPrice query.optionClass

def decodeAtmOptions (payload : Value) (query : AtmOptionQuery) :
    Except String (List (Option String)) :=
  let nodes := filteredOptionNodes fromTimestamp payload (some query.optionClass)
    query.exerciseYear query.exerciseMonth query.hasA none
  if nodes = [] then .ok (query.priceLevels.map fun _ => none)
  else
    (sortOptionsAndGetAtmIndex slice nodes query.underlyingPrice query.optionClass).map
      fun (nodes, atmIndex) => query.priceLevels.map fun priceLevel =>
        let index := (atmIndex : Int) - priceLevel
        if 0 ≤ index then nodes[index.toNat]?.map OptionNode.instrumentId else none

end MetadataSymbolDecoder

/-! ## What the levels are for -/

inductive OptionClass
  | call | put
  deriving DecidableEq

namespace OptionClass

def asStr : OptionClass → String
  | .call => "CALL"
  | .put => "PUT"

/-- The first strike is at least as far in the money as the second one. -/
def Inside : OptionClass → ℚ → ℚ → Prop
  | .call, left, right => left ≤ right
  | .put, left, right => right ≤ left

instance : (optionClass : OptionClass) → DecidableRel optionClass.Inside
  | .call => fun left right => inferInstanceAs (Decidable (left ≤ right))
  | .put => fun left right => inferInstanceAs (Decidable (right ≤ left))

/-- No value is nearer to the target, and one that is as near is further in the money. -/
def Nearest (optionClass : OptionClass) (target atm : ℚ) (values : List ℚ) : Prop :=
  ∀ value ∈ values, |atm - target| ≤ |value - target| ∧
    (|atm - target| = |value - target| → optionClass.Inside value atm)
  deriving Decidable

end OptionClass

/-- The levels partition the options: one with a nearest strike is at the money, and the others
are on their sides of it. -/
structure OptionLevelQuotes.Right (levels : OptionLevelQuotes) (optionClass : OptionClass)
    (underlyingPrice : ℚ) (nodes : List OptionNode) : Prop where
  all : (levels.inMoney ++ levels.atMoney ++ levels.outOfMoney).Perm
    (nodes.map OptionNode.instrumentId)
  one : nodes ≠ [] → levels.atMoney.length = 1
  sides : ∀ atm ∈ nodes, atm.instrumentId ∈ levels.atMoney →
    optionClass.Nearest underlyingPrice atm.strikePrice (nodes.map OptionNode.strikePrice) ∧
    ∀ node ∈ nodes,
      (node.instrumentId ∈ levels.inMoney →
        optionClass.Inside node.strikePrice atm.strikePrice) ∧
      (node.instrumentId ∈ levels.outOfMoney →
        optionClass.Inside atm.strikePrice node.strikePrice)

/-- The option so many places towards the money. -/
def OptionLevelQuotes.towards (levels : OptionLevelQuotes) (priceLevel : Int) : Option String :=
  let index := (levels.inMoney.length : Int) - priceLevel
  if 0 ≤ index then (levels.inMoney ++ levels.atMoney ++ levels.outOfMoney)[index.toNat]? else none

def StrikesFollowExpiries (options : List OptionNode) : Prop :=
  ∀ left ∈ options, ∀ right ∈ options,
    left.lastExerciseDatetime < right.lastExerciseDatetime → left.strikePrice ≤ right.strikePrice

namespace MetadataSymbolDecoder

theorem pairwise_before (options : List OptionNode) :
    (options.insertionSort Before).Pairwise Before := by
  have total : Std.Total Before := by
    refine ⟨fun left right => ?_⟩
    rcases lt_trichotomy left.lastExerciseDatetime right.lastExerciseDatetime with
      less | same | more
    · exact .inl (.inl less)
    · exact (le_total left.strikePrice right.strikePrice).imp (.inr ⟨same, ·⟩) (.inr ⟨same.symm, ·⟩)
    · exact .inr (.inl more)
  have trans : IsTrans OptionNode Before := by
    refine ⟨?_⟩
    rintro hd snd third (less | ⟨same, le⟩) (less' | ⟨same', le'⟩)
    · exact .inl (less.trans less')
    · exact .inl (same' ▸ less)
    · exact .inl (same ▸ less')
    · exact .inr ⟨same.trans same', le.trans le'⟩
  exact pairwise_insertionSort Before options

/-- The strikes that the decoder bisects. -/
def strikes (options : List OptionNode) : List ℚ :=
  (options.insertionSort Before).map OptionNode.strikePrice

theorem strikesFollowExpiries_iff (options : List OptionNode) :
    StrikesFollowExpiries options ↔ (strikes options).Pairwise (· ≤ ·) := by
  have srt := pairwise_before options
  have mem {option} : option ∈ options.insertionSort Before ↔ option ∈ options :=
    mem_insertionSort _
  rw [strikes, pairwise_map]
  constructor
  · intro follow
    refine srt.imp_of_mem fun leftIn rightIn pre => ?_
    rcases pre with less | ⟨-, le⟩
    · exact follow _ (mem.mp leftIn) _ (mem.mp rightIn) less
    · exact le
  · intro strikes left leftIn right rightIn less
    have forward : (options.insertionSort Before).Pairwise fun left right =>
        left.lastExerciseDatetime < right.lastExerciseDatetime →
          left.strikePrice ≤ right.strikePrice := by
      refine strikes.imp ?_
      exact fun le _ => le
    refine forward.forall_of_forall_of_flip (fun _ _ _ => le_rfl) (srt.imp ?_)
      (mem.mpr leftIn) (mem.mpr rightIn) less
    rintro left right (less | ⟨same, -⟩) more
    · exact absurd more (lt_asymm less)
    · exact absurd same.symm more.ne

/-! ## Bisecting sorted strikes -/

theorem split_sorted (target : ℚ) {values : List ℚ} (sorted : values.Pairwise (· ≤ ·)) :
    ∃ low high, values = low ++ high ∧ (∀ value ∈ low, value ≤ target) ∧
      ∀ value ∈ high, target < value := by
  induction values with
  | nil => exact ⟨[], [], rfl, nofun, nofun⟩
  | cons value rest ih =>
    obtain ⟨least, sorted⟩ := pairwise_cons.mp sorted
    by_cases low : value ≤ target
    · obtain ⟨lows, highs, rfl, lt, above⟩ := ih sorted
      exact ⟨value :: lows, highs, rfl, forall_mem_cons.mpr ⟨low, lt⟩, above⟩
    · have high := not_le.mp low
      exact ⟨[], value :: rest, rfl, nofun,
        forall_mem_cons.mpr ⟨high, fun alt mem => high.trans_le (least alt mem)⟩⟩

section Distances

variable {cls : OptionClass} {target value atm : ℚ} {values : List ℚ}

theorem distance_above (above : target ≤ value) : |value - target| = value - target :=
  abs_of_nonneg (sub_nonneg.mpr above)

theorem distance_below (less : value ≤ target) : |value - target| = target - value := by
  rw [abs_of_nonpos (sub_nonpos.mpr less), neg_sub]

theorem inside_self : cls.Inside atm atm := by
  cases cls <;> exact le_refl atm

theorem nearest_below (below : atm ≤ target)
    (others : ∀ value ∈ values, value ≤ atm ∨ target < value ∧ (target - atm < value - target ∨
      target - atm = value - target ∧ cls = .put)) :
    cls.Nearest target atm values := by
  intro value mem
  rw [distance_below below]
  rcases others value mem with le | ⟨above, less | ⟨same, rfl⟩⟩
  · rw [distance_below (le.trans below)]
    refine ⟨by linarith, fun tie => ?_⟩
    rw [show value = atm by linarith]
    exact inside_self
  · rw [distance_above above.le]
    exact ⟨less.le, fun tie => absurd tie less.ne⟩
  · rw [distance_above above.le]
    exact ⟨same.le, fun _ => below.trans above.le⟩

theorem nearest_above (above : target < atm)
    (others : ∀ value ∈ values, atm ≤ value ∨ value ≤ target ∧ (atm - target < target - value ∨
      atm - target = target - value ∧ cls = .call)) :
    cls.Nearest target atm values := by
  intro value mem
  rw [distance_above above.le]
  rcases others value mem with le | ⟨lt, less | ⟨same, rfl⟩⟩
  · rw [distance_above (above.le.trans le)]
    refine ⟨by linarith, fun tie => ?_⟩
    rw [show value = atm by linarith]
    exact inside_self
  · rw [distance_below lt]
    exact ⟨less.le, fun tie => absurd tie less.ne⟩
  · rw [distance_below lt]
    exact ⟨same.le, fun _ => lt.trans above.le⟩

end Distances

/-- On sorted strikes the bisection finds a nearest one. -/
theorem bisect_nearest (slice : PartitionPoint) (cls : OptionClass) (target : ℚ)
    {values : List ℚ} (sorted : values.Pairwise (· ≤ ·)) (some_ : values ≠ []) :
    cls.Nearest target (values.getD (bisectValueIndex slice values target
      (if cls.asStr = "CALL" then .right else .left)) 0) values := by
  obtain ⟨low, high, rfl, lt, above⟩ := split_sorted target sorted
  obtain ⟨lowSorted, highSorted, -⟩ := pairwise_append.mp sorted
  unfold bisectValueIndex
  simp only [slice.split low high target lt above]
  rcases eq_nil_or_concat' low with rfl | ⟨init, last, rfl⟩
  · cases high with
    | nil => exact absurd rfl some_
    | cons hd rest =>
      exact nearest_above (above hd mem_cons_self) fun value mem =>
        .inl (forall_mem_cons.mpr ⟨le_refl hd, (pairwise_cons.mp highSorted).1⟩ value mem)
  · have belowLast : ∀ value ∈ init ++ [last], value ≤ last := by
      intro value mem
      rcases mem_append.mp mem with inInit | isLast
      · exact (pairwise_append.mp lowSorted).2.2 value inInit last (mem_singleton_self last)
      · exact (mem_singleton.mp isLast).le
    have lastBelow := lt last (mem_append_right init (mem_singleton_self last))
    cases high with
    | nil =>
      have atLast : (init ++ [last] ++ []).getD ((init ++ [last] ++ []).length - 1) 0 = last := by
        simp
      rw [if_neg (by simp), if_neg (by simp), atLast]
      exact nearest_below lastBelow fun value mem => .inl (belowLast value (by simpa using mem))
    | cons hd rest =>
      have firstAbove := above hd mem_cons_self
      have aboveFirst := forall_mem_cons.mpr ⟨le_refl hd, (pairwise_cons.mp highSorted).1⟩
      have atLast : (init ++ [last] ++ hd :: rest).getD ((init ++ [last]).length - 1) 0 =
          last := by simp
      have atFirst : (init ++ [last] ++ hd :: rest).getD (init ++ [last]).length 0 = hd := by simp
      have lower (near : target - last < hd - target ∨
          target - last = hd - target ∧ cls = .put) :
          cls.Nearest target last (init ++ [last] ++ hd :: rest) := by
        refine nearest_below lastBelow fun value mem => ?_
        rcases mem_append.mp mem with inLow | inHigh
        · exact .inl (belowLast value inLow)
        · refine .inr ⟨above value inHigh, ?_⟩
          rcases near with less | ⟨same, put⟩
          · exact .inl (less.trans_le (sub_le_sub_right (aboveFirst value inHigh) _))
          · exact (sub_le_sub_right (aboveFirst value inHigh) target).lt_or_eq.imp
              (same.trans_lt ·) fun tie => ⟨same.trans tie, put⟩
      have upper (near : hd - target < target - last ∨
          hd - target = target - last ∧ cls = .call) :
          cls.Nearest target hd (init ++ [last] ++ hd :: rest) := by
        refine nearest_above firstAbove fun value mem => ?_
        rcases mem_append.mp mem with inLow | inHigh
        · refine .inr ⟨lt value inLow, ?_⟩
          rcases near with less | ⟨same, call⟩
          · exact .inl (less.trans_le (sub_le_sub_left (belowLast value inLow) _))
          · exact (sub_le_sub_left (belowLast value inLow) target).lt_or_eq.imp
              (same.trans_lt ·) fun tie => ⟨same.trans tie, call⟩
        · exact .inl (aboveFirst value inHigh)
      rw [if_pos (by simp), atLast, atFirst]
      split
      · rename_i tie
        cases cls with
        | call => simpa only [OptionClass.asStr, if_true, atFirst] using upper (.inr ⟨tie.symm, rfl⟩)
        | put =>
          change OptionClass.Nearest .put target (List.getD _ ((init ++ [last]).length - 1) 0) _
          rw [atLast]
          exact lower (.inr ⟨tie, rfl⟩)
      · rename_i ne
        split
        · rename_i less
          rw [atLast]
          exact lower (.inl less)
        · rename_i notLess
          rw [atFirst]
          exact upper (.inl (lt_of_le_of_ne (not_lt.mp notLess) (Ne.symm ne)))

/-! ## The levels of sorted candidates -/

section Levels

variable (slice : PartitionPoint) (cls : OptionClass) (price : ℚ)
  {options : List OptionNode}

/-- The candidates in the order of the levels, around one with the strike that the bisection
finds. -/
structure Arranged (options before : List OptionNode) (atm : OptionNode)
    (after : List OptionNode) : Prop where
  perm : (before ++ atm :: after).Perm options
  strike : atm.strikePrice = (strikes options).getD (bisectValueIndex slice (strikes options)
    price (if cls.asStr = "CALL" then .right else .left)) 0
  inside : StrikesFollowExpiries options → (before ++ atm :: after).Pairwise fun left right =>
    cls.Inside left.strikePrice right.strikePrice

theorem strikes_ne_nil (some_ : options ≠ []) : strikes options ≠ [] := by
  rw [strikes, Ne, map_eq_nil_iff, ← length_eq_zero_iff, length_insertionSort, length_eq_zero_iff]
  exact some_

theorem bisectValueIndex_lt {values : List ℚ} (some_ : values ≠ []) (target : ℚ)
    (prio : BisectPriority) : bisectValueIndex slice values target prio < values.length := by
  have pos := length_pos_iff.mpr some_
  unfold bisectValueIndex
  dsimp only
  cases prio <;> dsimp only <;> split_ifs <;> omega

theorem findIdx?_split {pre post : List OptionNode} {atm : OptionNode}
    (nd : ((pre ++ atm :: post).map OptionNode.instrumentId).Nodup) :
    ((pre ++ atm :: post).findIdx? fun option => option.instrumentId = atm.instrumentId) =
      some pre.length := by
  have gone : (pre.findIdx? fun option => option.instrumentId = atm.instrumentId) = none := by
    rw [findIdx?_eq_none_iff]
    intro option mem
    rw [map_append, map_cons, nodup_append] at nd
    exact decide_eq_false (nd.2.2 _ (mem_map_of_mem mem) _ mem_cons_self)
  rw [findIdx?_append, gone, Option.none_or, findIdx?_cons, if_pos (decide_eq_true rfl),
    Option.map_some, Nat.zero_add]

theorem sortOptions_spec (some_ : options ≠ []) (nd : (options.map OptionNode.instrumentId).Nodup) :
    ∃ pre atm post,
      sortOptionsAndGetAtmIndex slice options price cls.asStr =
        .ok (pre ++ atm :: post, pre.length) ∧
      Arranged slice cls price options pre atm post := by
  have perm := perm_insertionSort Before options
  have inR := bisectValueIndex_lt slice (strikes_ne_nil some_) price
    (if cls.asStr = "CALL" then .right else .left)
  obtain ⟨loc, locatedIn, sameStrike⟩ := mem_map.mp (getElem_mem inR)
  rw [← getD_eq_getElem _ 0 inR] at sameStrike
  unfold sortOptionsAndGetAtmIndex
  rw [if_neg some_]
  dsimp only
  generalize isStrikes : (options.insertionSort Before).map OptionNode.strikePrice = values
  obtain rfl : strikes options = values := isStrikes
  cases hit : (options.insertionSort Before).find? fun option => option.strikePrice =
      (strikes options).getD (bisectValueIndex slice (strikes options) price
        (if cls.asStr = "CALL" then .right else .left)) 0 with
  | none => exact absurd (decide_eq_true sameStrike) (find?_eq_none.mp hit loc locatedIn)
  | some atm =>
    have strike := find?_some hit
    rw [decide_eq_true_eq] at strike
    have atmIn := perm.mem_iff.mp (mem_of_find?_eq_some hit)
    obtain ⟨ord, isOrdered, permuted, mem⟩ : ∃ ord,
        (if cls.asStr = "PUT" then (options.insertionSort Before).insertionSort
          fun left right => right.strikePrice ≤ left.strikePrice
        else options.insertionSort Before) = ord ∧ ord.Perm options ∧
        (StrikesFollowExpiries options → ord.Pairwise fun left right =>
          cls.Inside left.strikePrice right.strikePrice) := by
      cases cls with
      | call => exact ⟨_, rfl, perm, fun follow =>
          pairwise_map.mp ((strikesFollowExpiries_iff options).mp follow)⟩
      | put =>
        have total : Std.Total fun left right : OptionNode =>
            right.strikePrice ≤ left.strikePrice := ⟨fun left right => le_total _ _⟩
        have trans : IsTrans OptionNode fun left right =>
            right.strikePrice ≤ left.strikePrice := ⟨fun _ _ _ hd snd => snd.trans hd⟩
        have descending := pairwise_insertionSort (fun left right : OptionNode =>
          right.strikePrice ≤ left.strikePrice) (options.insertionSort Before)
        exact ⟨_, rfl, (perm_insertionSort _ _).trans perm, fun _ => descending⟩
    obtain ⟨pre, post, rfl⟩ := append_of_mem (permuted.mem_iff.mpr atmIn)
    have place := findIdx?_split ((permuted.map OptionNode.instrumentId).nodup_iff.mpr nd)
    refine ⟨pre, atm, post, ?_, ⟨permuted, strike, mem⟩⟩
    simp only [isOrdered, place]

theorem levels_spec (some_ : options ≠ []) (nd : (options.map OptionNode.instrumentId).Nodup) :
    ∃ pre atm post,
      optionLevelsFromNodes slice options price cls.asStr =
        .ok ⟨pre.map OptionNode.instrumentId, [atm.instrumentId],
          post.map OptionNode.instrumentId⟩ ∧
      Arranged slice cls price options pre atm post := by
  obtain ⟨pre, atm, post, srt, rest⟩ := sortOptions_spec slice cls price some_ nd
  refine ⟨pre, atm, post, ?_, rest⟩
  unfold optionLevelsFromNodes
  rw [if_neg some_, srt]
  simp [Except.map, drop_append]

/-- Candidates whose strikes follow their expiries get the right levels at every price. -/
theorem levels_right (nd : (options.map OptionNode.instrumentId).Nodup)
    (follow : StrikesFollowExpiries options) :
    ∃ lvs, optionLevelsFromNodes slice options price cls.asStr = .ok lvs ∧
      lvs.Right cls price options := by
  by_cases none_ : options = []
  · subst none_
    exact ⟨{}, rfl, .refl _, absurd rfl, nofun⟩
  obtain ⟨pre, atm, post, lvs, ⟨permuted, strike, inn⟩⟩ := levels_spec slice cls price none_ nd
  obtain ⟨-, fromAtm, toAtm⟩ := pairwise_append.mp (inn follow)
  have nearest := bisect_nearest slice cls price
    ((strikesFollowExpiries_iff options).mp follow)
    (strikes_ne_nil none_)
  refine ⟨_, lvs, ?_, fun _ => rfl, fun alt otherIn isAtm => ?_⟩
  · simpa using permuted.map OptionNode.instrumentId
  have eq_of_id := inj_on_of_nodup_map nd
  have mem {node} (part : node ∈ pre ++ atm :: post) := permuted.mem_iff.mp part
  obtain rfl := eq_of_id otherIn (mem (mem_append_right _ mem_cons_self)) (mem_singleton.mp isAtm)
  refine ⟨?_, fun node nodeIn => ⟨fun inn => ?_, fun out => ?_⟩⟩
  · intro value valueIn
    rw [strike]
    refine nearest value ?_
    exact ((perm_insertionSort Before options).map OptionNode.strikePrice).mem_iff.mpr valueIn
  · obtain ⟨hit, foundIn, same⟩ := mem_map.mp inn
    obtain rfl := eq_of_id (mem (mem_append_left _ foundIn)) nodeIn same
    exact toAtm _ foundIn _ mem_cons_self
  · obtain ⟨hit, foundIn, same⟩ := mem_map.mp out
    obtain rfl := eq_of_id (mem (mem_append_right _ (mem_cons_of_mem _ foundIn))) nodeIn same
    exact (pairwise_cons.mp fromAtm).1 _ foundIn

end Levels

/-! ## Bisecting other strikes -/

theorem takeWhile_split {low high : List ℚ} {target : ℚ} (below : ∀ value ∈ low, value ≤ target)
    (above : ∀ value ∈ high, target < value) :
    ((low ++ high).takeWhile fun value => decide (value ≤ target)).length = low.length := by
  rw [takeWhile_append_of_pos fun value mem => decide_eq_true (below value mem)]
  cases high with
  | nil => simp
  | cons hd rest =>
    rw [takeWhile_cons_of_neg, append_nil]
    simpa using above hd mem_cons_self

/-- A partition point that counts the values up to the first one above the target. -/
def PartitionPoint.scan : PartitionPoint where
  point values target := (values.takeWhile fun value => decide (value ≤ target)).length
  le_length _ _ := (takeWhile_sublist _).length_le
  split _ _ _ := takeWhile_split

/-- A partition point that answers as it likes on values that are not partitioned. -/
def PartitionPoint.askew (values : List ℚ) (target : ℚ) (index : Nat)
    (inside : index ≤ values.length) (mixed : ∀ low high, values = low ++ high →
      (∀ value ∈ low, value ≤ target) → (∀ value ∈ high, target < value) → False) :
    PartitionPoint where
  point values' target' := if values' = values ∧ target' = target then index else
    scan.point values' target'
  le_length values' target' := by
    split
    · rename_i same
      exact same.1 ▸ inside
    · exact scan.le_length values' target'
  split low high target' below above := by
    rw [if_neg]
    · exact scan.split low high target' below above
    · rintro ⟨rfl, rfl⟩
      exact mixed low high rfl below above

/-- Between two strikes in descending order the bisection may take the one further from the
price. -/
theorem strikes_sorted {cls : OptionClass} {options : List OptionNode}
    (nodup : (options.map OptionNode.instrumentId).Nodup) (right : ∀ slice price, ∃ levels,
      optionLevelsFromNodes slice options price cls.asStr = .ok levels ∧
      levels.Right cls price options) : StrikesFollowExpiries options := by
  have trans : Trans (α := ℚ) (· ≤ ·) (· ≤ ·) (· ≤ ·) := ⟨le_trans⟩
  rw [strikesFollowExpiries_iff, ← List.isChain_iff_pairwise, isChain_iff_getElem]
  intro idx inn
  generalize isValues : strikes options = values at inn ⊢
  by_contra descends
  have more := not_le.mp descends
  have mixed : ∀ low high, values = low ++ high → (∀ value ∈ low, value ≤ values[idx + 1]) →
      (∀ value ∈ high, values[idx + 1] < value) → False := by
    intro low high whole lt above
    have early : idx + 1 < low.length := by
      by_contra late
      refine lt_irrefl values[idx + 1] (above _ ?_)
      simp only [whole, getElem_append_right (Nat.le_of_not_lt late)]
      exact getElem_mem _
    refine absurd (lt values[idx] ?_) descends
    simp only [whole, getElem_append_left (Nat.lt_of_succ_lt early)]
    exact getElem_mem _
  let slice := PartitionPoint.askew values values[idx + 1] (idx + 1) inn.le mixed
  have point : slice.point values values[idx + 1] = idx + 1 := if_pos ⟨rfl, rfl⟩
  have mem {value : ℚ} (valueIn : value ∈ values) :
      value ∈ options.map OptionNode.strikePrice := by
    rw [← isValues] at valueIn
    exact ((perm_insertionSort Before options).map OptionNode.strikePrice).mem_iff.mp valueIn
  have some_ : options ≠ [] := by
    rintro rfl
    cases mem (getElem_mem inn)
  obtain ⟨pre, atm, post, levels, ⟨permuted, strike, -⟩⟩ :=
    levels_spec slice cls values[idx + 1] some_ nodup
  obtain ⟨ans, same, isRight⟩ := right slice values[idx + 1]
  cases levels.symm.trans same
  have nearest := (isRight.sides atm (permuted.mem_iff.mp (mem_append_right _ mem_cons_self))
    (mem_singleton_self _)).1 values[idx + 1] (mem (getElem_mem inn))
  have hd : values[idx + 1] - values[idx] < 0 := sub_neg.mpr more
  have bisected (priority) :
      bisectValueIndex slice values values[idx + 1] priority = idx := by
    unfold bisectValueIndex
    simp only [point, Nat.add_sub_cancel, getD_eq_getElem _ _ inn,
      getD_eq_getElem _ _ (Nat.lt_of_succ_lt inn), sub_self]
    rw [if_pos ⟨Nat.succ_pos _, inn⟩, if_neg hd.ne, if_pos hd]
  have chosen : atm.strikePrice = values[idx] := by
    rw [strike, isValues, bisected, getD_eq_getElem _ _ (Nat.lt_of_succ_lt inn)]
  rw [chosen, sub_self, abs_zero, abs_nonpos_iff] at nearest
  exact more.ne' (sub_eq_zero.mp nearest.1)

/-! ## Queries with right levels -/

theorem nodup_filtered {fromTimestamp : Int → Int → Option (Int × Int)} {pld : Value}
    (distinct : ((parseOptionNodes fromTimestamp pld).map OptionNode.instrumentId).Nodup)
    (cls : Option String) (year mo : Option Int) (hasA : Option Bool)
    (nearbys : Option (List Int)) :
    ((filteredOptionNodes fromTimestamp pld cls year mo hasA nearbys).map
      OptionNode.instrumentId).Nodup :=
  ((filterOptionNodes_sublist (parseOptionNodes fromTimestamp pld) cls year mo hasA
    nearbys).map OptionNode.instrumentId).nodup distinct

theorem decodeAtmOptions_eq {slice : PartitionPoint}
    {fromTimestamp : Int → Int → Option (Int × Int)} {pld : Value} {cls : OptionClass}
    {query : AllLevelOptionQuery} {lvs : OptionLevelQuotes}
    (isClass : query.optionClass = cls.asStr)
    (nd : ((parseOptionNodes fromTimestamp pld).map OptionNode.instrumentId).Nodup)
    (dec : decodeOptionLevels slice fromTimestamp pld query = .ok lvs) (priceLevels : List Int) :
    decodeAtmOptions slice fromTimestamp pld { query with priceLevels } =
      .ok (priceLevels.map lvs.towards) := by
  unfold decodeOptionLevels optionLevelsFromNodes at dec
  unfold decodeAtmOptions
  dsimp only
  replace nd := nodup_filtered nd (some query.optionClass) query.exerciseYear
    query.exerciseMonth query.hasA none
  generalize filteredOptionNodes fromTimestamp pld (some query.optionClass)
    query.exerciseYear query.exerciseMonth query.hasA none = nodes at dec nd ⊢
  by_cases none_ : nodes = []
  · rw [if_pos none_] at dec ⊢
    cases dec
    refine congrArg Except.ok (map_congr_left fun priceLevel _ => ?_)
    simp [OptionLevelQuotes.towards]
  · rw [if_neg none_] at dec ⊢
    rw [isClass] at dec ⊢
    obtain ⟨pre, atm, post, srt, -⟩ := sortOptions_spec slice cls query.underlyingPrice none_ nd
    rw [srt] at dec ⊢
    cases dec
    refine congrArg Except.ok (map_congr_left fun priceLevel _ => ?_)
    simp [OptionLevelQuotes.towards, drop_append, drop_eq_nil_of_le, ← getElem?_map]

/-- The levels of a query, and the options at its price levels, are right at every price and for
every partition point exactly when the strikes of its candidates follow their expiries. -/
theorem levels_right_iff (fromTimestamp : Int → Int → Option (Int × Int)) (payload : Value)
    (distinct : ((parseOptionNodes fromTimestamp payload).map OptionNode.instrumentId).Nodup)
    (cls : OptionClass) (hasA : Option Bool) :
    (∀ year month : Option Int,
      let nodes := filteredOptionNodes fromTimestamp payload (some cls.asStr) year month hasA none
      (∀ slice price, ∃ levels,
        decodeOptionLevels slice fromTimestamp payload
          ⟨price, cls.asStr, year, month, hasA⟩ = .ok levels ∧
        levels.Right cls price nodes ∧
        ∀ priceLevels, decodeAtmOptions slice fromTimestamp payload
          ⟨⟨price, cls.asStr, year, month, hasA⟩,
            priceLevels⟩ = .ok (priceLevels.map levels.towards)) ↔
      StrikesFollowExpiries nodes) ∧
    ∀ nearbys : List Int,
      let nodes := filteredOptionNodes fromTimestamp payload (some cls.asStr) none none hasA
        (some nearbys)
      (∀ slice price, ∃ levels,
        decodeFinanceOptionLevels slice fromTimestamp payload
          ⟨price, cls.asStr, nearbys, hasA⟩ = .ok levels ∧
        levels.Right cls price nodes) ↔
      StrikesFollowExpiries nodes := by
  have nd (year month nearbys) :=
    nodup_filtered distinct (some cls.asStr) year month hasA nearbys
  refine ⟨fun year month => ⟨fun right => ?_, fun follow slice at_ => ?_⟩,
    fun nearbys => ⟨fun right => strikes_sorted (nd _ _ _) right,
      fun follow slice at_ => levels_right slice cls at_ (nd _ _ _) follow⟩⟩
  · refine @strikes_sorted cls _ (nd _ _ _) fun slice at_ => ?_
    obtain ⟨levels, dec, isRight, -⟩ := right slice at_
    exact ⟨levels, dec, isRight⟩
  · obtain ⟨levels, dec, isRight⟩ :=
      levels_right slice cls at_ (nd year month none) follow
    exact ⟨levels, dec, isRight, decodeAtmOptions_eq rfl distinct dec⟩

section Example

/-- An option of a payload. -/
def optionEdge (instrumentId : String) (strike expiry : Nat) : Value :=
  .object [("node", .object [("call_or_put", .string "CALL"),
    ("instrument_id", .string instrumentId),
    ("last_exercise_datetime", .number (.posInt expiry)),
    ("strike_price", .number (.posInt strike))])]

/-- Two expiries with the strikes 10, 30 and 10, 20. -/
def mixedExpiries : Value :=
  .object [("result", .object [("multi_symbol_info", .array [.object [("derivatives",
    .object [("edges", .array [optionEdge "near10" 10 1, optionEdge "near30" 30 1,
      optionEdge "far10" 10 2, optionEdge "far20" 20 2])])]])])]

theorem levels_right_iff_mixed :
    (parseOptionNodes (fun _ _ => some (1970, 1)) mixedExpiries).map OptionNode.instrumentId =
      ["near10", "near30", "far10", "far20"] ∧
    ((∀ slice price, ∃ levels,
      decodeFinanceOptionLevels slice (fun _ _ => some (1970, 1)) mixedExpiries
        ⟨price, OptionClass.call.asStr, [0], none⟩ = .ok levels ∧
      levels.Right .call price (filteredOptionNodes (fun _ _ => some (1970, 1)) mixedExpiries
        (some OptionClass.call.asStr) none none none (some [0]))) ↔
    StrikesFollowExpiries (filteredOptionNodes (fun _ _ => some (1970, 1)) mixedExpiries
        (some OptionClass.call.asStr) none none none (some [0]))) :=
  ⟨by decide +kernel,
    (levels_right_iff _ mixedExpiries (by decide +kernel) .call none).2 [0]⟩

/-- At a price of 40 the option with the strike 20 is called at the money, though 30 is nearer. -/
theorem levels_not_right :
    ∃ levels, decodeOptionLevels .scan (fun _ _ => some (1970, 1)) mixedExpiries
      ⟨40, OptionClass.call.asStr, none, none, none⟩ = .ok levels ∧
    levels = ⟨["near10", "near30", "far10"], ["far20"], []⟩ ∧
    ¬ levels.Right .call 40 (filteredOptionNodes (fun _ _ => some (1970, 1)) mixedExpiries
        (some OptionClass.call.asStr) none none none none) := by
  refine ⟨_, by decide +kernel, rfl, fun right => ?_⟩
  have sides := right.sides
  revert sides
  decide +kernel

end Example

end MetadataSymbolDecoder

end Tqsdk
