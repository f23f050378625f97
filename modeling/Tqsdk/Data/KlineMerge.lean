import Tqsdk.Data.KlineBlocks

/-!
# The merge of K-line blocks

`TqbnStreamingPartition` of `history_series_cache/tqbn/mod.rs`: the planned blocks of a partition are
activated in the order of their first ids and merged by id.  Of the rows of an id the one of the
block written last is given.
-/

namespace Tqsdk

open List

open LastWrites

structure TqbnStreamingBlockCursor where
  blockOrder : Nat
  current : Option Kline
  records : List Kline
  deriving DecidableEq

structure TqbnStreamingPartition where
  blocks : List TqbnStreamingBlockPlan
  active : List TqbnStreamingBlockCursor
  deriving DecidableEq

section Definitions

variable (range : Int × Int)

/-- The loop of `TqbnStreamingBlockCursor::advance`. -/
def TqbnStreamingBlockCursor.advance (blockOrder : Nat) : List Kline → TqbnStreamingBlockCursor
  | [] => ⟨blockOrder, none, []⟩
  | row :: rows => if inRange range row then ⟨blockOrder, some row, rows⟩ else advance blockOrder rows

namespace TqbnStreamingPartition

/-- `activate_next_block`, for the block that is next. -/
def activate (active : List TqbnStreamingBlockCursor) (block : TqbnStreamingBlockPlan) :
    List TqbnStreamingBlockCursor :=
  let cursor := TqbnStreamingBlockCursor.advance range block.blockOrder block.records
  if cursor.current.isSome then active ++ [cursor] else active

def nextActiveId (active : List TqbnStreamingBlockCursor) : Except DataError Int :=
  match (active.filterMap fun cursor => cursor.current.map Kline.id).min? with
  | some id => .ok id
  | none => .error (.invalidState "TQBN streaming block cursor has no current row")

/-- The first loop of `next_row`: blocks are activated until one has a row. -/
def activateFirst : List TqbnStreamingBlockPlan → List TqbnStreamingBlockCursor →
    TqbnStreamingPartition
  | [], active => ⟨[], active⟩
  | block :: blocks, active =>
    if active.isEmpty then activateFirst blocks (activate range active block)
    else ⟨block :: blocks, active⟩

/-- Its second loop: the blocks that may have rows up to the next id are activated. -/
def activateThrough : List TqbnStreamingBlockPlan → List TqbnStreamingBlockCursor → Int →
    Except DataError (TqbnStreamingPartition × Int)
  | [], active, nextId => .ok (⟨[], active⟩, nextId)
  | block :: blocks, active, nextId =>
    if block.firstId ≤ nextId then do
      let nextId ← nextActiveId (activate range active block)
      activateThrough blocks (activate range active block) nextId
    else .ok (⟨block :: blocks, active⟩, nextId)

/-- Its third loop: the rows with the next id are taken, and the one of the last block wins. -/
def takeRows (nextId : Int) : List TqbnStreamingBlockCursor → Option (Nat × Kline) →
    Option (Nat × Kline) × List TqbnStreamingBlockCursor
  | [], winner => (winner, [])
  | cursor :: cursors, winner =>
    match cursor.current with
    | some row =>
      if row.id = nextId then
        let taken := takeRows nextId cursors
          (if winner.elim true fun best => decide (best.1 < cursor.blockOrder) then
            some (cursor.blockOrder, row)
          else winner)
        (taken.1, TqbnStreamingBlockCursor.advance range cursor.blockOrder cursor.records ::
          taken.2)
      else
        let taken := takeRows nextId cursors winner
        (taken.1, cursor :: taken.2)
    | none =>
      let taken := takeRows nextId cursors winner
      (taken.1, cursor :: taken.2)

def nextRow (partition : TqbnStreamingPartition) :
    Except DataError (Option (Kline × TqbnStreamingPartition)) :=
  let first := activateFirst range partition.blocks partition.active
  if first.active.isEmpty then .ok none
  else do
    let nextId ← nextActiveId first.active
    let (through, nextId) ← activateThrough range first.blocks first.active nextId
    match takeRows range nextId through.active none with
    | (some (_, row), active) =>
      .ok (some (row, ⟨through.blocks, active.filter fun cursor => cursor.current.isSome⟩))
    | (none, _) => .error (.invalidState "TQBN streaming merge produced no winning row")

/-- The rows of as many calls of `next_row`. -/
def collect : Nat → TqbnStreamingPartition → Except DataError (List Kline)
  | 0, _ => .ok []
  | calls + 1, partition => do
      match ← nextRow range partition with
      | none => .ok []
      | some (row, partition) =>
        let rows ← collect calls partition
        .ok (row :: rows)

end TqbnStreamingPartition

end Definitions

/-! ## Cursors -/

/-- The rows that a cursor is still to give. -/
def TqbnStreamingBlockCursor.given (range : Int × Int) (cursor : TqbnStreamingBlockCursor) :
    List Kline :=
  cursor.current.toList ++ cursor.records.filter (inRange range)

/-- A cursor stands on a row, and the ids of its rows increase. -/
structure TqbnStreamingBlockCursor.Sound (range : Int × Int) (cursor : TqbnStreamingBlockCursor) :
    Prop where
  standing : cursor.current.isSome
  increasing : (cursor.given range).Pairwise fun left right => left.id < right.id

/-- The rows of a planned block that are in the range have increasing ids from the first id. -/
structure TqbnStreamingBlockPlan.Sound (range : Int × Int) (block : TqbnStreamingBlockPlan) : Prop where
  increasing : (block.records.filter (inRange range)).Pairwise fun left right => left.id < right.id
  first : (block.records.filter (inRange range)).head?.map Kline.id = some block.firstId

variable {range : Int × Int}

theorem TqbnStreamingBlockCursor.given_advance (blockOrder : Nat) (recs : List Kline) :
    (advance range blockOrder recs).given range = recs.filter (inRange range) ∧
      (advance range blockOrder recs).blockOrder = blockOrder := by
  induction recs with
  | nil => exact ⟨rfl, rfl⟩
  | cons row recs ih =>
    unfold advance
    by_cases mem : inRange range row
    · rw [if_pos mem, filter_cons_of_pos mem]
      exact ⟨rfl, rfl⟩
    · rw [if_neg mem, filter_cons_of_neg mem]
      exact ih

theorem TqbnStreamingBlockCursor.standing_advance {blockOrder : Nat} {recs : List Kline} :
    (advance range blockOrder recs).current.isSome ↔ recs.filter (inRange range) ≠ [] := by
  induction recs with
  | nil => exact iff_of_false Bool.false_ne_true fun ne => ne rfl
  | cons row recs ih =>
    unfold advance
    by_cases mem : inRange range row
    · rw [if_pos mem, filter_cons_of_pos mem]
      exact iff_of_true rfl (cons_ne_nil _ _)
    · rw [if_neg mem, filter_cons_of_neg mem]
      exact ih

/-- The row that a cursor stands on has the least id of its rows. -/
theorem TqbnStreamingBlockCursor.Sound.least {crs : TqbnStreamingBlockCursor}
    (snd : crs.Sound range) {cur row : Kline} (isCur : crs.current = some cur)
    (member : row ∈ crs.given range) : cur.id ≤ row.id := by
  have incr := snd.increasing
  unfold given at incr member
  rw [isCur] at incr member
  rcases mem_cons.mp member with rfl | member
  · exact le_rfl
  · exact (rel_of_pairwise_cons incr member).le

theorem TqbnStreamingBlockPlan.Sound.least {block : TqbnStreamingBlockPlan}
    (snd : block.Sound range) {row : Kline} (member : row ∈ block.records.filter (inRange range)) :
    block.firstId ≤ row.id := by
  have incr := snd.increasing
  have hd := snd.first
  cases rows : block.records.filter (inRange range) with
  | nil =>
    rw [rows] at member
    cases member
  | cons head rest =>
    rw [rows] at incr hd member
    have fst : head.id = block.firstId := Option.some.inj hd
    rcases mem_cons.mp member with rfl | member
    · exact fst.ge
    · exact fst.ge.trans (rel_of_pairwise_cons incr member).le

namespace TqbnStreamingPartition

/-! ## Rows that are held -/

/-- The rows that a block of an order is still to give. -/
def Holds (range : Int × Int) (partition : TqbnStreamingPartition) (order : Nat) (row : Kline) :
    Prop :=
  (∃ cursor ∈ partition.active, cursor.blockOrder = order ∧ row ∈ cursor.given range) ∨
    ∃ block ∈ partition.blocks, block.blockOrder = order ∧ row ∈ block.records.filter (inRange range)

structure Valid (range : Int × Int) (partition : TqbnStreamingPartition) : Prop where
  active : ∀ cursor ∈ partition.active, cursor.Sound range
  blocks : ∀ block ∈ partition.blocks, block.Sound range
  ascending : partition.blocks.Pairwise fun left right => left.firstId ≤ right.firstId
  /-- A block has one row of an id. -/
  single : ∀ order row other, partition.Holds range order row → partition.Holds range order other →
    row.id = other.id → row = other

variable {active : List TqbnStreamingBlockCursor} {blocks : List TqbnStreamingBlockPlan}
  {block : TqbnStreamingBlockPlan} {nextId : Int}

theorem holds_activate {ord : Nat} {row : Kline} :
    Holds range ⟨blocks, activate range active block⟩ ord row ↔
      Holds range ⟨block :: blocks, active⟩ ord row := by
  obtain ⟨got, isOrder⟩ :=
    @TqbnStreamingBlockCursor.given_advance range block.blockOrder block.records
  have stand := @TqbnStreamingBlockCursor.standing_advance range block.blockOrder block.records
  have inActive : (∃ cursor ∈ activate range active block, cursor.blockOrder = ord ∧
      row ∈ cursor.given range) ↔ (∃ cursor ∈ active, cursor.blockOrder = ord ∧
        row ∈ cursor.given range) ∨ (block.blockOrder = ord ∧
          row ∈ block.records.filter (inRange range)) := by
    unfold activate
    dsimp only
    split
    · simp only [mem_append, mem_singleton, or_and_right, exists_or, exists_eq_left, got, isOrder]
    · rename_i emp
      rw [stand, ne_eq, not_not] at emp
      rw [emp]
      simp
  unfold Holds
  dsimp only
  rw [inActive]
  simp only [mem_cons, or_and_right, exists_or, exists_eq_left, or_assoc]

theorem Valid.activate (fine : Valid range ⟨block :: blocks, active⟩) :
    Valid range ⟨blocks, activate range active block⟩ := by
  refine ⟨fun cur member => ?_, fun alt member => fine.blocks alt (mem_cons_of_mem _ member),
    fine.ascending.of_cons, fun ord row alt => ?_⟩
  · unfold TqbnStreamingPartition.activate at member
    dsimp only at member
    split at member
    · rename_i stand
      rcases mem_append.mp member with member | member
      · exact fine.active cur member
      · rw [mem_singleton.mp member]
        refine ⟨stand, ?_⟩
        rw [(TqbnStreamingBlockCursor.given_advance _ _).1]
        exact (fine.blocks block mem_cons_self).increasing
    · exact fine.active cur member
  · rw [holds_activate, holds_activate]
    exact fine.single ord row alt

theorem activate_eq (snd : block.Sound range) : activate range active block =
      active ++ [TqbnStreamingBlockCursor.advance range block.blockOrder block.records] := by
  unfold activate
  refine if_pos (TqbnStreamingBlockCursor.standing_advance.mpr fun emp => ?_)
  have hd := snd.first
  rw [emp] at hd
  cases hd

/-! ## Loops -/

theorem activateFirst_spec (fine : Valid range ⟨blocks, active⟩) :
    Valid range (activateFirst range blocks active) ∧
      (∀ ord row, Holds range (activateFirst range blocks active) ord row ↔
        Holds range ⟨blocks, active⟩ ord row) ∧
      ((activateFirst range blocks active).active = [] →
        (activateFirst range blocks active).blocks = []) := by
  induction blocks generalizing active with
  | nil => exact ⟨fine, fun _ _ => Iff.rfl, fun _ => rfl⟩
  | cons block blocks ih =>
    unfold activateFirst
    split
    · obtain ⟨isValid, hld, fin⟩ := ih fine.activate
      exact ⟨isValid, fun ord row => (hld ord row).trans holds_activate, fin⟩
    · rename_i ne
      refine ⟨fine, fun _ _ => Iff.rfl, fun emp => ?_⟩
      have isEmpty : active = [] := emp
      rw [isEmpty] at ne
      exact absurd rfl ne

theorem nextActiveId_spec (snd : ∀ crs ∈ active, crs.Sound range) (ne : active ≠ []) :
    ∃ nextId, nextActiveId active = .ok nextId ∧
      (∃ crs ∈ active, ∃ row, crs.current = some row ∧ row.id = nextId) ∧
      ∀ crs ∈ active, ∀ row, crs.current = some row → nextId ≤ row.id := by
  have cur : ∀ crs ∈ active, ∃ row, crs.current = some row := fun crs mem =>
    Option.isSome_iff_exists.mp (snd crs mem).standing
  unfold nextActiveId
  cases low : (active.filterMap fun crs => crs.current.map Kline.id).min? with
  | none =>
    obtain ⟨crs, mem⟩ := exists_mem_of_ne_nil active ne
    obtain ⟨row, isRow⟩ := cur crs mem
    rw [min?_eq_none_iff] at low
    have isId : crs.current.map Kline.id = some row.id := by rw [isRow]; rfl
    have inIds : row.id ∈ active.filterMap fun crs => crs.current.map Kline.id :=
      mem_filterMap.mpr ⟨crs, mem, isId⟩
    rw [low] at inIds
    cases inIds
  | some nextId =>
    obtain ⟨mem, lt⟩ := min?_eq_some_iff.mp low
    obtain ⟨crs, inActive, isId⟩ := mem_filterMap.mp mem
    obtain ⟨row, isRow, sameId⟩ := Option.map_eq_some_iff.mp isId
    refine ⟨nextId, rfl, ⟨crs, inActive, row, isRow, sameId⟩, fun alt altM row isRow => ?_⟩
    have isId : alt.current.map Kline.id = some row.id := by rw [isRow]; rfl
    exact lt row.id (mem_filterMap.mpr ⟨alt, altM, isId⟩)

/-- The blocks are activated that may have rows of the next id. -/
theorem activateThrough_spec (fine : Valid range ⟨blocks, active⟩) (ne : active ≠ [])
    (isNext : nextActiveId active = .ok nextId) :
    ∃ through leastId, activateThrough range blocks active nextId = .ok (through, leastId) ∧
      Valid range through ∧ through.active ≠ [] ∧ nextActiveId through.active = .ok leastId ∧
      (∀ ord row, Holds range through ord row ↔ Holds range ⟨blocks, active⟩ ord row) ∧
      ∀ block ∈ through.blocks, leastId < block.firstId := by
  induction blocks generalizing active nextId with
  | nil => exact ⟨_, _, rfl, fine, ne, isNext, fun _ _ => Iff.rfl, fun _ member => by cases member⟩
  | cons block blocks ih =>
    unfold activateThrough
    split
    · have isActive : activate range active block =
          active ++ [TqbnStreamingBlockCursor.advance range block.blockOrder block.records] :=
        activate_eq (fine.blocks block mem_cons_self)
      have notEmpty : activate range active block ≠ [] := by
        rw [isActive]
        exact append_ne_nil_of_right_ne_nil _ (cons_ne_nil _ _)
      obtain ⟨low, isLeast, -⟩ := nextActiveId_spec fine.activate.active notEmpty
      obtain ⟨through, leastId, isThrough, isValid, someActive, isNext, hld, ovr⟩ :=
        ih fine.activate notEmpty isLeast
      refine ⟨through, leastId, ?_, isValid, someActive, isNext,
        fun ord row => (hld ord row).trans holds_activate, ovr⟩
      rw [isLeast, Result.ok_bind]
      exact isThrough
    · rename_i ovr
      refine ⟨_, _, rfl, fine, ne, isNext, fun _ _ => Iff.rfl, fun alt member => ?_⟩
      rcases mem_cons.mp member with rfl | member
      · exact not_le.mp ovr
      · exact (not_le.mp ovr).trans_le (rel_of_pairwise_cons fine.ascending member)

/-! ## Rows with the next id -/

/-- The cursors behind the rows with an id. -/
def advanced (range : Int × Int) (nextId : Int) (cursor : TqbnStreamingBlockCursor) :
    TqbnStreamingBlockCursor :=
  if cursor.current.map Kline.id = some nextId then
    TqbnStreamingBlockCursor.advance range cursor.blockOrder cursor.records
  else cursor

theorem takeRows_active (nextId : Int) (crss : List TqbnStreamingBlockCursor)
    (win : Option (Nat × Kline)) :
    (takeRows range nextId crss win).2 = crss.map (advanced range nextId) := by
  induction crss generalizing win with
  | nil => rfl
  | cons cur crss ih =>
    unfold takeRows
    rw [map_cons]
    unfold advanced at ih ⊢
    cases isRow : cur.current with
    | none =>
      rw [Option.map_none, if_neg (Option.some_ne_none nextId).symm]
      exact congrArg _ (ih win)
    | some row =>
      rw [Option.map_some]
      dsimp only
      by_cases same : row.id = nextId
      · rw [if_pos same, if_pos (congrArg some same)]
        exact congrArg _ (ih _)
      · rw [if_neg same, if_neg fun equal => same (Option.some.inj equal)]
        exact congrArg _ (ih win)

/-- A cursor stands on a row with an id. -/
def StandsOn (nextId : Int) (cursor : TqbnStreamingBlockCursor) (row : Kline) : Prop :=
  cursor.current = some row ∧ row.id = nextId

/-- The winner is a row of the last block among those with the id. -/
theorem takeRows_winner {crss : List TqbnStreamingBlockCursor} {win : Option (Nat × Kline)} :
    ((takeRows range nextId crss win).1 = win ∨
      ∃ cur ∈ crss, ∃ row, StandsOn nextId cur row ∧
        (takeRows range nextId crss win).1 = some (cur.blockOrder, row)) ∧
    (∀ best, win = some best →
      ∃ last, (takeRows range nextId crss win).1 = some last ∧ best.1 ≤ last.1) ∧
    ∀ cur ∈ crss, ∀ row, StandsOn nextId cur row →
      ∃ last, (takeRows range nextId crss win).1 = some last ∧ cur.blockOrder ≤ last.1 := by
  induction crss generalizing win with
  | nil => exact ⟨.inl rfl, fun best isBest => ⟨best, isBest, le_rfl⟩, fun _ member => by cases member⟩
  | cons cur crss ih =>
    by_cases stands : ∃ row, StandsOn nextId cur row
    · obtain ⟨row, isRow, same⟩ := stands
      have unfolded : (takeRows range nextId (cur :: crss) win).1 =
          (takeRows range nextId crss
            (if win.elim true fun best => decide (best.1 < cur.blockOrder) then
              some (cur.blockOrder, row) else win)).1 := by
        rw [takeRows]
        simp only [isRow, if_pos same]
      have better : ∃ best, (if win.elim true fun best => decide (best.1 < cur.blockOrder) then
          some (cur.blockOrder, row) else win) = some best ∧
            (best = (cur.blockOrder, row) ∨ win = some best) ∧ cur.blockOrder ≤ best.1 ∧
            ∀ former, win = some former → former.1 ≤ best.1 := by
        cases win with
        | none => exact ⟨_, rfl, .inl rfl, le_rfl, fun _ none => by cases none⟩
        | some former =>
          rw [Option.elim_some]
          by_cases less : former.1 < cur.blockOrder
          · rw [if_pos (decide_eq_true less)]
            refine ⟨_, rfl, .inl rfl, le_rfl, fun alt isFormer => ?_⟩
            rw [← Option.some.inj isFormer]
            exact less.le
          · rw [if_neg fun decided => less (of_decide_eq_true decided)]
            refine ⟨former, rfl, .inr rfl, not_lt.mp less, fun alt isFormer => ?_⟩
            rw [← Option.some.inj isFormer]
      obtain ⟨best, isBest, choice, atLeast, overFormer⟩ := better
      rw [unfolded, isBest]
      obtain ⟨src, newer, rest⟩ := @ih (some best)
      obtain ⟨last, fin, new⟩ := newer best rfl
      refine ⟨?_, fun former isFormer => ⟨last, fin, (overFormer former isFormer).trans new⟩,
        fun alt member row stands => ?_⟩
      · rcases src with src | ⟨alt, member, row, stands, src⟩
        · rcases choice with rfl | former
          · exact .inr ⟨cur, mem_cons_self, row, ⟨isRow, same⟩, src⟩
          · exact .inl (src.trans former.symm)
        · exact .inr ⟨alt, mem_cons_of_mem _ member, row, stands, src⟩
      · rcases mem_cons.mp member with rfl | member
        · exact ⟨last, fin, atLeast.trans new⟩
        · exact rest alt member row stands
    · have unfolded : (takeRows range nextId (cur :: crss) win).1 =
          (takeRows range nextId crss win).1 := by
        rw [takeRows]
        cases isRow : cur.current with
        | none => rfl
        | some row =>
          dsimp only
          rw [if_neg fun same => stands ⟨row, isRow, same⟩]
      rw [unfolded]
      obtain ⟨src, newer, rest⟩ := @ih win
      refine ⟨src.imp id fun ⟨alt, member, hit⟩ => ⟨alt, mem_cons_of_mem _ member, hit⟩,
        newer, fun alt member row isOn => ?_⟩
      rcases mem_cons.mp member with rfl | member
      · exact absurd ⟨row, isOn⟩ stands
      · exact rest alt member row isOn

theorem advanced_spec {crs : TqbnStreamingBlockCursor} (snd : crs.Sound range)
    (low : ∀ row, crs.current = some row → nextId ≤ row.id) :
    (advanced range nextId crs).blockOrder = crs.blockOrder ∧
      ((advanced range nextId crs).given range).Pairwise (fun left right => left.id < right.id) ∧
      (∀ row, row ∈ (advanced range nextId crs).given range ↔
        row ∈ crs.given range ∧ row.id ≠ nextId) ∧
      ∀ row ∈ (advanced range nextId crs).given range,
        (advanced range nextId crs).current.isSome := by
  obtain ⟨cur, isCur⟩ := Option.isSome_iff_exists.mp snd.standing
  obtain ⟨got, isOrder⟩ := @TqbnStreamingBlockCursor.given_advance range crs.blockOrder crs.records
  have incr := snd.increasing
  have isGiven : crs.given range = cur :: crs.records.filter (inRange range) := by
    unfold TqbnStreamingBlockCursor.given
    rw [isCur]
    rfl
  unfold advanced
  rw [isCur, Option.map_some]
  by_cases same : cur.id = nextId
  · rw [if_pos (congrArg some same), got, isGiven]
    rw [isGiven] at incr
    refine ⟨isOrder, incr.of_cons, fun row => ?_, fun row member =>
      TqbnStreamingBlockCursor.standing_advance.mpr (ne_nil_of_mem member)⟩
    rw [mem_cons]
    constructor
    · intro member
      have ovr := rel_of_pairwise_cons incr member
      exact ⟨.inr member, fun equal => by omega⟩
    · rintro ⟨rfl | member, ne⟩
      · exact absurd same ne
      · exact member
  · rw [if_neg fun equal => same (Option.some.inj equal)]
    refine ⟨rfl, incr, fun row => (and_iff_left_of_imp fun member equal => ?_).symm,
      fun _ _ => snd.standing⟩
    have ovr := snd.least isCur member
    have atLeast := low cur isCur
    omega

/-- The row of its id that the block written last holds. -/
def Wins (range : Int × Int) (partition : TqbnStreamingPartition) (row : Kline) : Prop :=
  ∃ order, partition.Holds range order row ∧ ∀ other another,
    partition.Holds range other another → another.id = row.id → other ≤ order

/-- The winner with the least id is given, and the rows of that id are gone. -/
theorem nextRow_spec {part : TqbnStreamingPartition} (fine : part.Valid range) :
    (nextRow range part = .ok none ∧ ∀ ord row, ¬ part.Holds range ord row) ∨
      ∃ row after, nextRow range part = .ok (some (row, after)) ∧ after.Valid range ∧
        part.Wins range row ∧
        (∀ ord other, part.Holds range ord other → row.id ≤ other.id) ∧
        ∀ ord other, after.Holds range ord other ↔
          part.Holds range ord other ∧ other.id ≠ row.id := by
  obtain ⟨validFirst, holdsFirst, fin⟩ := activateFirst_spec fine
  unfold nextRow
  dsimp only
  by_cases emp : (activateFirst range part.blocks part.active).active = []
  · rw [emp]
    refine .inl ⟨rfl, fun ord row hld => ?_⟩
    rcases (holdsFirst ord row).mpr hld with ⟨crs, mem, -⟩ | ⟨block, mem, -⟩
    · rw [emp] at mem
      cases mem
    · rw [fin emp] at mem
      cases mem
  · obtain ⟨firstId, fst, -⟩ := nextActiveId_spec validFirst.active emp
    obtain ⟨through, nextId, isThrough, thru, nonempty, isNext, holdsThrough, ovr⟩ :=
      activateThrough_spec validFirst emp fst
    obtain ⟨leastId, isLeast, ⟨stand, standingMem, cur, isCur, sameId⟩, low⟩ :=
      nextActiveId_spec thru.active nonempty
    obtain rfl : nextId = leastId := Except.ok.inj (isNext.symm.trans isLeast)
    have hld (ord : Nat) (row : Kline) :
        through.Holds range ord row ↔ part.Holds range ord row :=
      (holdsThrough ord row).trans (holdsFirst ord row)
    have atLeast (ord : Nat) (row : Kline) (held : through.Holds range ord row) :
        nextId ≤ row.id := by
      rcases held with ⟨crs, mem, -, got⟩ | ⟨block, mem, -, got⟩
      · obtain ⟨other, alt⟩ := Option.isSome_iff_exists.mp (thru.active crs mem).standing
        exact (low crs mem other alt).trans ((thru.active crs mem).least alt got)
      · exact (ovr block mem).le.trans ((thru.blocks block mem).least got)
    obtain ⟨src, -, new⟩ := @takeRows_winner range nextId through.active none
    obtain ⟨last, isLast, -⟩ := new stand standingMem cur ⟨isCur, sameId⟩
    obtain ⟨win, winnerMem, row, stands, isWinner⟩ := src.resolve_left fun none => by
      rw [none] at isLast
      cases isLast
    have givenRow : row ∈ win.given range := by
      unfold TqbnStreamingBlockCursor.given
      rw [stands.1]
      exact mem_cons_self
    have took : takeRows range nextId through.active none =
        (some (win.blockOrder, row), through.active.map (advanced range nextId)) :=
      Prod.ext isWinner (takeRows_active nextId through.active none)
    have heldAfter (ord : Nat) (other : Kline) : Holds range ⟨through.blocks,
        (through.active.map (advanced range nextId)).filter fun crs => crs.current.isSome⟩
          ord other ↔ through.Holds range ord other ∧ other.id ≠ nextId := by
      unfold Holds
      dsimp only
      constructor
      · rintro (⟨crs, mem, isOrder, got⟩ | ⟨block, mem, isOrder, got⟩)
        · obtain ⟨src, sourceMem, rfl⟩ := mem_map.mp (mem_filter.mp mem).1
          obtain ⟨sameOrder, -, remains, -⟩ :=
            advanced_spec (thru.active src sourceMem) (low src sourceMem)
          obtain ⟨got, ne⟩ := (remains other).mp got
          exact ⟨.inl ⟨src, sourceMem, sameOrder.symm.trans isOrder, got⟩, ne⟩
        · have post := ovr block mem
          have atFirst := (thru.blocks block mem).least got
          exact ⟨.inr ⟨block, mem, isOrder, got⟩, fun same => by omega⟩
      · rintro ⟨⟨crs, mem, isOrder, got⟩ | held, ne⟩
        · obtain ⟨sameOrder, -, remains, stand⟩ := advanced_spec (thru.active crs mem) (low crs mem)
          have givenAfter := (remains other).mpr ⟨got, ne⟩
          exact .inl ⟨advanced range nextId crs, mem_filter.mpr ⟨mem_map_of_mem mem, stand other
            givenAfter⟩, sameOrder.trans isOrder, givenAfter⟩
        · exact .inr held
    refine .inr ⟨row, ⟨through.blocks, (through.active.map (advanced range nextId)).filter
      fun crs => crs.current.isSome⟩, ?_, ?_, ?_, ?_, ?_⟩
    · rw [if_neg (by simpa using emp), fst, Result.ok_bind, isThrough, Result.ok_bind]
      dsimp only
      rw [took]
    · refine ⟨fun crs mem => ?_, thru.blocks, thru.ascending,
        fun ord left right heldLeft heldRight => ?_⟩
      · obtain ⟨inActive, isStanding⟩ := mem_filter.mp mem
        obtain ⟨src, sourceMem, rfl⟩ := mem_map.mp inActive
        exact ⟨isStanding, (advanced_spec (thru.active src sourceMem) (low src sourceMem)).2.1⟩
      · exact thru.single ord left right ((heldAfter ord left).mp heldLeft).1
          ((heldAfter ord right).mp heldRight).1
    · refine ⟨win.blockOrder, (hld _ _).mp (.inl ⟨win, winnerMem, rfl, givenRow⟩),
        fun ord alt2 held same => ?_⟩
      rcases (hld ord alt2).mpr held with
        ⟨crs, mem, rfl, got⟩ | ⟨block, mem, rfl, got⟩
      · obtain ⟨standsRow, isStandsRow⟩ :=
          Option.isSome_iff_exists.mp (thru.active crs mem).standing
        have lt := (thru.active crs mem).least isStandsRow got
        have isAtLeast := low crs mem standsRow isStandsRow
        obtain ⟨best, isBest, atMost⟩ := new crs mem standsRow
          ⟨isStandsRow, by rw [same, stands.2] at lt; omega⟩
        rw [isWinner] at isBest
        rw [← Option.some.inj isBest] at atMost
        exact atMost
      · have post := ovr block mem
        have atFirst := (thru.blocks block mem).least got
        have isRow := stands.2
        omega
    · intro ord other held
      rw [stands.2]
      exact atLeast ord other ((hld ord other).mpr held)
    · intro ord other
      rw [heldAfter, hld, stands.2]

/-- Rows in the order of their ids that are those which win are what the calls of `next_row` give. -/
theorem collect_eq {rows : List Kline} {part : TqbnStreamingPartition} (fine : part.Valid range)
    (srt : rows.Pairwise fun left right => left.id < right.id)
    (winners : ∀ row, row ∈ rows ↔ part.Wins range row) {cls : Nat} (fits : rows.length < cls)
    : collect range cls part = .ok rows := by
  induction rows generalizing part cls with
  | nil =>
    obtain ⟨cls, rfl⟩ := Nat.exists_eq_succ_of_ne_zero (Nat.ne_of_gt fits)
    unfold collect
    rcases nextRow_spec fine with ⟨isNone, -⟩ | ⟨row, post, -, -, wins, -⟩
    · rw [isNone]
      rfl
    · cases (winners row).mpr wins
  | cons hd rows ih =>
    obtain ⟨cls, rfl⟩ := Nat.exists_eq_succ_of_ne_zero (Nat.ne_of_gt (Nat.zero_lt_of_lt fits))
    obtain ⟨firstOrder, heldFirst, newestFirst⟩ := (winners hd).mp mem_cons_self
    unfold collect
    rcases nextRow_spec fine with ⟨-, nothing⟩ | ⟨row, post, isNext, isValid, wins, low, hld⟩
    · exact absurd heldFirst (nothing firstOrder hd)
    · have fst : hd = row := by
        rcases mem_cons.mp ((winners row).mpr wins) with same | member
        · exact same.symm
        · have ovr := rel_of_pairwise_cons srt member
          have lt := low firstOrder hd heldFirst
          omega
      obtain rfl := fst
      have rest : ∀ alt, alt ∈ rows ↔ post.Wins range alt := by
        intro alt
        have inRest : alt ∈ rows ↔ part.Wins range alt ∧ alt.id ≠ hd.id := by
          rw [← winners, mem_cons]
          constructor
          · intro member
            have ovr := rel_of_pairwise_cons srt member
            exact ⟨.inr member, fun same => by omega⟩
          · rintro ⟨rfl | member, ne⟩
            · exact absurd rfl ne
            · exact member
        rw [inRest]
        unfold Wins
        constructor
        · rintro ⟨⟨ord, held, new⟩, ne⟩
          exact ⟨ord, (hld ord alt).mpr ⟨held, ne⟩, fun alt2 row heldRow =>
            new alt2 row ((hld alt2 row).mp heldRow).1⟩
        · rintro ⟨ord, held, new⟩
          obtain ⟨held, ne⟩ := (hld ord alt).mp held
          exact ⟨⟨ord, held, fun alt2 row heldRow same => new alt2 row
            ((hld alt2 row).mpr ⟨heldRow, same ▸ ne⟩) same⟩, ne⟩
      have coll := ih isValid srt.of_cons rest (Nat.lt_of_succ_lt_succ fits)
      rw [isNext, Result.ok_bind]
      dsimp only
      rw [coll, Result.ok_bind]

end TqbnStreamingPartition

end Tqsdk
