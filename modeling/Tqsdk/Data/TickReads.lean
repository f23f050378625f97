import Mathlib.Algebra.Order.BigOperators.Group.List
import Tqsdk.Data.TickReader
import Tqsdk.Lib.Parts

/-!
# Reads of tick containers

What a reader gives of a container that was loaded: an error, or the rows of the active slices
that lie in the range, in the order of their times and ids.
-/

namespace Tqsdk

open List

namespace HistoryContainer

/-! ## Blocks -/

/-- A compressor of bytes. -/
def MakesOctets (zstd : Option Zstd) : Prop :=
  ∀ codec, zstd = some codec → ∀ payload length decoded,
    codec.decompress payload length = some decoded → Bytes.Octets decoded

variable {M : Type} {zstd : Option Zstd} {file : List Nat} {index : Index M}

theorem octets_readBlock {id : Nat} {pld : List Nat} (bs : MakesOctets zstd)
    (octs : Bytes.Octets file) (ok : readBlock zstd file index id = .ok pld) :
    Bytes.Octets pld := by
  unfold readBlock at ok
  split at ok
  · cases ok
  rename_i blk hit
  split_ifs at ok with out few
  dsimp only at ok
  split_ifs at ok with mismatch
  obtain ⟨dec, raw, ok⟩ := Result.of_bind ok
  split_ifs at ok with len
  obtain rfl := Except.ok.inj ok
  unfold decompress at raw
  split at raw
  · rw [← Except.ok.inj raw]
    exact (octs.drop _).take _
  · split at raw
    · rename_i isDecoded
      rw [← Except.ok.inj raw]
      exact bs _ rfl _ _ _ isDecoded
    · cases raw
  · cases raw

theorem readOrdered_agrees {cur : OffsetCursor} {mdl : TickCursor} {rem : Nat}
    (fol : cur.Follows mdl) (octs : Bytes.Octets cur.bytes)
    (left : cur.remaining = rem) (rows : List Tick) :
    Checked.Agrees Eq (readOrdered (rem + 1) cur rows) (mdl.readRows rem rows) := by
  induction rem generalizing cur mdl rows with
  | zero =>
    have fin : cur.offset ≠ cur.bytes.length ↔ mdl.bytes ≠ [] := by
      have mem := fol.inside
      rw [fol.bytes, ne_eq, ne_eq, drop_eq_nil_iff]
      omega
    rw [readOrdered, OffsetCursor.next, if_pos left, TickCursor.readRows]
    simp only [fin]
    split_ifs
    · rfl
    · rfl
  | succ rem ih =>
    rw [readOrdered, TickCursor.readRows]
    refine (OffsetCursor.next_agrees fol octs left).bind ?_
    rintro res ⟨row, next⟩ ⟨post, rfl, followsAfter, leftAfter, sameBytes⟩
    dsimp only
    split_ifs
    · rfl
    · exact ih followsAfter (by rwa [sameBytes]) leftAfter (rows ++ [row])

theorem readTickBlock_eq (bs : MakesOctets zstd) (octs : Bytes.Octets file) (id : Nat) :
    readTickBlock zstd file index id = Checked.lift (readTicks zstd file index id) := by
  refine Checked.Agrees.eq_lift ?_
  unfold readTickBlock readTicks
  cases index.blocks[id]? with
  | none => rfl
  | some blk =>
    show Checked.Agrees _ (validLength blk.rows blk.decodedLen >>= _) _
    rw [validLength_eq, Result.ok_bind]
    dsimp only
    split_ifs with bad
    · rfl
    · cases isPayload : readBlock zstd file index id with
      | error error => rfl
      | ok pld =>
        have payloadOctets := octets_readBlock bs octs isPayload
        show Checked.Agrees _ (OffsetCursor.start pld blk.rows >>= _)
          (decodeTickPayload pld blk.rows >>= _)
        unfold decodeTickPayload
        rw [bind_assoc]
        refine (OffsetCursor.start_agrees pld blk.rows).bind ?_
        rintro cur mdl ⟨next, left, modelLeft, sameBytes⟩
        rw [modelLeft]
        refine (readOrdered_agrees next (by rwa [sameBytes]) left []).bind ?_
        rintro rows _ rfl
        split_ifs
        · rfl
        · rfl

variable {rows : List Tick} {slcs : List Slice}

/-- Rows that are read are as many as were expected, in the order of their times. -/
theorem readRows_ordered {rem : Nat} {cur : TickCursor} {pre : List Tick}
    (ord : pre.Pairwise fun left right => left.datetime ≤ right.datetime)
    (ok : cur.readRows rem pre = .ok rows) :
    rows.length = pre.length + rem ∧
      rows.Pairwise fun left right => left.datetime ≤ right.datetime := by
  induction rem generalizing cur pre with
  | zero =>
    rw [TickCursor.readRows] at ok
    split_ifs at ok
    obtain rfl := Except.ok.inj ok
    exact ⟨rfl, ord⟩
  | succ rem ih =>
    obtain ⟨⟨row, next⟩, -, ok⟩ := Result.of_bind ok
    dsimp only at ok
    split_ifs at ok with post
    have ext : (pre ++ [row]).Pairwise fun left right =>
        left.datetime ≤ right.datetime := by
      refine pairwise_append.mpr ⟨ord, pairwise_singleton _ _, ?_⟩
      intro alt member last fin
      rw [mem_singleton.mp fin]
      rcases eq_nil_or_concat pre with rfl | ⟨alts, new, rfl⟩
      · cases member
      · rw [concat_eq_append] at ord member post
        rw [getLast?_append, getLast?_singleton] at post
        have newestLe : new.datetime ≤ row.datetime := not_lt.mp fun less =>
          post (decide_eq_true less)
        rcases mem_append.mp member with member | member
        · exact ((pairwise_append.mp ord).2.2 alt member new (mem_singleton_self _)).trans newestLe
        · rw [mem_singleton.mp member]
          exact newestLe
    obtain ⟨len, srt⟩ := ih ext ok
    rw [length_append, length_singleton] at len
    exact ⟨by omega, srt⟩

theorem readTicks_facts {id : Nat} {blk : Block} (hit : index.blocks[id]? = some blk)
    (ok : readTicks zstd file index id = .ok rows) :
    rows.length = blk.rows ∧ rows.Pairwise fun left right => left.datetime ≤ right.datetime := by
  unfold readTicks at ok
  rw [hit] at ok
  dsimp only at ok
  split_ifs at ok with invalid
  obtain ⟨pld, -, ok⟩ := Result.of_bind ok
  obtain ⟨dec, isDecoded, ok⟩ := Result.of_bind ok
  split_ifs at ok with ne
  obtain rfl := Except.ok.inj ok
  obtain ⟨cur, isCursor, isDecoded⟩ := Result.of_bind isDecoded
  obtain ⟨len, ord⟩ := readRows_ordered .nil isDecoded
  have rem : cur.remaining = blk.rows := by
    unfold TickCursor.start at isCursor
    split_ifs at isCursor with bad
    dsimp only at isCursor
    split_ifs at isCursor with mismatch
    rw [← Except.ok.inj isCursor]
    exact not_not.mp mismatch
  rw [length_nil, Nat.zero_add, rem] at len
  exact ⟨len, ord⟩

/-! ## Slices -/

/-- The slice names rows that its block has. -/
structure Slice.Fits (index : Index M) (slice : Slice) : Prop where
  rows : 0 < slice.rows
  found : ∃ block, index.blocks[slice.block]? = some block ∧
    slice.rowStart + slice.rows ≤ block.rows
  small : slice.rowStart + slice.rows < 2 ^ 64

/-- The slice has other times than its rows. -/
def Slice.Disagrees (slice : Slice) (rows : List Tick) : Prop :=
  rows[slice.rowStart]?.map Tick.datetime ≠ some slice.firstNs ∨
    rows[slice.rowStart + slice.rows - 1]?.map Tick.datetime ≠ some slice.lastNs

instance (slice : Slice) (rows : List Tick) : Decidable (slice.Disagrees rows) :=
  inferInstanceAs (Decidable (_ ∨ _))

/-- The rows of a slice, where its block is read and has its times. -/
def sliceRows (zstd : Option Zstd) (file : List Nat) (index : Index M) (slice : Slice) :
    Except DataError (List Tick) := do
  let rows ← readTicks zstd file index slice.block
  if slice.Disagrees rows then
    .error (.invalidResponse "Tick slice disagrees with payload")
  else .ok ((rows.drop slice.rowStart).take slice.rows)

theorem sliceRows_eq_ok {slice : Slice} {part : List Tick} (fits : slice.Fits index)
    (ok : sliceRows zstd file index slice = .ok part) :
    part.length = slice.rows ∧
      (∀ row ∈ part, slice.firstNs ≤ row.datetime ∧ row.datetime ≤ slice.lastNs) ∧
      ∃ rows, readTicks zstd file index slice.block = .ok rows ∧
        part = (rows.drop slice.rowStart).take slice.rows := by
  obtain ⟨rows, isRows, ok⟩ := Result.of_bind ok
  split_ifs at ok with disagrees
  obtain rfl := Except.ok.inj ok
  obtain ⟨blk, hit, inn⟩ := fits.found
  obtain ⟨len, ord⟩ := readTicks_facts hit isRows
  have pos := fits.rows
  simp only [Slice.Disagrees, not_or, not_not] at disagrees
  obtain ⟨hd, last⟩ := disagrees
  refine ⟨by rw [length_take, length_drop]; omega, fun row mem => ?_, rows, isRows, rfl⟩
  obtain ⟨i, win, rfl⟩ := mem_iff_getElem.mp mem
  rw [length_take, length_drop] at win
  rw [getElem_take, getElem_drop]
  rw [getElem?_eq_getElem (by omega), Option.map_some, Option.some_inj] at hd last
  rw [← hd, ← last]
  have srt := pairwise_iff_getElem.mp ord
  constructor
  · rcases Nat.eq_zero_or_pos i with rfl | later
    · exact le_rfl
    · exact srt _ _ _ _ (by omega)
  · rcases Nat.lt_or_ge (slice.rowStart + i) (slice.rowStart + slice.rows - 1) with pre | least
    · exact srt _ _ _ _ pre
    · have same : slice.rowStart + i = slice.rowStart + slice.rows - 1 := by omega
      simp only [same]
      exact le_rfl

/-! ## Iterations -/

namespace TickReader

variable (zstd file index)

/-- The reader stands inside its slices and keeps the rows of the block that it loaded. -/
structure Valid (reader : TickReader) : Prop where
  fits : ∀ slice ∈ reader.slices, slice.Fits index
  few : reader.slices.length ≤ maxEntries
  loaded : ∀ id, reader.loaded = some id → readTicks zstd file index id = .ok reader.rows
  offset : ∀ slice, reader.slices[reader.slice]? = some slice → reader.offset ≤ slice.rows

def inside (range : Int × Int) (row : Tick) : Bool :=
  decide (range.1 ≤ row.datetime ∧ row.datetime < range.2)

/-- The rows that the reader is still to give: those of the slices that are left, in its range
and behind the row before. -/
def Gives (range : Int × Int) (reader : TickReader) (rows : List Tick) : Prop :=
  ∃ parts, (reader.slices.drop reader.slice).mapM (sliceRows zstd file index) = .ok parts ∧
    rows = (parts.flatten.drop reader.offset).filter (inside range) ∧
    (reader.previous.toList ++ rows.map Tick.orderKey).IsChain (· < ·)

/-- What an iteration says about the rows that the reader is to give. -/
def Explains (range : Int × Int) (reader : TickReader) : Except (Fault DataError) Outcome → Prop
  | .error .panicked => False
  | .error (.failed _) => ∀ rows, ¬ Gives zstd file index range reader rows
  | .ok .ended => ∀ rows, Gives zstd file index range reader rows ↔ rows = []
  | .ok (.skipped after) => Valid zstd file index after ∧ after.work < reader.work ∧
      ∀ rows, Gives zstd file index range reader rows ↔ Gives zstd file index range after rows
  | .ok (.row row after) => Valid zstd file index after ∧ after.work < reader.work ∧
      ∀ rows, Gives zstd file index range reader rows ↔
        ∃ rest, rows = row :: rest ∧ Gives zstd file index range after rest

/-- What a call says about the rows that the reader is to give. -/
def NextExplains (range : Int × Int) (reader : TickReader) :
    Except (Fault DataError) (Option (Tick × TickReader)) → Prop
  | .error .panicked => False
  | .error (.failed _) => ∀ rows, ¬ Gives zstd file index range reader rows
  | .ok none => ∀ rows, Gives zstd file index range reader rows ↔ rows = []
  | .ok (some (row, after)) => Valid zstd file index after ∧ after.work < reader.work ∧
      ∀ rows, Gives zstd file index range reader rows ↔
        ∃ rest, rows = row :: rest ∧ Gives zstd file index range after rest

variable {zstd file index} {range : Int × Int} {reader : TickReader} {slice : Slice}

theorem loadBlock_eq (bs : MakesOctets zstd) (octs : Bytes.Octets file)
    (fine : Valid zstd file index reader) (fits : slice.Fits index) :
    reader.loadBlock zstd file index slice = Checked.lift (do
      let rows ← readTicks zstd file index slice.block
      return { reader with rows := rows, loaded := some slice.block }) := by
  unfold loadBlock
  split_ifs with alt
  · obtain ⟨blk, hit, -⟩ := fits.found
    rw [readTickBlock_eq bs octs, Checked.index, hit]
    cases readTicks zstd file index slice.block with
    | error error => rfl
    | ok rows => rfl
  · have same := not_not.mp alt
    rw [fine.loaded _ same, ← same]
    rfl

theorem disagrees_eq {rows : List Tick} (pos : 0 < slice.rows)
    (wtn : slice.rowStart + slice.rows ≤ rows.length) :
    disagrees slice (slice.rowStart + slice.rows) rows = .ok (decide (slice.Disagrees rows)) := by
  have hd : rows[slice.rowStart]? = some rows[slice.rowStart] := getElem?_eq_getElem (by omega)
  have last : rows[slice.rowStart + slice.rows - 1]? = some rows[slice.rowStart + slice.rows - 1] :=
    getElem?_eq_getElem (by omega)
  have meaning : slice.Disagrees rows ↔ rows[slice.rowStart].datetime ≠ slice.firstNs ∨
      rows[slice.rowStart + slice.rows - 1].datetime ≠ slice.lastNs := by
    rw [Slice.Disagrees, hd, last, Option.map_some, Option.map_some, Option.some_inj.ne,
      Option.some_inj.ne]
  rw [decide_eq_decide.mpr meaning, disagrees, Checked.index, hd]
  show (if _ then _ else _) = _
  split_ifs with differs
  · rw [decide_eq_true (.inl differs)]
    rfl
  · rw [Checked.sub_eq (by omega), Result.ok_bind, Checked.index, last]
    exact congrArg Except.ok (decide_eq_decide.mpr (or_iff_right differs).symm)

/-- Nothing is given behind a slice that is not read. -/
theorem not_gives_of_error {error : DataError} (here : reader.slices[reader.slice]? = some slice)
    (fail : sliceRows zstd file index slice = .error error) (rows : List Tick) :
    ¬ Gives zstd file index range reader rows := by
  rintro ⟨ps, isParts, -⟩
  obtain ⟨stand, isSlice⟩ := List.getElem?_eq_some_iff.mp here
  rw [drop_eq_getElem_cons stand, isSlice, mapM_cons, fail] at isParts
  cases isParts

theorem gives_iff {part : List Tick} (here : reader.slices[reader.slice]? = some slice)
    (isPart : sliceRows zstd file index slice = .ok part) (rows : List Tick) :
    Gives zstd file index range reader rows ↔
      ∃ ps, (reader.slices.drop (reader.slice + 1)).mapM (sliceRows zstd file index) = .ok ps ∧
        rows = ((part ++ ps.flatten).drop reader.offset).filter (inside range) ∧
        (reader.previous.toList ++ rows.map Tick.orderKey).IsChain (· < ·) := by
  obtain ⟨stand, isSlice⟩ := List.getElem?_eq_some_iff.mp here
  unfold Gives
  rw [drop_eq_getElem_cons stand, isSlice, mapM_cons, isPart, Result.ok_bind]
  constructor
  · rintro ⟨ps, isParts, rest⟩
    obtain ⟨alts, isOthers, same⟩ := Result.of_bind isParts
    obtain rfl := Except.ok.inj same
    exact ⟨alts, isOthers, rest⟩
  · rintro ⟨alts, isOthers, rest⟩
    exact ⟨part :: alts, by rw [isOthers]; rfl, rest⟩

theorem work_eq (here : reader.slices[reader.slice]? = some slice) :
    reader.work = slice.rows + 1 +
      ((reader.slices.drop (reader.slice + 1)).map fun slice => slice.rows + 1).sum -
        reader.offset := by
  obtain ⟨stand, isSlice⟩ := List.getElem?_eq_some_iff.mp here
  rw [work, drop_eq_getElem_cons stand, isSlice, map_cons, sum_cons]

theorem isChain_cons_iff (prev : Option (Int ×ₗ Int)) (key : Int ×ₗ Int)
    (keys : List (Int ×ₗ Int)) :
    (prev.toList ++ key :: keys).IsChain (· < ·) ↔
      (∀ pre, prev = some pre → pre < key) ∧ ((some key).toList ++ keys).IsChain (· < ·) := by
  cases prev with
  | none => simp
  | some pre => simp

section

variable (bs : MakesOctets zstd) (octs : Bytes.Octets file)

include bs octs

theorem iterate_explains (fine : Valid zstd file index reader) :
    Explains zstd file index range reader (reader.iterate zstd file index range) := by
  unfold iterate
  cases here : reader.slices[reader.slice]? with
  | none =>
    intro rows
    have fin : reader.slices.drop reader.slice = [] :=
      drop_eq_nil_iff.mpr (getElem?_eq_none_iff.mp here)
    unfold Gives
    rw [fin]
    constructor
    · rintro ⟨ps, isParts, isRows, -⟩
      rw [mapM_nil] at isParts
      obtain rfl := Except.ok.inj isParts
      rwa [flatten_nil, drop_nil] at isRows
    · rintro rfl
      refine ⟨[], rfl, by rw [flatten_nil, drop_nil]; rfl, ?_⟩
      cases reader.previous <;> simp
  | some slice =>
    obtain ⟨stand, isSlice⟩ := List.getElem?_eq_some_iff.mp here
    have fits := fine.fits slice (mem_of_getElem? here)
    have atMost := fine.offset slice here
    have few := fine.few
    have pos := fits.rows
    have small := fits.small
    unfold maxEntries at few
    dsimp only
    rw [loadBlock_eq bs octs fine fits]
    cases isRows : readTicks zstd file index slice.block with
    | error error =>
      have fail : sliceRows zstd file index slice = .error error := by
        rw [sliceRows, isRows]
        rfl
      exact not_gives_of_error here fail
    | ok rows =>
      obtain ⟨blk, hit, win⟩ := fits.found
      obtain ⟨len, -⟩ := readTicks_facts hit isRows
      show Explains _ _ _ _ _ (Checked.add 64 slice.rowStart slice.rows >>= _)
      rw [Checked.add_eq small, Result.ok_bind]
      dsimp only
      rw [disagrees_eq pos (by omega), Result.ok_bind]
      by_cases ne : slice.Disagrees rows
      · rw [decide_eq_true ne]
        have fail : sliceRows zstd file index slice =
            .error (.invalidResponse "Tick slice disagrees with payload") := by
          rw [sliceRows, isRows, Result.ok_bind, if_pos ne]
        exact not_gives_of_error here fail
      have isPart : sliceRows zstd file index slice =
          .ok ((rows.drop slice.rowStart).take slice.rows) := by
        rw [sliceRows, isRows, Result.ok_bind, if_neg ne]
      have partLength : ((rows.drop slice.rowStart).take slice.rows).length = slice.rows := by
        rw [length_take, length_drop]
        omega
      have load : ∀ id, some slice.block = some id → readTicks zstd file index id = .ok rows := by
        rintro id same
        rw [← Option.some_inj.mp same, isRows]
      rw [decide_eq_false ne, if_neg Bool.false_ne_true]
      by_cases done : reader.offset = slice.rows
      · rw [if_pos done, Checked.add_eq (by omega), Result.ok_bind]
        refine ⟨⟨fine.fits, fine.few, load, fun _ _ => Nat.zero_le _⟩, ?_, fun got => ?_⟩
        · rw [work_eq here, work]
          dsimp only
          omega
        · rw [gives_iff here isPart, done]
          simp only [drop_left' partLength]
          exact Iff.rfl
      · have pre : slice.rowStart + reader.offset < rows.length := by omega
        rw [if_neg done, Checked.add_eq (by omega), Result.ok_bind, Checked.index,
          getElem?_eq_getElem pre]
        show Explains _ _ _ _ _ (Checked.add 64 reader.offset 1 >>= _)
        rw [Checked.add_eq (by omega), Result.ok_bind]
        generalize isRow : rows[slice.rowStart + reader.offset] = row
        have offsetBelow : reader.offset <
            ((rows.drop slice.rowStart).take slice.rows).length := by omega
        have rest (alts : List Tick) :
            ((rows.drop slice.rowStart).take slice.rows ++ alts).drop reader.offset =
              row :: ((rows.drop slice.rowStart).take slice.rows ++ alts).drop
                (reader.offset + 1) := by
          rw [drop_eq_getElem_cons (by rw [length_append]; omega),
            getElem_append_left offsetBelow, getElem_take, getElem_drop, isRow]
        have validAfter (prev : Option (Int ×ₗ Int)) : Valid zstd file index
            ⟨reader.slices, reader.slice, reader.offset + 1, some slice.block, rows, prev⟩ := by
          refine ⟨fine.fits, fine.few, load, fun alt same => ?_⟩
          rw [← Option.some_inj.mp (here.symm.trans same)]
          show reader.offset + 1 ≤ slice.rows
          omega
        have workAfter (prev : Option (Int ×ₗ Int)) : work
            ⟨reader.slices, reader.slice, reader.offset + 1, some slice.block, rows, prev⟩ <
              reader.work := by
          rw [work_eq here, @work_eq ⟨reader.slices, reader.slice, reader.offset + 1,
            some slice.block, rows, prev⟩ slice here]
          dsimp only
          omega
        have givesAfter (prev : Option (Int ×ₗ Int)) (got : List Tick) :=
          @gives_iff M zstd file index range ⟨reader.slices, reader.slice, reader.offset + 1,
            some slice.block, rows, prev⟩ slice _ here isPart got
        by_cases out : row.datetime < range.1 ∨ range.2 ≤ row.datetime
        · rw [if_pos out]
          refine ⟨validAfter _, workAfter _, fun got => ?_⟩
          have isOutside : inside range row = false := decide_eq_false fun isInside => by omega
          rw [gives_iff here isPart, givesAfter]
          simp only [rest, filter_cons, isOutside]
          exact Iff.rfl
        have isInside : inside range row = true := decide_eq_true (by omega)
        rw [if_neg out]
        split_ifs with notCanonical
        · rintro got gives
          obtain ⟨ps, -, isGiven, chain⟩ := (gives_iff here isPart got).mp gives
          rw [rest, filter_cons, if_pos isInside] at isGiven
          rw [isGiven, map_cons, isChain_cons_iff] at chain
          obtain ⟨pre, isBefore, notLess⟩ := (Option.any_eq_true _ _).mp notCanonical
          exact absurd (chain.1 pre isBefore) (not_lt.mpr (of_decide_eq_true notLess))
        · refine ⟨validAfter _, workAfter _, fun got => ?_⟩
          rw [gives_iff here isPart]
          simp only [rest, filter_cons, isInside, if_true]
          constructor
          · rintro ⟨ps, isParts, isGiven, chain⟩
            rw [isGiven, map_cons, isChain_cons_iff] at chain
            exact ⟨_, isGiven, (givesAfter _ _).mpr ⟨ps, isParts, rfl, chain.2⟩⟩
          · rintro ⟨alts, isGiven, gives⟩
            obtain ⟨ps, isParts, isOthers, chain⟩ := (givesAfter _ alts).mp gives
            refine ⟨ps, isParts, by rw [isGiven, isOthers], ?_⟩
            rw [isGiven, map_cons, isChain_cons_iff]
            refine ⟨fun pre isBefore => not_le.mp fun notLess => notCanonical ?_, chain⟩
            exact (Option.any_eq_true _ _).mpr ⟨pre, isBefore, decide_eq_true notLess⟩

theorem next_explains {iters : Nat} (fine : Valid zstd file index reader)
    (fits : reader.work < iters) :
    NextExplains zstd file index range reader (reader.next zstd file index range iters) := by
  induction iters generalizing reader with
  | zero => omega
  | succ iters ih =>
    have tells : Explains zstd file index range reader (reader.iterate zstd file index range) :=
      iterate_explains bs octs fine
    rw [next]
    cases outcome : reader.iterate zstd file index range with
    | error err =>
      rw [outcome] at tells
      cases err with
      | panicked => exact tells
      | failed error => exact tells
    | ok outcome' =>
      rw [outcome] at tells
      cases outcome' with
      | ended => exact tells
      | row row post => exact tells
      | skipped post =>
        obtain ⟨validAfter, less, same⟩ := tells
        have more := ih validAfter (by omega)
        show NextExplains _ _ _ range reader (post.next zstd file index range iters)
        cases res : post.next zstd file index range iters with
        | error err =>
          rw [res] at more
          cases err with
          | panicked => exact more
          | failed error => exact fun rows gives => more rows ((same rows).mp gives)
        | ok got =>
          rw [res] at more
          cases got with
          | none => exact fun rows => (same rows).trans (more rows)
          | some got =>
            obtain ⟨validLast, lessLast, rest⟩ := more
            exact ⟨validLast, lessLast.trans less, fun rows => (same rows).trans (rest rows)⟩

/-- A reader ends without a panic, and in rows only where these are the ones that it is to give. -/
theorem collect_iff {iters cls : Nat} (fine : Valid zstd file index reader)
    (fits : reader.work < iters) (enoughCalls : reader.work < cls) :
    reader.collect zstd file index range iters cls ≠ .error .panicked ∧
      ∀ rows, reader.collect zstd file index range iters cls = .ok rows ↔
        Gives zstd file index range reader rows := by
  induction cls generalizing reader with
  | zero => omega
  | succ cls ih =>
    have tells : NextExplains zstd file index range reader
        (reader.next zstd file index range iters) := next_explains bs octs fine fits
    rw [collect]
    cases res : reader.next zstd file index range iters with
    | error err =>
      rw [res] at tells
      cases err with
      | panicked => exact tells.elim
      | failed error => refine ⟨nofun, fun rows => ⟨nofun, fun gives => absurd gives (tells rows)⟩⟩
    | ok got =>
      rw [res] at tells
      cases got with
      | none =>
        refine ⟨nofun, fun rows => Iff.trans ?_ (tells rows).symm⟩
        exact ⟨fun same => (Except.ok.inj same).symm, fun same => congrArg Except.ok same.symm⟩
      | some got =>
        obtain ⟨row, post⟩ := got
        obtain ⟨validAfter, less, same⟩ := tells
        obtain ⟨noPanic, more⟩ := ih validAfter (by omega) (by omega)
        show (post.collect zstd file index range iters cls >>= _) ≠ _ ∧ ∀ rows,
          (post.collect zstd file index range iters cls >>= _) = .ok rows ↔ _
        constructor
        · cases alts : post.collect zstd file index range iters cls with
          | ok alts => exact nofun
          | error err =>
            rw [alts] at noPanic
            exact noPanic
        · intro rows
          rw [same rows, Result.bind_eq_ok]
          constructor
          · rintro ⟨alts, isOthers, isRows⟩
            exact ⟨alts, (Except.ok.inj isRows).symm, (more alts).mp isOthers⟩
          · rintro ⟨alts, rfl, gives⟩
            exact ⟨alts, (more alts).mpr gives, rfl⟩

end

end TickReader

/-! ## Loaded containers -/

/-- The slice lies in its extent, and its block around it. -/
structure Slice.LiesIn (index : Index M) (extent : Extent) (slice : Slice) : Prop where
  fits : slice.Fits index
  ordered : slice.firstNs ≤ slice.lastNs
  start : extent.startNs ≤ slice.firstNs
  stop : slice.lastNs < extent.endNs
  block : ∀ block, index.blocks[slice.block]? = some block →
    block.firstNs ≤ slice.firstNs ∧ slice.lastNs ≤ block.lastNs

theorem validateSlices_liesIn {kind : SeriesKind} {ext : Extent} {last : Option Int}
    {pre post : List ActiveRowRange}
    (ok : validateSlices kind index.blocks ext last pre slcs = .ok post) :
    ∀ slice ∈ slcs, slice.LiesIn index ext := by
  induction slcs generalizing last pre with
  | nil => exact fun slice member => by cases member
  | cons slice slcs ih =>
    rw [validateSlices] at ok
    split at ok
    · cases ok
    cases hit : index.blocks[slice.block]? with
    | none =>
      rw [hit] at ok
      cases ok
    | some blk =>
      rw [hit] at ok
      dsimp only at ok
      split_ifs at ok with overflow bad
      intro alt member
      rcases mem_cons.mp member with rfl | member
      · unfold Slice.Bad at bad
        push Not at bad
        obtain ⟨pos, win, ord, lo, stop, hd, lastIn, -⟩ := bad
        refine ⟨⟨Nat.pos_of_ne_zero pos, ⟨blk, hit, win⟩, not_le.mp overflow⟩,
          ord, lo, stop, fun seen isKnown => ?_⟩
        rw [← Option.some_inj.mp (hit.symm.trans isKnown)]
        exact ⟨hd, lastIn⟩
      · exact ih ok alt member

theorem validateExtents_liesIn {identity : Identity} {metadata : Nat} {last : Option Int}
    {extents : List Extent} {before after : List ActiveRowRange}
    (ok : validateExtents identity metadata index.blocks last before extents = .ok after) :
    ∀ extent ∈ extents,
      (∀ pack, identity.packRange = some pack →
        pack.1 ≤ extent.startNs ∧ extent.startNs < extent.endNs ∧ extent.endNs ≤ pack.2) ∧
      ∀ slice ∈ extent.slices, slice.LiesIn index extent := by
  induction extents generalizing last before with
  | nil => exact fun extent member => by cases member
  | cons extent extents ih =>
    rw [validateExtents] at ok
    split_ifs at ok with bad
    obtain ⟨rowSlices, isSlices, ok⟩ := Result.of_bind ok
    intro alt member
    rcases mem_cons.mp member with rfl | member
    · refine ⟨fun pack isPack => ?_, validateSlices_liesIn isSlices⟩
      unfold Extent.Bad at bad
      push Not at bad
      obtain ⟨ord, -, -, -, -, -, packed⟩ := bad
      rw [isPack] at packed
      simp only [Option.any_some, ne_eq, Bool.not_eq_true, Bool.or_eq_false_iff,
        decide_eq_false_iff_not, not_lt] at packed
      omega
    · exact ih ok alt member

/-- An index of which the reader relies on the extents. -/
structure Index.Sound (index : Index M) : Prop where
  few : index.totalSlices ≤ maxEntries
  inRange : ∀ extent ∈ index.extents, I64.minimum < extent.endNs ∧
    extent.startNs < I64.maximum ∧ I64.minimum ≤ extent.startNs ∧ extent.endNs ≤ I64.maximum
  liesIn : ∀ extent ∈ index.extents, ∀ slice ∈ extent.slices, slice.LiesIn index extent

theorem Index.sound_of_validate {offset : Nat} {pack : Int × Int}
    (valid : index.validate offset = .ok ()) (isPack : index.identity.packRange = some pack)
    (inRange : I64.InRange pack.1 ∧ I64.InRange pack.2) : index.Sound := by
  have sizes := validate_sizes valid
  unfold Index.validate at valid
  split at valid
  · cases valid
  obtain ⟨⟨⟩, -, valid⟩ := Result.of_bind valid
  split at valid
  · cases valid
  obtain ⟨rowSlices, isSlices, -⟩ := Result.of_bind valid
  have lies := validateExtents_liesIn isSlices
  refine ⟨sizes.2.2.2, fun extent mem => ?_, fun extent mem => (lies extent mem).2⟩
  have packed := (lies extent mem).1 pack isPack
  unfold I64.InRange at inRange
  omega

theorem sound_of_loadTicks {wire : IndexWire TickMetadata} {index : Index TickMetadata}
    {part : Except DataError TickPartition} {sym : String}
    (ok : loadTicks wire file part sym = .ok index) : index.Sound := by
  obtain ⟨load, isLoaded, ok⟩ := Result.of_bind ok
  obtain ⟨place, isPlace, ok⟩ := Result.of_bind ok
  split_ifs at ok with alt bad
  obtain ⟨⟨⟩, -, ok⟩ := Result.of_bind ok
  obtain rfl := Except.ok.inj ok
  push Not at alt
  obtain ⟨dec, isDecoded, kinds⟩ := Result.of_bind (Checked.lift_eq_ok.mp isLoaded)
  split_ifs at kinds with otherKind
  obtain rfl := Except.ok.inj kinds
  obtain ⟨com, -, isDecoded⟩ := Result.of_bind isDecoded
  dsimp only at isDecoded
  split_ifs at isDecoded with torn
  obtain ⟨raw, -, isDecoded⟩ := Result.of_bind isDecoded
  obtain ⟨⟨⟩, fine, isDecoded⟩ := Result.of_bind isDecoded
  obtain rfl := Except.ok.inj isDecoded
  have pack : raw.identity.packRange = some (place.startNs, place.endNs) :=
    congrArg Identity.packRange alt.1
  have sound := raw.sound_of_validate fine pack place.inRange
  exact ⟨sound.few, sound.inRange, fun ext mem slice inExtent =>
    have lies := sound.liesIn ext mem slice inExtent
    ⟨⟨lies.fits.rows, lies.fits.found, lies.fits.small⟩, lies.ordered, lies.start, lies.stop,
      lies.block⟩⟩

/-! ## Ranges -/

/-- The rows of a slice that is read. -/
def rowsOf (zstd : Option Zstd) (file : List Nat) (index : Index M) (slice : Slice) : List Tick :=
  match sliceRows zstd file index slice with
  | .ok rows => rows
  | .error _ => []

def Index.activeSlices (index : Index M) : List Slice := index.extents.flatMap Extent.slices

/-- The slices of a reader. -/
def Index.slicesIn (index : Index M) (range : Int × Int) : List Slice :=
  ((index.extents.filter fun extent =>
    decide (extent.startNs < range.2 ∧ range.1 < extent.endNs)).flatMap Extent.slices).filter
      fun slice => index.blocks[slice.block]?.any (Block.overlaps range)

theorem overlappingSlices_eq {range : Int × Int} (fits : ∀ slice ∈ slcs, slice.Fits index) :
    overlappingSlices index.blocks range slcs = .ok (slcs.filter fun slice =>
      index.blocks[slice.block]?.any (Block.overlaps range)) := by
  induction slcs with
  | nil => rfl
  | cons slice slcs ih =>
    obtain ⟨blk, hit, -⟩ := (fits slice mem_cons_self).found
    rw [overlappingSlices, Checked.index, hit, filter_cons, hit, Option.any_some,
      ih fun alt mem => fits alt (mem_cons_of_mem _ mem)]
    rfl

theorem mapM_sliceRows_eq_ok {ps : List (List Tick)} :
    slcs.mapM (sliceRows zstd file index) = .ok ps ↔
      (∀ slice ∈ slcs, ∃ part, sliceRows zstd file index slice = .ok part) ∧
        ps = slcs.map (rowsOf zstd file index) := by
  constructor
  · intro trav
    have every : ∀ slice ∈ slcs, ∃ part, sliceRows zstd file index slice = .ok part := by
      intro slice mem
      obtain ⟨part, -, isPart⟩ := Result.mem_of_mapM trav mem
      exact ⟨part, isPart⟩
    refine ⟨every, ?_⟩
    have same : slcs.mapM (sliceRows zstd file index) =
        .ok (slcs.map (rowsOf zstd file index)) := by
      refine Result.mapM_eq_map fun slice mem => ?_
      obtain ⟨part, isPart⟩ := every slice mem
      rw [rowsOf, isPart]
    exact Except.ok.inj (trav.symm.trans same)
  · rintro ⟨every, rfl⟩
    refine Result.mapM_eq_map fun slice mem => ?_
    obtain ⟨part, isPart⟩ := every slice mem
    rw [rowsOf, isPart]

section Ranges

variable (sound : index.Sound) (bs : MakesOctets zstd) (octs : Bytes.Octets file)

include sound bs octs

/-- A read of a range ends without a panic, and in rows where every slice of the reader is read
and their rows in the range are in order. -/
theorem readTickRange_iff (range : Int × Int) :
    readTickRange zstd file index range ≠ .error .panicked ∧
      ∀ rows, readTickRange zstd file index range = .ok rows ↔
        (∀ slice ∈ index.slicesIn range, ∃ part, sliceRows zstd file index slice = .ok part) ∧
        rows = ((index.slicesIn range).flatMap (rowsOf zstd file index)).filter
          (TickReader.inside range) ∧
        rows.Pairwise fun left right => left.orderKey < right.orderKey := by
  have fits : ∀ slice ∈ (index.extents.filter fun ext =>
      decide (ext.startNs < range.2 ∧ range.1 < ext.endNs)).flatMap Extent.slices,
        slice.Fits index := by
    intro slice mem
    obtain ⟨ext, inFilter, mem⟩ := mem_flatMap.mp mem
    exact (sound.liesIn ext (mem_of_mem_filter inFilter) slice mem).fits
  have few : (index.slicesIn range).length ≤ maxEntries := by
    refine le_trans (length_filter_le _ _) (le_trans ?_ sound.few)
    rw [length_flatMap, Index.totalSlices]
    exact (filter_sublist.map _).sum_le_sum fun _ _ => Nat.zero_le _
  have fine : TickReader.Valid zstd file index ⟨index.slicesIn range, 0, 0, none, [], none⟩ :=
    ⟨fun slice mem => fits slice (mem_of_mem_filter mem), few, nofun, fun _ _ => Nat.zero_le _⟩
  have isNew : TickReader.new index range = .ok ⟨index.slicesIn range, 0, 0, none, [], none⟩ := by
    rw [TickReader.new, overlappingSlices_eq fits]
    rfl
  rw [readTickRange, isNew, Result.ok_bind]
  obtain ⟨noPanic, got⟩ := TickReader.collect_iff bs octs fine (Nat.lt_succ_self _)
    (Nat.lt_succ_self _)
  refine ⟨noPanic, fun rows => (got rows).trans ?_⟩
  unfold TickReader.Gives
  simp only [mapM_sliceRows_eq_ok, drop_zero, Option.toList_none, nil_append]
  rw [← pairwise_map, ← isChain_iff_pairwise]
  constructor
  · rintro ⟨_, ⟨every, rfl⟩, isRows, chain⟩
    exact ⟨every, by rwa [flatMap_def], chain⟩
  · rintro ⟨every, isRows, chain⟩
    exact ⟨_, ⟨every, rfl⟩, by rwa [flatMap_def] at isRows, chain⟩

end Ranges

theorem mem_rowsOf {slice : Slice} (fits : slice.Fits index) {row : Tick}
    (mem : row ∈ rowsOf zstd file index slice) :
    (slice.firstNs ≤ row.datetime ∧ row.datetime ≤ slice.lastNs) ∧
      ∃ got i, readTicks zstd file index slice.block = .ok got ∧
        slice.rowStart ≤ i ∧ i < slice.rowStart + slice.rows ∧ got[i]? = some row := by
  unfold rowsOf at mem
  cases isPart : sliceRows zstd file index slice with
  | error error =>
    rw [isPart] at mem
    cases mem
  | ok part =>
    rw [isPart] at mem
    dsimp only at mem
    obtain ⟨len, bnds, got, isStored, split⟩ := sliceRows_eq_ok fits isPart
    refine ⟨bnds row mem, got, ?_⟩
    obtain ⟨i, isRow⟩ := mem_iff_getElem?.mp mem
    rw [split, getElem?_take] at isRow
    split at isRow
    · rw [getElem?_drop] at isRow
      exact ⟨slice.rowStart + i, isStored, by omega, by omega, isRow⟩
    · cases isRow

/-- The slices that a reader leaves out have no rows in its range. -/
theorem filter_slicesIn (sound : index.Sound) (range : Int × Int) :
    ((index.slicesIn range).flatMap (rowsOf zstd file index)).filter (TickReader.inside range) =
      (index.activeSlices.flatMap (rowsOf zstd file index)).filter (TickReader.inside range) := by
  rw [filter_flatMap, filter_flatMap, Index.slicesIn, Index.activeSlices]
  have nothing : ∀ ext ∈ index.extents, ∀ slice ∈ ext.slices,
      ¬ (slice.firstNs < range.2 ∧ range.1 ≤ slice.lastNs) →
        (rowsOf zstd file index slice).filter (TickReader.inside range) = [] := by
    intro ext inIndex slice inExtent sep
    refine filter_eq_nil_iff.mpr fun row mem isInside => sep ?_
    have lies := sound.liesIn ext inIndex slice inExtent
    have bnds := (mem_rowsOf lies.fits mem).1
    have win := of_decide_eq_true isInside
    omega
  rw [Parts.flatMap_filter, flatMap_assoc, flatMap_assoc, Parts.flatMap_filter]
  · intro ext inIndex sep
    refine flatMap_eq_nil_iff.mpr fun slice inExtent => ?_
    have lies := sound.liesIn ext inIndex slice inExtent
    have lo := lies.start
    have stop := lies.stop
    refine nothing ext inIndex slice inExtent fun meets => of_decide_eq_false sep ?_
    omega
  · intro slice mem sep
    obtain ⟨ext, inFilter, inExtent⟩ := mem_flatMap.mp mem
    have inIndex := mem_of_mem_filter inFilter
    have lies := sound.liesIn ext inIndex slice inExtent
    obtain ⟨blk, hit, -⟩ := lies.fits.found
    have around := lies.block blk hit
    rw [hit, Option.any_some] at sep
    refine nothing ext inIndex slice inExtent fun meets => of_decide_eq_false sep ?_
    omega

/-- A row that an active slice has of its block. -/
def Index.Stores (zstd : Option Zstd) (file : List Nat) (index : Index M) (position : Nat × Nat)
    (row : Tick) : Prop :=
  (∃ extent ∈ index.extents, ∃ slice ∈ extent.slices, slice.block = position.1 ∧
    slice.rowStart ≤ position.2 ∧ position.2 < slice.rowStart + slice.rows) ∧
  ∃ stored, readTicks zstd file index position.1 = .ok stored ∧ stored[position.2]? = some row

theorem Index.Stores.unique {at_ : Nat × Nat} {row alt : Tick}
    (stores : index.Stores zstd file at_ row)
    (storesOther : index.Stores zstd file at_ alt) : row = alt := by
  obtain ⟨-, got, isStored, hit⟩ := stores
  obtain ⟨-, otherStored, isOtherStored, otherFound⟩ := storesOther
  obtain rfl := Except.ok.inj (isStored.symm.trans isOtherStored)
  exact Option.some_inj.mp (hit.symm.trans otherFound)

/-- Different rows are stored at different positions. -/
theorem exists_positions (different : rows.Nodup)
    (every : ∀ row ∈ rows, ∃ at_, index.Stores zstd file at_ row) :
    ∃ posns : List (Nat × Nat), posns.Nodup ∧ List.Forall₂ (index.Stores zstd file) posns rows := by
  induction rows with
  | nil => exact ⟨[], .nil, .nil⟩
  | cons row rows ih =>
    obtain ⟨new, different⟩ := nodup_cons.mp different
    obtain ⟨at_, stores⟩ := every row mem_cons_self
    obtain ⟨posns, nd, got⟩ := ih different fun alt mem => every alt (mem_cons_of_mem _ mem)
    refine ⟨at_ :: posns, nodup_cons.mpr ⟨fun again => new ?_, nd⟩, .cons stores got⟩
    obtain ⟨alt, mem, storesOther⟩ := Parts.exists_of_forall₂ got again
    rwa [stores.unique storesOther]

/-- Files, and what a compressor makes, are bytes. -/
abbrev ByteFile : Type := { file : List Nat // Bytes.Octets file }

abbrev ByteCodec : Type := { zstd : Option Zstd // MakesOctets zstd }

/-- The rows that a read of a range may give. -/
structure RangeRows (zstd : Option Zstd) (file : List Nat) (index : Index TickMetadata)
    (range : Int × Int) (rows : List Tick) : Prop where
  increasing : rows.Pairwise fun left right => left.orderKey < right.orderKey
  inRange : ∀ row ∈ rows, range.1 ≤ row.datetime ∧ row.datetime < range.2
  once : ∃ positions : List (Nat × Nat), positions.Nodup ∧
    List.Forall₂ (index.Stores zstd file) positions rows

theorem rangeRows_of_read {index : Index TickMetadata} {range : Int × Int} (sound : index.Sound)
    (bs : MakesOctets zstd) (octs : Bytes.Octets file)
    (ok : readTickRange zstd file index range = .ok rows) :
    RangeRows zstd file index range rows := by
  obtain ⟨-, isRows, incr⟩ := ((readTickRange_iff sound bs octs range).2 rows).mp ok
  refine ⟨incr, fun row mem => ?_, exists_positions ?_ fun row mem => ?_⟩
  · rw [isRows] at mem
    exact of_decide_eq_true (mem_filter.mp mem).2
  · refine incr.imp ?_
    rintro left _ less rfl
    exact lt_irrefl _ less
  · rw [isRows, filter_slicesIn sound] at mem
    obtain ⟨slice, act, mem⟩ := mem_flatMap.mp (mem_filter.mp mem).1
    obtain ⟨ext, inIndex, inExtent⟩ := mem_flatMap.mp act
    obtain ⟨-, got, i, isStored, low, most, hit⟩ :=
      mem_rowsOf (sound.liesIn ext inIndex slice inExtent).fits mem
    exact ⟨(slice.block, i), ⟨ext, inIndex, slice, inExtent, rfl, low, most⟩, got, isStored, hit⟩

/-- A range that is read as part of all times that are read. -/
theorem read_of_all {index : Index TickMetadata} (sound : index.Sound) (bs : MakesOctets zstd)
    (octs : Bytes.Octets file)
    (ok : readTickRange zstd file index (I64.minimum, I64.maximum) = .ok rows) (range : Int × Int) :
    readTickRange zstd file index range = .ok (rows.filter (TickReader.inside range)) := by
  obtain ⟨everySlice, isRows, incr⟩ :=
    ((readTickRange_iff sound bs octs (I64.minimum, I64.maximum)).2 rows).mp ok
  have all : index.slicesIn (I64.minimum, I64.maximum) = index.activeSlices := by
    rw [Index.slicesIn, Index.activeSlices, filter_eq_self.mpr fun ext mem =>
      decide_eq_true ⟨(sound.inRange ext mem).2.1, (sound.inRange ext mem).1⟩,
      filter_eq_self]
    intro slice mem
    obtain ⟨ext, inIndex, inExtent⟩ := mem_flatMap.mp mem
    have lies := sound.liesIn ext inIndex slice inExtent
    obtain ⟨blk, hit, -⟩ := lies.fits.found
    have times := sound.inRange ext inIndex
    have lo := lies.start
    have stop := lies.stop
    have around := lies.block blk hit
    have ord := lies.ordered
    rw [hit, Option.any_some]
    refine decide_eq_true ⟨?_, ?_⟩ <;> dsimp only <;> omega
  have rowsAll : rows = index.activeSlices.flatMap (rowsOf zstd file index) := by
    rw [isRows, all, filter_eq_self]
    intro row mem
    obtain ⟨slice, act, mem⟩ := mem_flatMap.mp mem
    obtain ⟨ext, inIndex, inExtent⟩ := mem_flatMap.mp act
    have lies := sound.liesIn ext inIndex slice inExtent
    have times := sound.inRange ext inIndex
    have lo := lies.start
    have stop := lies.stop
    have bnds := (mem_rowsOf lies.fits mem).1
    refine decide_eq_true ⟨?_, ?_⟩ <;> dsimp only <;> omega
  rw [(readTickRange_iff sound bs octs range).2, filter_slicesIn sound, ← rowsAll]
  refine ⟨fun slice mem => everySlice slice ?_, rfl, incr.filter _⟩
  rw [all]
  obtain ⟨ext, inFilter, inExtent⟩ := mem_flatMap.mp (mem_of_mem_filter mem)
  exact mem_flatMap.mpr ⟨ext, mem_of_mem_filter inFilter, inExtent⟩

theorem validateProofs_ne_panicked {index : Index TickMetadata} {pack : Int × Int}
    (isPack : index.identity.packRange = some pack) (extents : List Extent) :
    validateProofs index extents ≠ .error .panicked := by
  induction extents with
  | nil => exact nofun
  | cons extent extents ih =>
    rw [validateProofs]
    cases index.metadata[extent.metadata]? with
    | none => exact nofun
    | some metadata =>
      show (if _ then _ else _) ≠ _
      split_ifs with other proof
      · exact nofun
      · rw [isPack]
        show (if _ then _ else _) ≠ _
        split_ifs
        · exact nofun
        · exact ih
      · exact ih

theorem loadTicks_ne_panicked {wire : IndexWire TickMetadata}
    {part : Except DataError TickPartition} {sym : String} :
    loadTicks wire file part sym ≠ .error .panicked := by
  unfold loadTicks
  cases load wire file .tick with
  | error error => exact nofun
  | ok index =>
    cases part with
    | error error => exact nofun
    | ok part =>
      show (if _ then _ else _) ≠ _
      split_ifs with alt bad
      · exact nofun
      · exact nofun
      · push Not at alt
        have isPack : index.identity.packRange = some (part.startNs, part.endNs) :=
          congrArg Identity.packRange alt.1
        have noPanic := validateProofs_ne_panicked isPack index.extents
        cases proofs : validateProofs index index.extents with
        | ok res => exact nofun
        | error err =>
          rw [proofs] at noPanic
          exact fun same => noPanic (congrArg Except.error (Except.error.inj same))

/-- A read of a container never stops the program; it gives an error, or rows of the range in
order, each of which is stored once; and where all times are read, every range is read as the
rows that lie in it. -/
theorem tickReads_restrict (wire : IndexWire TickMetadata) (zstd : ByteCodec) (file : ByteFile)
    (partition : Except DataError TickPartition) (symbol : String) :
    (∀ range, readTickFile wire zstd.1 file.1 partition symbol range ≠ .error .panicked ∧
      ∀ rows, readTickFile wire zstd.1 file.1 partition symbol range = .ok rows →
        ∃ index, loadTicks wire file.1 partition symbol = .ok index ∧
          RangeRows zstd.1 file.1 index range rows) ∧
    ∀ rows, readTickFile wire zstd.1 file.1 partition symbol (I64.minimum, I64.maximum) = .ok rows →
      ∀ range, readTickFile wire zstd.1 file.1 partition symbol range =
        .ok (rows.filter fun row => decide (range.1 ≤ row.datetime ∧ row.datetime < range.2)) := by
  unfold readTickFile
  have noPanic := @loadTicks_ne_panicked file.1 wire partition symbol
  cases isIndex : loadTicks wire file.1 partition symbol with
  | error err =>
    rw [isIndex] at noPanic
    refine ⟨fun range => ⟨fun same => noPanic ?_, nofun⟩, nofun⟩
    exact congrArg Except.error (Except.error.inj same)
  | ok index =>
    have sound := sound_of_loadTicks isIndex
    simp only [Result.ok_bind]
    refine ⟨fun range => ⟨(readTickRange_iff sound zstd.2 file.2 range).1, fun rows ok => ?_⟩,
      fun rows ok range => read_of_all sound zstd.2 file.2 ok range⟩
    exact ⟨index, rfl, rangeRows_of_read sound zstd.2 file.2 ok⟩

end HistoryContainer

end Tqsdk
