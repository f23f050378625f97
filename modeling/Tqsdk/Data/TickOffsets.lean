import Mathlib
import Tqsdk.Data.TickBlocks
import Tqsdk.Lib.Checked

/-!
# The cursor of a tick block

`Cursor` of `history_container/tick.rs` with its offset into the bytes, and with every index,
slice and operation of machine arithmetic that could stop the program.  It never does: the cursor
agrees with the one that drops the bytes that it reads.
-/

namespace Tqsdk

open List Result

/-- `valid_length`. -/
def validLength (rows bytes : Nat) : Except (Fault DataError) Bool :=
  if rows < 1 ∨ tickMaxRows < rows then .ok false
  else do
    let more ← Checked.sub rows 1
    let least ← Checked.add 64 tickFirstBytes (← Checked.mul 64 more 4)
    if bytes < least then return false
    else
      let more ← Checked.sub rows 1
      let most ← Checked.add 64 tickFirstBytes (← Checked.mul 64 more (4 + tickWords * 10))
      return decide (bytes ≤ most)

/-- `from_le_bytes` of bytes that have to be an array of this width. -/
def wordOf (width : Nat) (bytes : List Nat) : Except (Fault DataError) Nat :=
  if bytes.length = width then .ok (Bytes.ofLittleEndian bytes) else .error .panicked

/-- `Cursor`. -/
structure OffsetCursor where
  bytes : List Nat
  offset : Nat
  remaining : Nat
  first : Bool
  previous : List Nat

namespace OffsetCursor

/-- `Cursor::new`. -/
def start (bytes : List Nat) (expectedRows : Nat) : Except (Fault DataError) OffsetCursor := do
  let valid ← validLength expectedRows bytes.length
  if valid = false ∨ Checked.range bytes 0 4 ≠ some tickMagic then
    .error (.failed (containerError "invalid Tick payload magic or length"))
  else
    let count ← wordOf 4 (← Checked.slice bytes 4 8)
    if count ≠ expectedRows then
      .error (.failed (containerError "Tick payload row count mismatch"))
    else
      let previous ← (List.range tickWords).mapM fun i => do
        wordOf 8 (← Checked.slice bytes (8 + i * 8) (16 + i * 8))
      return ⟨bytes, tickFirstBytes, count, true, previous⟩

/-- `read_varint` from its loop at a position on; the word and the offset behind it. -/
def readVarint (bytes : List Nat) : Nat → Nat → Nat → Nat → Except (Fault DataError) (Nat × Nat)
  | 0, _, _, _ => .error (.failed (varintError .overflow))
  | left + 1, position, offset, value => do
      let byte ← Checked.orFail (varintError .truncated) bytes[offset]?
      let offset ← Checked.add 64 offset 1
      if position = 9 ∧ 1 < byte then .error (.failed (varintError .overflow))
      else
        let part ← Checked.shiftLeft 64 (byte &&& 0x7f) (position * 7)
        let value := value ||| part
        if byte &&& 0x80 = 0 then
          if 0 < position ∧ byte = 0 then .error (.failed (varintError .nonCanonical))
          else return (value, offset)
        else readVarint bytes left (position + 1) offset value

/-- The loop of `next` over the positions of a change mask, from one on. -/
def applyChanges (mask : Nat) (bytes : List Nat) :
    Nat → Nat → Nat → List Nat → Except (Fault DataError) (Nat × List Nat)
  | 0, _, offset, previous => .ok (offset, previous)
  | left + 1, position, offset, previous => do
      let bit ← Checked.shiftLeft 32 1 position
      if mask &&& bit ≠ 0 then
        let (xor, offset) ← readVarint bytes 10 0 offset 0
        if xor = 0 then .error (.failed (containerError "redundant Tick change-mask bit"))
        else
          let word ← Checked.index previous position
          applyChanges mask bytes left (position + 1) offset
            (previous.set position (word ^^^ xor))
      else applyChanges mask bytes left (position + 1) offset previous

/-- The part of `next` that reads the words of another row than the first. -/
def advance (cursor : OffsetCursor) : Except (Fault DataError) (Nat × List Nat) :=
  if cursor.first then .ok (cursor.offset, cursor.previous)
  else do
    let stop ← Checked.add 64 cursor.offset 4
    let maskBytes ← Checked.orFail (containerError "truncated Tick change mask")
      (Checked.range cursor.bytes cursor.offset stop)
    let mask ← wordOf 4 maskBytes
    let offset ← Checked.add 64 cursor.offset 4
    let unknown ← Checked.shiftRight 32 mask tickWords
    if unknown ≠ 0 then .error (.failed (containerError "unknown Tick change-mask bit"))
    else applyChanges mask cursor.bytes tickWords 0 offset cursor.previous

def next (cursor : OffsetCursor) : Except (Fault DataError) (Option (Tick × OffsetCursor)) :=
  if cursor.remaining = 0 then
    if cursor.offset ≠ cursor.bytes.length then
      .error (.failed (containerError "Tick payload trailing bytes"))
    else .ok none
  else do
    let (offset, previous) ← cursor.advance
    let remaining ← Checked.sub cursor.remaining 1
    let row ← Checked.lift (Tick.ofWords previous)
    if remaining = 0 ∧ offset ≠ cursor.bytes.length then
      .error (.failed (containerError "Tick payload trailing bytes"))
    else return some (row, ⟨cursor.bytes, offset, remaining, false, previous⟩)

/-- The rows of `next` until it gives none; a cursor that outlasts the calls counts as stopped. -/
def collect : Nat → OffsetCursor → Except (Fault DataError) (List Tick)
  | 0, _ => .error .panicked
  | calls + 1, cursor => do
      match ← cursor.next with
      | none => return []
      | some (row, cursor) =>
        let rows ← collect calls cursor
        return row :: rows

end OffsetCursor

/-- `Cursor::new` and every call of `next`. -/
def cursorRows (bytes : List Nat) (expectedRows : Nat) : Except (Fault DataError) (List Tick) := do
  let cursor ← OffsetCursor.start bytes expectedRows
  cursor.collect (expectedRows + 1)

/-! ## The start -/

theorem validLength_eq (rows bytes : Nat) :
    validLength rows bytes = .ok (tickValidLength rows bytes) := by
  unfold validLength tickValidLength
  split_ifs with out
  · rw [decide_eq_false fun fine => by omega]
  · have few : rows - 1 < 8192 := by
      unfold tickMaxRows at out
      omega
    unfold tickFirstBytes tickWords
    rw [Checked.sub_eq (by omega), ok_bind, Checked.mul_eq (by omega), ok_bind,
      Checked.add_eq (by omega), ok_bind]
    split_ifs with short
    · rw [decide_eq_false fun fine => by omega]
      rfl
    · rw [ok_bind, Checked.mul_eq (by omega), ok_bind, Checked.add_eq (by omega),
        ok_bind]
      refine congrArg Except.ok (decide_eq_decide.mpr ⟨fun win => ?_, fun fine => ?_⟩)
      · omega
      · omega

theorem wordOf_eq {wid : Nat} {bytes : List Nat} (len : bytes.length = wid) :
    wordOf wid bytes = .ok (Bytes.ofLittleEndian bytes) := if_pos len

/-- The offset divides the bytes that were read from the ones that the other cursor keeps. -/
structure OffsetCursor.Follows (cursor : OffsetCursor) (model : TickCursor) : Prop where
  bytes : model.bytes = cursor.bytes.drop cursor.offset
  inside : cursor.offset ≤ cursor.bytes.length
  short : cursor.bytes.length < 2 ^ 63
  first : model.first = cursor.first
  previous : model.previous = cursor.previous
  width : cursor.previous.length = tickWords

theorem OffsetCursor.start_agrees (bytes : List Nat) (rows : Nat) :
    Checked.Agrees (fun cursor model => cursor.Follows model ∧ cursor.remaining = rows ∧
      model.remaining = rows ∧ cursor.bytes = bytes)
      (start bytes rows) (TickCursor.start bytes rows) := by
  unfold start TickCursor.start
  rw [validLength_eq, ok_bind]
  by_cases fine : tickValidLength rows bytes.length = true
  · obtain ⟨-, few, long, short⟩ := of_decide_eq_true fine
    unfold tickMaxRows at few
    unfold tickFirstBytes tickWords at long short
    have magic : Checked.range bytes 0 4 = some (bytes.take 4) := if_pos ⟨Nat.zero_le _, by omega⟩
    have countWidth : ((bytes.drop 4).take 4).length = 4 := by
      rw [length_take, length_drop]
      omega
    simp only [magic, ne_eq, Option.some.injEq]
    by_cases bad : tickValidLength rows bytes.length = false ∨ ¬bytes.take 4 = tickMagic
    · rw [if_pos bad, if_pos bad]
      rfl
    · rw [if_neg bad, if_neg bad, Checked.slice_eq (by omega) (by omega), ok_bind,
        wordOf_eq countWidth, ok_bind]
      split_ifs with sameCount
      · have words : ((List.range tickWords).mapM fun i => do
            wordOf 8 (← Checked.slice bytes (8 + i * 8) (16 + i * 8))) =
              .ok ((List.range tickWords).map fun i => Bytes.wordAt (bytes.drop 8) i) := by
          refine mapM_eq_map fun i mem => ?_
          have lt := mem_range.mp mem
          unfold tickWords at lt
          rw [Checked.slice_eq (by omega) (by omega), ok_bind,
            show 16 + i * 8 - (8 + i * 8) = 8 by omega, wordOf_eq, Bytes.wordAt, drop_drop]
          rw [length_take, length_drop]
          omega
        rw [words, ok_bind]
        refine ⟨⟨rfl, ?_, ?_, rfl, rfl, ?_⟩, sameCount, sameCount, rfl⟩
        · show 8 + 31 * 8 ≤ bytes.length
          omega
        · show bytes.length < _
          omega
        · rw [length_map, length_range]
      · rfl
  · rw [Bool.not_eq_true] at fine
    rw [if_pos (.inl fine), if_pos (.inl fine)]
    rfl

/-! ## Variable-length words -/

theorem and_127 {byte : Nat} : byte &&& 0x7f = byte % 128 := Nat.and_two_pow_sub_one_eq_mod byte 7

theorem and_128_eq_zero {byte : Nat} (octet : byte < 256) : byte &&& 0x80 = 0 ↔ byte < 128 := by
  have bits : byte &&& 2 ^ 7 = (byte.testBit 7).toNat * 2 ^ 7 := Nat.and_two_pow byte 7
  rw [show 0x80 = 2 ^ 7 from rfl, bits, Nat.testBit_eq_decide_div_mod_eq]
  by_cases low : byte < 128
  · rw [decide_eq_false (by omega)]
    exact iff_of_true rfl low
  · rw [decide_eq_true (by omega)]
    exact iff_of_false (by decide) low

/-- Seven bits above those of a value. -/
theorem or_shiftLeft {val part at_ : Nat} (less : val < 2 ^ (at_ * 7))
    (fits : part * 2 ^ (at_ * 7) < 2 ^ 64) :
    val ||| ((part <<< (at_ * 7)) % 2 ^ 64) = val + 2 ^ (at_ * 7) * part := by
  rw [Nat.shiftLeft_eq, Nat.mod_eq_of_lt fits, Nat.mul_comm, Nat.or_comm,
    ← Nat.two_pow_add_eq_or_of_lt less, Nat.add_comm]

namespace OffsetCursor

variable {bytes : List Nat}

/-- The loop from a position on reads what the bits in front of it are put below. -/
theorem readVarint_agrees (octs : Bytes.Octets bytes) (short : bytes.length < 2 ^ 63)
    {left at_ off val : Nat} (here : at_ + left = 10)
    (inside : off ≤ bytes.length) (less : val < 2 ^ (at_ * 7)) :
    Checked.Agrees (fun (read : Nat × Nat) (model : Nat × List Nat) =>
      read.1 = val + 2 ^ (at_ * 7) * model.1 ∧ read.2 ≤ bytes.length ∧ model.2 = bytes.drop read.2)
      (readVarint bytes left at_ off val)
      ((Bytes.readVarintFrom left (bytes.drop off)).mapError varintError) := by
  induction left generalizing at_ off val with
  | zero => rfl
  | succ left ih =>
    rcases inside.eq_or_lt with rfl | inside
    · rw [readVarint, drop_length, getElem?_eq_none le_rfl]
      rfl
    have octet := octs bytes[off] (getElem_mem inside)
    have last : at_ = 9 ↔ left = 0 := by omega
    rw [readVarint, getElem?_eq_getElem inside, drop_eq_getElem_cons inside, Bytes.readVarintFrom]
    generalize bytes[off] = byte at octet
    show Checked.Agrees _ (Checked.add 64 off 1 >>= _) _
    rw [Checked.add_eq (by omega), ok_bind]
    simp only [last, and_127, and_128_eq_zero octet]
    by_cases overflow : left = 0 ∧ 1 < byte
    · rw [if_pos overflow, if_pos overflow]
      rfl
    have fits : byte % 128 * 2 ^ (at_ * 7) < 2 ^ 64 := by
      rcases Nat.lt_or_ge at_ 9 with early | late
      · have power : 2 ^ (at_ * 7) ≤ 2 ^ 56 := Nat.pow_le_pow_right (by decide) (by omega)
        have product := Nat.mul_le_mul (show byte % 128 ≤ 127 by omega) power
        exact lt_of_le_of_lt product (by decide)
      · have few : byte % 128 ≤ 1 := by omega
        obtain rfl : at_ = 9 := by omega
        exact lt_of_le_of_lt (Nat.mul_le_mul_right _ few) (by decide)
    rw [if_neg overflow, if_neg overflow, Checked.shiftLeft, if_pos (by omega), ok_bind]
    rw [or_shiftLeft less fits]
    by_cases done : byte < 128
    · rw [if_pos done, if_pos done, Nat.mod_eq_of_lt done]
      by_cases padded : left < 9 ∧ byte = 0
      · rw [if_pos padded, if_pos ⟨by omega, padded.2⟩]
        rfl
      · rw [if_neg padded, if_neg fun zero => padded ⟨by omega, zero.2⟩]
        exact ⟨rfl, inside, rfl⟩
    · have power : 2 ^ ((at_ + 1) * 7) = 2 ^ (at_ * 7) * 128 := by
        rw [Nat.succ_mul, pow_add]
        rfl
      have bits := Nat.mul_le_mul_left (2 ^ (at_ * 7)) (show byte % 128 ≤ 127 by omega)
      have more := @ih (at_ + 1) (off + 1)
        (val + 2 ^ (at_ * 7) * (byte % 128)) (by omega) inside (by rw [power]; omega)
      rw [if_neg done, if_neg done]
      cases isHigh : Bytes.readVarintFrom left (bytes.drop (off + 1)) with
      | error error =>
        rw [isHigh] at more
        exact Checked.agrees_error.mpr (Checked.agrees_error.mp more)
      | ok high =>
        rw [isHigh] at more
        obtain ⟨read, isRead, isValue, win, rest⟩ := Checked.agrees_ok.mp more
        refine Checked.agrees_ok.mpr ⟨read, isRead, ?_, win, rest⟩
        rw [isValue, power, Nat.mul_add, Nat.mul_assoc, Nat.add_assoc]

/-! ## Rows -/

/-- The words in front of a position are the ones of the row, the others those of the row before. -/
theorem applyChanges_agrees (octs : Bytes.Octets bytes) (short : bytes.length < 2 ^ 63)
    (mask : Nat) (chg same : List Nat) {off : Nat}
    (few : chg.length + same.length ≤ tickWords) (mem : off ≤ bytes.length) :
    Checked.Agrees (fun (read : Nat × List Nat) (model : List Nat × List Nat) =>
      read.1 ≤ bytes.length ∧ model.2 = bytes.drop read.1 ∧ read.2 = chg ++ model.1 ∧
        model.1.length = same.length)
      (applyChanges mask bytes same.length chg.length off (chg ++ same))
      (readChanges (mask / 2 ^ chg.length) same (bytes.drop off)) := by
  induction same generalizing chg off with
  | nil => exact ⟨mem, rfl, rfl, rfl⟩
  | cons word same ih =>
    unfold tickWords at few ih
    rw [length_cons] at few
    have bit : mask &&& 2 ^ chg.length ≠ 0 ↔ mask / 2 ^ chg.length % 2 = 1 := by
      rw [Nat.and_two_pow, Nat.testBit_eq_decide_div_mod_eq]
      by_cases set : mask / 2 ^ chg.length % 2 = 1
      · rw [decide_eq_true set]
        exact iff_of_true (by simp) set
      · rw [decide_eq_false set]
        exact iff_of_false (by simp) set
    have power : 2 ^ chg.length < 2 ^ 32 := Nat.pow_lt_pow_right (by decide) (by omega)
    have lag : mask / 2 ^ chg.length / 2 = mask / 2 ^ (chg.length + 1) := by
      rw [Nat.div_div_eq_div_mul, ← pow_succ]
    have stepTo (next : Nat) {off : Nat} (mem : off ≤ bytes.length) :=
      ih (chg ++ [next]) (by rw [length_append, length_singleton]; omega) mem
    simp only [length_append, length_singleton, append_assoc, singleton_append] at stepTo
    rw [length_cons, applyChanges, Checked.shiftLeft, if_pos (by omega), ok_bind,
      Nat.one_shiftLeft, Nat.mod_eq_of_lt power, readChanges]
    simp only [bit]
    split_ifs with chs
    · refine (readVarint_agrees octs short (by rfl) mem (by decide)).bind ?_
      rintro ⟨change, next⟩ ⟨modelChange, rest⟩ ⟨isChange, win, rfl⟩
      obtain rfl : change = modelChange := by simpa using isChange
      dsimp only
      split_ifs with redundant
      · rfl
      · have hit : (chg ++ word :: same)[chg.length]? = some word := by
          rw [getElem?_append_right le_rfl, Nat.sub_self, getElem?_cons_zero]
        rw [Checked.index, hit]
        show Checked.Agrees _ (applyChanges _ _ _ _ _ _) _
        rw [set_append_right _ _ le_rfl, Nat.sub_self, set_cons_zero, lag]
        refine (stepTo (word ^^^ change) win).map_right ?_
        rintro read model ⟨mem, rest, isRead, wid⟩
        exact ⟨_, rfl, mem, rest, isRead, congrArg Nat.succ wid⟩
    · rw [lag]
      refine (stepTo word mem).map_right ?_
      rintro read model ⟨mem, rest, isRead, wid⟩
      exact ⟨_, rfl, mem, rest, isRead, congrArg Nat.succ wid⟩

variable {cursor : OffsetCursor} {model : TickCursor}

theorem advance_agrees (fol : cursor.Follows model) (octs : Bytes.Octets cursor.bytes) :
    Checked.Agrees (fun (read : Nat × List Nat) (alt : List Nat × List Nat) =>
      read.1 ≤ cursor.bytes.length ∧ alt.2 = cursor.bytes.drop read.1 ∧ read.2 = alt.1 ∧
        read.2.length = tickWords)
      cursor.advance model.nextWords := by
  obtain ⟨isBytes, mem, few, fst, prev, wid⟩ := fol
  unfold advance TickCursor.nextWords
  rw [fst, prev, isBytes]
  by_cases hd : cursor.first = true
  · rw [if_pos hd, if_pos hd]
    exact ⟨mem, rfl, rfl, wid⟩
  · rw [if_neg hd, if_neg hd, Checked.add_eq (by omega), ok_bind, length_drop]
    by_cases truncated : cursor.bytes.length - cursor.offset < 4
    · rw [if_pos truncated, Checked.range_eq_none (by omega)]
      rfl
    have maskWidth : ((cursor.bytes.drop cursor.offset).take 4).length = 4 := by
      rw [length_take, length_drop]
      omega
    rw [if_neg truncated, Checked.range, if_pos ⟨by omega, by omega⟩, Nat.add_sub_cancel_left]
    show Checked.Agrees _ (wordOf 4 _ >>= _) _
    rw [wordOf_eq maskWidth, ok_bind, Checked.shiftRight, if_pos (by decide),
      ok_bind, Nat.shiftRight_eq_div_pow, ok_bind]
    by_cases miss :
        Bytes.ofLittleEndian ((cursor.bytes.drop cursor.offset).take 4) / 2 ^ tickWords ≠ 0
    · rw [if_pos miss, if_pos miss]
      rfl
    · rw [if_neg miss, if_neg miss, drop_drop]
      have chs := applyChanges_agrees octs few
        (Bytes.ofLittleEndian ((cursor.bytes.drop cursor.offset).take 4)) [] cursor.previous
        (by rw [wid]; rfl) (show cursor.offset + 4 ≤ cursor.bytes.length by omega)
      rw [wid, length_nil, pow_zero, Nat.div_one, nil_append] at chs
      refine chs.mono ?_
      rintro read alt ⟨win, rest, isRead, sameWidth⟩
      rw [nil_append] at isRead
      exact ⟨win, rest, isRead, by rw [isRead, sameWidth]⟩

/-- A call that has a row left gives what the other cursor gives. -/
theorem next_agrees {rem : Nat} (fol : cursor.Follows model)
    (octs : Bytes.Octets cursor.bytes) (left : cursor.remaining = rem + 1) :
    Checked.Agrees (fun (res : Option (Tick × OffsetCursor)) (alt : Tick × TickCursor) =>
      ∃ post, res = some (alt.1, post) ∧ post.Follows alt.2 ∧
        post.remaining = rem ∧ post.bytes = cursor.bytes)
      cursor.next (model.nextRow rem) := by
  unfold next TickCursor.nextRow
  rw [if_neg (by omega)]
  refine (advance_agrees fol octs).bind ?_
  rintro ⟨off, prev⟩ ⟨words, rest⟩ ⟨mem, isRest, isWords, wid⟩
  dsimp only at mem isRest isWords wid ⊢
  obtain rfl := isWords
  rw [left, Checked.sub_eq (by omega), ok_bind, Nat.add_sub_cancel]
  refine (Checked.lift_agrees (Tick.ofWords prev)).bind ?_
  rintro row _ rfl
  have fin : off ≠ cursor.bytes.length ↔ rest ≠ [] := by
    rw [isRest, ne_eq, ne_eq, drop_eq_nil_iff]
    omega
  simp only [fin]
  split_ifs with trail
  · rfl
  · exact ⟨_, rfl, ⟨isRest, mem, fol.short, rfl, rfl, wid⟩, rfl, rfl⟩

theorem collect_agrees {rem : Nat} (fol : cursor.Follows model)
    (octs : Bytes.Octets cursor.bytes) (left : cursor.remaining = rem) :
    Checked.Agrees Eq (cursor.collect (rem + 1)) (model.collect rem) := by
  induction rem generalizing cursor model with
  | zero =>
    have fin : cursor.offset ≠ cursor.bytes.length ↔ model.bytes ≠ [] := by
      have mem := fol.inside
      rw [fol.bytes, ne_eq, ne_eq, drop_eq_nil_iff]
      omega
    rw [collect, next, if_pos left, TickCursor.collect]
    simp only [fin]
    split_ifs
    · rfl
    · rfl
  | succ rem ih =>
    rw [collect, TickCursor.collect]
    refine (next_agrees fol octs left).bind ?_
    rintro res ⟨row, next⟩ ⟨post, rfl, followsAfter, leftAfter, sameBytes⟩
    refine (ih followsAfter (by rwa [sameBytes]) leftAfter).bind ?_
    rintro rows _ rfl
    exact rfl

end OffsetCursor

/-- The cursor gives what the bytes behind its offset make, and never stops the program. -/
theorem cursorRows_eq {bytes : List Nat} (octs : Bytes.Octets bytes) (expectedRows : Nat) :
    cursorRows bytes expectedRows = Checked.lift (collectTickPayload bytes expectedRows) := by
  refine Checked.Agrees.eq_lift ((OffsetCursor.start_agrees bytes expectedRows).bind ?_)
  rintro cursor model ⟨next, left, modelLeft, sameBytes⟩
  rw [modelLeft]
  exact OffsetCursor.collect_agrees next (by rwa [sameBytes]) left

/-- Ticks of any bits go through a block unchanged, and a block that is read is the one that its
ticks make; no bytes stop the program. -/
theorem tickBlocks_canonical :
    (∀ (first : Tick) (rest : List Tick), (first :: rest).length ≤ tickMaxRows →
      (∀ row ∈ first :: rest, row.Stored) →
      ∃ bytes, encodeTickPayload (first :: rest) = .ok bytes ∧
        countTickPayload first rest = bytes.length ∧
        validLength (first :: rest).length bytes.length = .ok true ∧
        cursorRows bytes (first :: rest).length = .ok (first :: rest)) ∧
    (∀ (bytes : List Nat) (expectedRows : Nat) (rows : List Tick), Bytes.Octets bytes →
      cursorRows bytes expectedRows = .ok rows →
      rows.length = expectedRows ∧ encodeTickPayload rows = .ok bytes) ∧
    ∀ (bytes : List Nat) (expectedRows : Nat), Bytes.Octets bytes →
      cursorRows bytes expectedRows ≠ .error .panicked := by
  refine ⟨fun first rest few got => ?_, fun bytes expectedRows rows octs ok => ?_,
    fun bytes expectedRows octs => ?_⟩
  · obtain ⟨cnt, octs⟩ := countTickPayload_eq got
    refine ⟨_, encodeTickPayload_eq_ok few got, cnt, ?_, ?_⟩
    · rw [validLength_eq, (tickPayload_valid few got).1]
    · rw [cursorRows_eq octs, collectTickPayload_tickPayload few got]
      rfl
  · rw [cursorRows_eq octs] at ok
    obtain ⟨enc, n, -⟩ :=
      encodeTickPayload_collectTickPayload octs (Checked.lift_eq_ok.mp ok)
    exact ⟨n, enc⟩
  · rw [cursorRows_eq octs]
    exact Checked.lift_ne_panicked _

end Tqsdk
