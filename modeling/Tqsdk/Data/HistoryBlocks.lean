import Tqsdk.Data.Rows
import Tqsdk.Data.TradingDay
import Tqsdk.Lib.Bytes

/-!
# Blocks of the history container

The payloads of `history_container/tick.rs` and of `encode_klines` in `history_container.rs`.  A
tick block keeps the words of its first row and of every other row the words that changed; a
K-line block keeps every row in 81 bytes.
-/

namespace Tqsdk

open List Result

def containerError (message : String) : DataError :=
  .invalidResponse ("history container: " ++ message)

def maxBlockBytes : Nat := 8 * 1024 * 1024

/-! ## Words of rows -/

/-- A `Kline` of which the container stores the bits. -/
structure StoredKline where
  id : Int
  datetime : Int
  bits : List Nat
  epoch : Option Int
  deriving DecidableEq

/-- The fields have the widths that the types of the source give them. -/
structure StoredFields (id datetime : Int) (bits : List Nat) (epoch : Option Int) (words : Nat) :
    Prop where
  idInRange : I64.InRange id
  datetimeInRange : I64.InRange datetime
  bitsFit : ∀ word ∈ bits, word < 2 ^ 64
  length : bits.length = words
  epochInRange : ∀ value, epoch = some value → I64.InRange value

/-- A tick has the words of 27 prices and volumes. -/
def Tick.Stored (tick : Tick) : Prop :=
  StoredFields tick.id tick.datetime tick.bits tick.epoch 27

/-- A K-line has those of seven. -/
def StoredKline.Stored (row : StoredKline) : Prop :=
  StoredFields row.id row.datetime row.bits row.epoch 7

def epochWords : Option Int → List Nat
  | none => [0, 0]
  | some value => [1, Bytes.ofInt value]

def epochOfWords (present value : Nat) (message : String) : Except DataError (Option Int) :=
  if present = 0 ∧ value = 0 then .ok none
  else if present = 1 then .ok (some (Bytes.toInt value))
  else .error (containerError message)

theorem epochOfWords_epochWords {epoch : Option Int} (msg : String)
    (inR : ∀ val, epoch = some val → I64.InRange val) :
    ∃ here val, epochWords epoch = [here, val] ∧ here < 2 ^ 64 ∧ val < 2 ^ 64 ∧
      epochOfWords here val msg = .ok epoch := by
  cases epoch with
  | none => exact ⟨0, 0, rfl, by decide, by decide, rfl⟩
  | some val =>
    refine ⟨1, _, rfl, by decide, Bytes.ofInt_lt val, ?_⟩
    rw [epochOfWords, if_neg (by omega), if_pos rfl, Bytes.toInt_ofInt (inR val rfl)]

/-- `words`. -/
def Tick.words (row : Tick) : List Nat :=
  Bytes.ofInt row.id :: Bytes.ofInt row.datetime :: row.bits ++ epochWords row.epoch

/-- `from_words`; other lists than those of 31 words do not occur. -/
def Tick.ofWords : List Nat → Except DataError Tick
  | id :: datetime :: fields =>
    match fields.drop 27 with
    | [present, value] => do
        let epoch ← epochOfWords present value "invalid Tick epoch presence/value"
        return ⟨Bytes.toInt id, Bytes.toInt datetime, fields.take 27, epoch⟩
    | _ => .error (containerError "invalid Tick epoch presence/value")
  | _ => .error (containerError "invalid Tick epoch presence/value")

theorem Tick.length_words {row : Tick} (got : row.Stored) : row.words.length = 31 := by
  have epoch : (epochWords row.epoch).length = 2 := by cases row.epoch <;> rfl
  simp only [Tick.words, length_cons, length_append, got.length, epoch]

theorem Tick.words_lt {row : Tick} (got : row.Stored) : ∀ word ∈ row.words, word < 2 ^ 64 := by
  obtain ⟨here, val, same, first, snd, -⟩ := epochOfWords_epochWords "" got.epochInRange
  intro word member
  simp only [Tick.words, same, cons_append, mem_cons, mem_append, not_mem_nil, or_false] at member
  rcases member with rfl | rfl | member | rfl | rfl
  · exact Bytes.ofInt_lt _
  · exact Bytes.ofInt_lt _
  · exact got.bitsFit word member
  · exact first
  · exact snd

theorem Tick.ofWords_words {row : Tick} (got : row.Stored) : Tick.ofWords row.words = .ok row := by
  obtain ⟨here, val, same, -, -, dec⟩ :=
    epochOfWords_epochWords "invalid Tick epoch presence/value" got.epochInRange
  rw [Tick.words, same]
  simp only [cons_append, Tick.ofWords]
  rw [drop_append_of_le_length got.length.ge, drop_of_length_le got.length.le,
    take_append_of_le_length got.length.ge, take_of_length_le got.length.le]
  simp only [nil_append, dec, Bytes.toInt_ofInt got.idInRange,
    Bytes.toInt_ofInt got.datetimeInRange]
  rfl

/-! ## Tick blocks -/

def tickMagic : List Nat := [0x54, 0x58, 0x30, 0x31]

def tickWords : Nat := 31

def tickMaxRows : Nat := 8192

def tickFirstBytes : Nat := 8 + tickWords * 8

/-- `valid_length`. -/
def tickValidLength (rows bytes : Nat) : Bool :=
  decide (1 ≤ rows ∧ rows ≤ tickMaxRows ∧ tickFirstBytes + (rows - 1) * 4 ≤ bytes ∧
    bytes ≤ tickFirstBytes + (rows - 1) * (4 + tickWords * 10))

/-- The bit of each word that changed, that of the first word the lowest. -/
def changeMask : List Nat → List Nat → Nat
  | left :: previous, right :: current =>
    (if left = right then 0 else 1) + 2 * changeMask previous current
  | _, _ => 0

def changeBytes : List Nat → List Nat → List Nat
  | left :: previous, right :: current =>
    (if left = right then [] else Bytes.varint (left ^^^ right)) ++ changeBytes previous current
  | _, _ => []

def encodeChange (previous current : List Nat) : List Nat :=
  Bytes.littleEndian 4 (changeMask previous current) ++ changeBytes previous current

def encodeChanges : List Nat → List Tick → List Nat
  | _, [] => []
  | previous, row :: rows => encodeChange previous row.words ++ encodeChanges row.words rows

/-- The payload of a first row and the rows behind it. -/
def tickPayload (first : Tick) (rest : List Tick) : List Nat :=
  tickMagic ++ Bytes.littleEndian 4 (first :: rest).length ++
    Bytes.ofWords first.words ++ encodeChanges first.words rest

/-- `encode_payload`, which counts the bytes before it writes them. -/
def encodeTickPayload : List Tick → Except DataError (List Nat)
  | [] => .error (containerError "invalid Tick row count")
  | first :: rest =>
    if tickMaxRows < (first :: rest).length then
      .error (containerError "invalid Tick row count")
    else if maxBlockBytes < (tickPayload first rest).length then
      .error (containerError "Tick payload exceeds block limit")
    else .ok (tickPayload first rest)

def varintError : Bytes.VarintError → DataError
  | .truncated => containerError "truncated Tick varint"
  | .overflow => containerError "Tick varint overflow"
  | .nonCanonical => containerError "non-canonical Tick varint"

/-- The words behind a change, and the bytes behind it. -/
def readChanges : Nat → List Nat → List Nat → Except DataError (List Nat × List Nat)
  | _, [], bytes => .ok ([], bytes)
  | mask, word :: words, bytes =>
    if mask % 2 = 1 then do
      let (change, bytes) ← (Bytes.readVarint bytes).mapError varintError
      if change = 0 then .error (containerError "redundant Tick change-mask bit")
      else do
        let (words, bytes) ← readChanges (mask / 2) words bytes
        return ((word ^^^ change) :: words, bytes)
    else do
      let (words, bytes) ← readChanges (mask / 2) words bytes
      return (word :: words, bytes)

/-- `Cursor`; its bytes are those behind its offset. -/
structure TickCursor where
  bytes : List Nat
  remaining : Nat
  first : Bool
  previous : List Nat

namespace TickCursor

/-- `Cursor::new`. -/
def start (bytes : List Nat) (expectedRows : Nat) : Except DataError TickCursor :=
  if tickValidLength expectedRows bytes.length = false ∨ bytes.take 4 ≠ tickMagic then
    .error (containerError "invalid Tick payload magic or length")
  else
    let count := Bytes.ofLittleEndian ((bytes.drop 4).take 4)
    if count ≠ expectedRows then .error (containerError "Tick payload row count mismatch")
    else .ok ⟨bytes.drop tickFirstBytes, count, true, (List.range tickWords).map fun i =>
      Bytes.wordAt (bytes.drop 8) i⟩

/-- The words of the next row and the bytes behind it. -/
def nextWords (cursor : TickCursor) : Except DataError (List Nat × List Nat) :=
  if cursor.first then .ok (cursor.previous, cursor.bytes)
  else if cursor.bytes.length < 4 then .error (containerError "truncated Tick change mask")
  else
    let mask := Bytes.ofLittleEndian (cursor.bytes.take 4)
    if mask / 2 ^ tickWords ≠ 0 then .error (containerError "unknown Tick change-mask bit")
    else readChanges mask cursor.previous (cursor.bytes.drop 4)

/-- `next` of a cursor with rows left. -/
def nextRow (cursor : TickCursor) (remaining : Nat) : Except DataError (Tick × TickCursor) := do
  let (words, bytes) ← cursor.nextWords
  let row ← Tick.ofWords words
  if remaining = 0 ∧ bytes ≠ [] then .error (containerError "Tick payload trailing bytes")
  else .ok (row, ⟨bytes, remaining, false, words⟩)

/-- The loop of `read`: the rows of a cursor behind those that were read. -/
def readRows : Nat → TickCursor → List Tick → Except DataError (List Tick)
  | 0, cursor, rows =>
    if cursor.bytes ≠ [] then .error (containerError "Tick payload trailing bytes") else .ok rows
  | remaining + 1, cursor, rows => do
      let (row, cursor) ← cursor.nextRow remaining
      if rows.getLast?.any fun last => decide (row.datetime < last.datetime) then
        .error (containerError "Tick block times are not ordered")
      else readRows remaining cursor (rows ++ [row])

end TickCursor

/-! ### What was written is read -/

theorem changeMask_lt (prev cur : List Nat) :
    changeMask prev cur < 2 ^ prev.length := by
  induction prev generalizing cur with
  | nil => exact Nat.one_pos
  | cons left prev ih =>
    cases cur with
    | nil => exact Nat.two_pow_pos _
    | cons right cur =>
      have rest := ih cur
      rw [changeMask, length_cons, pow_succ]
      split <;> omega

theorem readChanges_changeBytes {prev cur : List Nat} (rest : List Nat)
    (same : prev.length = cur.length) (prevFits : ∀ word ∈ prev, word < 2 ^ 64)
    (curFits : ∀ word ∈ cur, word < 2 ^ 64) :
    readChanges (changeMask prev cur) prev (changeBytes prev cur ++ rest) = .ok (cur, rest) := by
  induction prev generalizing cur with
  | nil =>
    obtain rfl := length_eq_zero_iff.mp same.symm
    rfl
  | cons left prev ih =>
    cases cur with
    | nil => cases same
    | cons right cur =>
      have alts := @ih cur (Nat.succ.inj same)
        (fun word mem => prevFits word (mem_cons_of_mem _ mem))
        fun word mem => curFits word (mem_cons_of_mem _ mem)
      by_cases kept : left = right
      · rw [changeMask, changeBytes, if_pos kept, if_pos kept, nil_append,
          readChanges, if_neg (by omega), zero_add, Nat.mul_div_cancel_left _ two_pos, alts,
          kept]
        rfl
      · have fits : left ^^^ right < 2 ^ 64 := Nat.xor_lt_two_pow
          (prevFits left mem_cons_self) (curFits right mem_cons_self)
        have chg : left ^^^ right ≠ 0 := fun zero => kept (by
          have same := congrArg (left ^^^ ·) zero
          simpa [← Nat.xor_assoc] using same.symm)
        have half : (1 + 2 * changeMask prev cur) / 2 = changeMask prev cur := by omega
        rw [changeMask, changeBytes, if_neg kept, if_neg kept, readChanges,
          if_pos (by omega), append_assoc, Bytes.readVarint_varint _ fits, half]
        simp only [Except.mapError, ok_bind, if_neg chg, alts]
        show Except.ok _ = _
        rw [← Nat.xor_assoc, Nat.xor_self, Nat.zero_xor]

namespace TickCursor

theorem nextRow_encodeChange {prev : List Nat} {row : Tick} (rest : List Nat) {rem left : Nat}
    (wid : prev.length = tickWords) (prevFits : ∀ word ∈ prev, word < 2 ^ 64) (got : row.Stored)
    (all : left = 0 → rest = []) :
    nextRow ⟨encodeChange prev row.words ++ rest, rem, false, prev⟩ left =
      .ok (row, ⟨rest, left, false, row.words⟩) := by
  have maskFits := changeMask_lt prev row.words
  rw [wid] at maskFits
  have mask : Bytes.ofLittleEndian (Bytes.littleEndian 4 (changeMask prev row.words)) =
      changeMask prev row.words := by
    refine Bytes.ofLittleEndian_littleEndian 4 (maskFits.trans ?_)
    unfold tickWords
    decide
  have words : nextWords ⟨encodeChange prev row.words ++ rest, rem, false, prev⟩ =
      .ok (row.words, rest) := by
    have preLen := Bytes.length_littleEndian 4 (changeMask prev row.words)
    simp only [nextWords, encodeChange, append_assoc, Bool.false_eq_true, if_false]
    rw [if_neg (by rw [length_append, preLen]; omega),
      take_append_of_le_length preLen.ge, take_of_length_le preLen.le, mask,
      if_neg (by rw [Nat.div_eq_of_lt maskFits]; exact not_not.mpr rfl),
      drop_append_of_le_length preLen.ge, drop_of_length_le preLen.le,
      nil_append]
    exact readChanges_changeBytes rest (wid.trans (Tick.length_words got).symm) prevFits
      (Tick.words_lt got)
  simp only [nextRow, words, ok_bind, Tick.ofWords_words got]
  exact if_neg fun trail => trail.2 (all trail.1)

theorem readRows_encodeChanges {prev : List Nat} {rows : List Tick} (pre : List Tick)
    (wid : prev.length = tickWords) (prevFits : ∀ word ∈ prev, word < 2 ^ 64)
    (got : ∀ row ∈ rows, row.Stored)
    (ord : (pre ++ rows).Pairwise fun left right => left.datetime ≤ right.datetime) (rem : Nat) :
    readRows rows.length ⟨encodeChanges prev rows, rem, false, prev⟩ pre = .ok (pre ++ rows) := by
  induction rows generalizing prev pre rem with
  | nil => rw [append_nil]; rfl
  | cons row rows ih =>
    have here := got row mem_cons_self
    rw [length_cons, readRows, encodeChanges,
      nextRow_encodeChange _ wid prevFits here fun last => by
        rw [length_eq_zero_iff.mp last]; rfl, ok_bind]
    dsimp only
    rw [if_neg, ih (pre ++ [row]) (Tick.length_words here) (Tick.words_lt here)
      (fun alt mem => got alt (mem_cons_of_mem _ mem))
      (by simpa using ord), append_assoc, singleton_append]
    intro post
    cases fin : pre.getLast? with
    | none => rw [fin] at post; cases post
    | some last => ?_
    rw [fin] at post
    have le := (pairwise_append.mp ord).2.2 last (mem_of_getLast? fin) row mem_cons_self
    exact absurd (of_decide_eq_true post) (not_lt.mpr le)

end TickCursor

/-- The rows of a payload, in the order of their times. -/
def decodeTickPayload (bytes : List Nat) (rows : Nat) : Except DataError (List Tick) := do
  let cursor ← TickCursor.start bytes rows
  cursor.readRows cursor.remaining []

theorem length_changeBytes_le (prev cur : List Nat) :
    (changeBytes prev cur).length ≤ prev.length * 10 := by
  induction prev generalizing cur with
  | nil => exact le_rfl
  | cons left prev ih =>
    cases cur with
    | nil => exact Nat.zero_le _
    | cons right cur =>
      have rest := ih cur
      have here := Bytes.length_varint_le (left ^^^ right)
      rw [changeBytes, length_append, length_cons]
      split
      · rw [length_nil]
        omega
      · omega

theorem length_encodeChanges {prev : List Nat} {rows : List Tick}
    (wid : prev.length = tickWords) (got : ∀ row ∈ rows, row.Stored) :
    rows.length * 4 ≤ (encodeChanges prev rows).length ∧
      (encodeChanges prev rows).length ≤ rows.length * (4 + tickWords * 10) := by
  induction rows generalizing prev with
  | nil => exact ⟨le_rfl, le_rfl⟩
  | cons row rows ih =>
    obtain ⟨low, most⟩ := ih (Tick.length_words (got row mem_cons_self))
      fun alt mem => got alt (mem_cons_of_mem _ mem)
    have chg := length_changeBytes_le prev row.words
    rw [wid] at chg
    rw [encodeChanges, encodeChange, length_append, length_append,
      Bytes.length_littleEndian, length_cons]
    unfold tickWords at *
    omega

variable {first : Tick} {rest : List Tick}

section

variable (few : (first :: rest).length ≤ tickMaxRows) (got : ∀ row ∈ first :: rest, row.Stored)

include few got

theorem tickPayload_valid :
    tickValidLength (first :: rest).length (tickPayload first rest).length = true ∧
      (tickPayload first rest).length ≤ maxBlockBytes := by
  have wid := Tick.length_words (got first mem_cons_self)
  have chs := length_encodeChanges wid fun row mem => got row (mem_cons_of_mem _ mem)
  have len : (tickPayload first rest).length =
      tickFirstBytes + (encodeChanges first.words rest).length := by
    simp only [tickPayload, length_append, Bytes.length_littleEndian, Bytes.length_ofWords, wid]
    rfl
  rw [len]
  rw [length_cons] at few ⊢
  unfold tickMaxRows at few
  constructor
  · refine decide_eq_true ⟨Nat.le_add_left _ _, few, ?_, ?_⟩ <;>
      · rw [Nat.add_sub_cancel]
        omega
  · unfold tickWords at chs
    unfold maxBlockBytes tickFirstBytes tickWords
    omega

theorem encodeTickPayload_eq_ok :
    encodeTickPayload (first :: rest) = .ok (tickPayload first rest) := by
  rw [encodeTickPayload, if_neg (not_lt.mpr few)]
  exact if_neg (not_lt.mpr (tickPayload_valid few got).2)

theorem start_tickPayload :
    TickCursor.start (tickPayload first rest) (first :: rest).length =
      .ok ⟨encodeChanges first.words rest, (first :: rest).length, true, first.words⟩ := by
  have here := got first mem_cons_self
  have wid := Tick.length_words here
  have n : Bytes.ofLittleEndian (Bytes.littleEndian 4 (first :: rest).length) =
      (first :: rest).length := by
    refine Bytes.ofLittleEndian_littleEndian 4 (lt_of_le_of_lt few ?_)
    decide
  have countWidth := Bytes.length_littleEndian 4 (first :: rest).length
  have magic : (tickPayload first rest).take 4 = tickMagic := by
    unfold tickPayload
    rw [append_assoc, append_assoc]
    rfl
  have behindMagic : (tickPayload first rest).drop 4 =
      Bytes.littleEndian 4 (first :: rest).length ++
        (Bytes.ofWords first.words ++ encodeChanges first.words rest) := by
    unfold tickPayload
    rw [append_assoc, append_assoc]
    rfl
  have behindCount : (tickPayload first rest).drop 8 =
      Bytes.ofWords first.words ++ encodeChanges first.words rest := by
    rw [show 8 = 4 + 4 from rfl, ← drop_drop, behindMagic, drop_left' countWidth]
  have behindFirst : (tickPayload first rest).drop tickFirstBytes =
      encodeChanges first.words rest := by
    rw [tickFirstBytes, ← drop_drop, behindCount, drop_left']
    rw [Bytes.length_ofWords, wid]
    rfl
  have words : ((List.range tickWords).map fun i =>
      Bytes.wordAt ((tickPayload first rest).drop 8) i) = first.words := by
    refine ext_getElem (by rw [length_map, length_range, wid]; rfl) ?_
    intro i _ mem
    rw [getElem_map, getElem_range, behindCount]
    exact Bytes.wordAt_ofWords _ i mem (Tick.words_lt here)
  rw [TickCursor.start, if_neg]
  · dsimp only
    rw [behindMagic, take_left' countWidth, n, if_neg (not_not.mpr rfl), behindFirst, words]
  · rintro (bad | other)
    · rw [(tickPayload_valid few got).1] at bad
      cases bad
    · exact other magic

theorem decodeTickPayload_tickPayload
    (ord : (first :: rest).Pairwise fun left right => left.datetime ≤ right.datetime) :
    decodeTickPayload (tickPayload first rest) (first :: rest).length = .ok (first :: rest) := by
  have here := got first mem_cons_self
  rw [decodeTickPayload, start_tickPayload few got, ok_bind]
  dsimp only
  rw [length_cons, TickCursor.readRows]
  have row : TickCursor.nextRow ⟨encodeChanges first.words rest, rest.length + 1, true,
      first.words⟩ rest.length =
        .ok (first, ⟨encodeChanges first.words rest, rest.length, false, first.words⟩) := by
    simp only [TickCursor.nextRow, TickCursor.nextWords, if_true, ok_bind, Tick.ofWords_words here]
    refine if_neg fun trail => trail.2 ?_
    rw [length_eq_zero_iff.mp trail.1]
    rfl
  rw [row, ok_bind]
  dsimp only
  rw [if_neg (by simp)]
  exact TickCursor.readRows_encodeChanges [first] (Tick.length_words here) (Tick.words_lt here)
    (fun alt mem => got alt (mem_cons_of_mem _ mem)) ord _

end

/-! ## K-line blocks -/

def klineBytes : Nat := 81

namespace StoredKline

/-- The words of `encode_fields`. -/
def words (row : StoredKline) : List Nat :=
  Bytes.ofInt row.id :: Bytes.ofInt row.datetime :: row.bits

/-- The words, and the epoch behind them. -/
def encode (row : StoredKline) : List Nat :=
  Bytes.ofWords row.words ++
    (if row.epoch.isSome then 1 else 0) :: Bytes.littleEndian 8 (Bytes.ofInt (row.epoch.getD 0))

/-- A chunk of `klineBytes`. -/
def decode (bytes : List Nat) : Except DataError StoredKline := do
  let epoch ← epochOfWords (bytes.getD 72 0) (Bytes.ofLittleEndian ((bytes.drop 73).take 8))
    "invalid epoch presence/value"
  return ⟨Bytes.toInt (Bytes.wordAt bytes 0), Bytes.toInt (Bytes.wordAt bytes 1),
    (List.range 7).map fun index => Bytes.wordAt bytes (index + 2), epoch⟩

def decodeRows : Nat → List Nat → Except DataError (List StoredKline)
  | 0, _ => .ok []
  | chunks + 1, bytes => do
      let row ← decode (bytes.take klineBytes)
      let rows ← decodeRows chunks (bytes.drop klineBytes)
      return row :: rows

variable {row : StoredKline}

theorem length_words (got : row.Stored) : row.words.length = 9 := by
  simp only [words, length_cons, got.length]

theorem length_encode (got : row.Stored) :
    row.encode.length = klineBytes := by
  simp only [encode, length_append, Bytes.length_ofWords, length_words got,
    length_cons, Bytes.length_littleEndian]
  rfl

theorem decode_encode (got : row.Stored) : decode row.encode = .ok row := by
  have fits : ∀ word ∈ row.words, word < 2 ^ 64 := by
    intro word member
    rcases mem_cons.mp member with rfl | member
    · exact Bytes.ofInt_lt _
    rcases mem_cons.mp member with rfl | member
    · exact Bytes.ofInt_lt _
    · exact got.bitsFit word member
  have wid := length_words got
  have flds : (Bytes.ofWords row.words).length = 72 := by rw [Bytes.length_ofWords, wid]
  have wordOf (idx : Nat) (mem : idx < row.words.length) :
      Bytes.wordAt row.encode idx = row.words[idx] :=
    Bytes.wordAt_ofWords _ idx mem fits
  have bits : ((List.range 7).map fun idx => Bytes.wordAt row.encode (idx + 2)) = row.bits := by
    refine ext_getElem (by rw [length_map, length_range, got.length]) ?_
    intro idx mem _
    rw [length_map, length_range] at mem
    rw [getElem_map, getElem_range, wordOf (idx + 2) (by omega)]
    rfl
  have isId : Bytes.wordAt row.encode 0 = Bytes.ofInt row.id := wordOf 0 (by omega)
  have dt : Bytes.wordAt row.encode 1 = Bytes.ofInt row.datetime := wordOf 1 (by omega)
  have here : row.encode.getD 72 0 = if row.epoch.isSome then 1 else 0 := by
    rw [getD_eq_getElem?_getD, encode, getElem?_append_right flds.le, flds]
    rfl
  have val : Bytes.ofLittleEndian ((row.encode.drop 73).take 8) =
      Bytes.ofInt (row.epoch.getD 0) := by
    have wid := Bytes.length_littleEndian 8 (Bytes.ofInt (row.epoch.getD 0))
    rw [encode, show 73 = 72 + 1 from rfl, ← drop_drop, drop_left' flds,
      drop_one, tail_cons, take_of_length_le wid.le]
    exact Bytes.ofLittleEndian_littleEndian 8 (Bytes.ofInt_lt _)
  have epoch : epochOfWords (if row.epoch.isSome then 1 else 0) (Bytes.ofInt (row.epoch.getD 0))
      "invalid epoch presence/value" = .ok row.epoch := by
    cases isEpoch : row.epoch with
    | none => rfl
    | some val =>
      rw [epochOfWords, if_neg (by simp)]
      show Except.ok (some (Bytes.toInt (Bytes.ofInt val))) = _
      rw [Bytes.toInt_ofInt (got.epochInRange val isEpoch)]
  rw [decode, here, val, epoch, ok_bind, bits, isId, dt,
    Bytes.toInt_ofInt got.idInRange, Bytes.toInt_ofInt got.datetimeInRange]
  rfl

theorem decodeRows_flatMap {rows : List StoredKline} (got : ∀ row ∈ rows, row.Stored) :
    decodeRows rows.length (rows.flatMap encode) = .ok rows := by
  induction rows with
  | nil => rfl
  | cons row rows ih =>
    have wid := length_encode (got row mem_cons_self)
    rw [length_cons, decodeRows, flatMap_cons, take_left' wid, drop_left' wid, decode_encode (got
      row mem_cons_self), ok_bind, ih fun alt mem => got alt (mem_cons_of_mem _ mem)]
    rfl

theorem length_flatMap_encode {rows : List StoredKline} (got : ∀ row ∈ rows, row.Stored) :
    (rows.flatMap encode).length = rows.length * klineBytes := by
  induction rows with
  | nil => rfl
  | cons row rows ih =>
    rw [flatMap_cons, length_append, length_encode (got row mem_cons_self), ih fun alt mem => got
      alt (mem_cons_of_mem _ mem), length_cons, Nat.succ_mul, Nat.add_comm]

end StoredKline

/-- The rows of a payload of K-lines. -/
def decodeKlinePayload (bytes : List Nat) : Except DataError (List StoredKline) :=
  StoredKline.decodeRows (bytes.length / klineBytes) bytes

theorem decodeKlinePayload_flatMap {rows : List StoredKline} (got : ∀ row ∈ rows, row.Stored) :
    decodeKlinePayload (rows.flatMap StoredKline.encode) = .ok rows := by
  rw [decodeKlinePayload, StoredKline.length_flatMap_encode got,
    Nat.mul_div_cancel _ (by decide), StoredKline.decodeRows_flatMap got]

end Tqsdk
