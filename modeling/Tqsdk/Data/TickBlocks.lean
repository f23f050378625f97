import Tqsdk.Data.HistoryBlocks

/-!
# The canonical form of tick blocks

A cursor yields the rows that a payload was made of, and a payload that a cursor accepts is the
one that is made of the rows it yields: masks name exactly the words that change, and every number
has its shortest form.
-/

namespace Tqsdk

open List

/-! ## Words of accepted rows -/

theorem epochWords_epochOfWords {here val : Nat} {msg : String} {epoch : Option Int}
    (valueFits : val < 2 ^ 64) (ok : epochOfWords here val msg = .ok epoch) :
    epochWords epoch = [here, val] ∧ ∀ got, epoch = some got → I64.InRange got := by
  unfold epochOfWords at ok
  split_ifs at ok with gone isPresent
  · obtain rfl := Except.ok.inj ok
    obtain ⟨rfl, rfl⟩ := gone
    exact ⟨rfl, fun got isStored => by cases isStored⟩
  · obtain rfl := Except.ok.inj ok
    rw [isPresent, epochWords, Bytes.ofInt_toInt valueFits]
    refine ⟨rfl, fun got isStored => ?_⟩
    rw [← Option.some.inj isStored]
    exact Bytes.inRange_toInt valueFits

theorem Tick.words_ofWords {words : List Nat} {row : Tick} (wid : words.length = tickWords)
    (fits : ∀ word ∈ words, word < 2 ^ 64) (ok : Tick.ofWords words = .ok row) :
    row.words = words ∧ row.Stored := by
  match words, wid with
  | id :: dt :: flds, wid =>
    have fieldsWidth : flds.length = 29 := by simpa [tickWords] using wid
    have idFits := fits id mem_cons_self
    have datetimeFits := fits dt (mem_cons_of_mem _ mem_cons_self)
    have fieldsFit : ∀ word ∈ flds, word < 2 ^ 64 := fun word mem =>
      fits word (mem_cons_of_mem _ (mem_cons_of_mem _ mem))
    obtain ⟨here, val, lastTwo⟩ : ∃ here val, flds.drop 27 = [here, val] :=
      length_eq_two.mp (by rw [length_drop, fieldsWidth])
    have valueFits : val < 2 ^ 64 := by
      refine fieldsFit val (mem_of_mem_drop (i := 27) ?_)
      rw [lastTwo]
      exact mem_cons_of_mem _ mem_cons_self
    unfold Tick.ofWords at ok
    dsimp only at ok
    rw [lastTwo] at ok
    obtain ⟨epoch, isEpoch, ok⟩ := Result.of_bind ok
    obtain rfl := Except.ok.inj ok
    obtain ⟨epochSame, epochInRange⟩ := epochWords_epochOfWords valueFits isEpoch
    constructor
    · unfold Tick.words
      dsimp only
      rw [Bytes.ofInt_toInt idFits, Bytes.ofInt_toInt datetimeFits, epochSame, ← lastTwo,
        cons_append, cons_append, take_append_drop]
    · exact ⟨Bytes.inRange_toInt idFits, Bytes.inRange_toInt datetimeFits,
        fun word mem => fieldsFit word (mem_of_mem_take mem),
        by rw [length_take, fieldsWidth]; rfl, epochInRange⟩

/-! ## Accepted changes -/

variable {previous : List Nat}

/-- Changes that are read are those that are written between the two rows. -/
theorem readChanges_eq_ok {mask : Nat} {bytes cur rest : List Nat}
    (maskFits : mask < 2 ^ previous.length) (octs : Bytes.Octets bytes)
    (fits : ∀ word ∈ previous, word < 2 ^ 64)
    (ok : readChanges mask previous bytes = .ok (cur, rest)) :
    cur.length = previous.length ∧ (∀ word ∈ cur, word < 2 ^ 64) ∧
      changeMask previous cur = mask ∧ bytes = changeBytes previous cur ++ rest := by
  induction previous generalizing mask bytes cur with
  | nil =>
    obtain ⟨rfl, rfl⟩ := Prod.mk.inj (Except.ok.inj ok)
    rw [length_nil, pow_zero] at maskFits
    exact ⟨rfl, by simp, by simp [changeMask]; omega, rfl⟩
  | cons word previous ih =>
    have othersFit : ∀ alt ∈ previous, alt < 2 ^ 64 := fun alt member =>
      fits alt (mem_cons_of_mem _ member)
    have wordFits := fits word mem_cons_self
    rw [length_cons, pow_succ] at maskFits
    unfold readChanges at ok
    split_ifs at ok with chs
    · obtain ⟨⟨chg, lag⟩, isChange, ok⟩ := Result.of_bind ok
      have hit : Bytes.readVarint bytes = .ok (chg, lag) := by
        cases read : Bytes.readVarint bytes with
        | error error =>
          rw [read] at isChange
          cases isChange
        | ok val =>
          rw [read] at isChange
          rw [Except.ok.inj isChange]
      obtain ⟨split, changeFits⟩ := Bytes.varint_readVarint octs hit
      dsimp only at ok
      split_ifs at ok with redundant
      obtain ⟨⟨alts, rem⟩, isOthers, ok⟩ := Result.of_bind ok
      obtain ⟨rfl, rfl⟩ := Prod.mk.inj (Except.ok.inj ok)
      rw [split] at octs
      obtain ⟨wid, curFits, isMask, isBytes⟩ := ih (by omega) octs.append.2 othersFit isOthers
      have ne : word ≠ word ^^^ chg := by
        intro same
        have zero := congrArg (word ^^^ ·) same
        simp only [Nat.xor_self, ← Nat.xor_assoc, Nat.zero_xor] at zero
        exact redundant zero.symm
      have isChange' : word ^^^ (word ^^^ chg) = chg := by
        rw [← Nat.xor_assoc, Nat.xor_self, Nat.zero_xor]
      refine ⟨by rw [length_cons, length_cons, wid], ?_, ?_, ?_⟩
      · intro alt member
        rcases mem_cons.mp member with rfl | member
        · exact Nat.xor_lt_two_pow wordFits changeFits
        · exact curFits alt member
      · rw [changeMask, if_neg ne, isMask]
        omega
      · rw [changeBytes, if_neg ne, isChange', append_assoc, ← isBytes]
        exact split
    · obtain ⟨⟨alts, rem⟩, isOthers, ok⟩ := Result.of_bind ok
      obtain ⟨rfl, rfl⟩ := Prod.mk.inj (Except.ok.inj ok)
      obtain ⟨wid, curFits, isMask, isBytes⟩ := ih (by omega) octs othersFit isOthers
      refine ⟨by rw [length_cons, length_cons, wid], ?_, ?_, ?_⟩
      · intro alt member
        rcases mem_cons.mp member with rfl | member
        · exact wordFits
        · exact curFits alt member
      · rw [changeMask, if_pos rfl, isMask]
        omega
      · rw [changeBytes, if_pos rfl, nil_append]
        exact isBytes

/-! ## The bytes that are counted -/

/-- `varint_len`; a word has 64 bits less the zeros in front. -/
def varintLen (value : Nat) : Nat := max ((Nat.size value + 6) / 7) 1

/-- The bytes counted so far and those of the words that change. -/
def countChange : List Nat → List Nat → Nat → Nat
  | left :: previous, right :: current, bytes =>
    countChange previous current
      (if left ^^^ right ≠ 0 then bytes + varintLen (left ^^^ right) else bytes)
  | _, _, bytes => bytes

def countChanges : List Nat → List Tick → Nat → Nat
  | _, [], bytes => bytes
  | previous, row :: rows, bytes =>
    countChanges row.words rows (countChange previous row.words (bytes + 4))

/-- The first pass of `encode_payload`. -/
def countTickPayload (first : Tick) (rest : List Tick) : Nat :=
  countChanges first.words rest tickFirstBytes

theorem xor_eq_zero {left right : Nat} : left ^^^ right = 0 ↔ left = right := by
  constructor
  · intro zero
    have same := congrArg (left ^^^ ·) zero
    rw [Nat.xor_zero, ← Nat.xor_assoc, Nat.xor_self, Nat.zero_xor] at same
    exact same.symm
  · rintro rfl
    exact Nat.xor_self _

theorem countChange_eq {cur : List Nat} (bytes : Nat) (prevFits : ∀ word ∈ previous, word < 2 ^ 64)
    (curFits : ∀ word ∈ cur, word < 2 ^ 64) :
    countChange previous cur bytes = bytes + (changeBytes previous cur).length ∧
      Bytes.Octets (changeBytes previous cur) := by
  induction previous generalizing cur bytes with
  | nil => exact ⟨rfl, fun byte mem => by cases mem⟩
  | cons left previous ih =>
    cases cur with
    | nil => exact ⟨rfl, fun byte mem => by cases mem⟩
    | cons right cur =>
      have alts (bytes : Nat) := ih bytes
        (fun word mem => prevFits word (mem_cons_of_mem _ mem))
        fun word mem => curFits word (mem_cons_of_mem _ mem)
      rw [countChange, changeBytes]
      by_cases same : left = right
      · rw [if_neg (not_not.mpr (xor_eq_zero.mpr same)), if_pos same, nil_append]
        exact alts bytes
      · have fits : left ^^^ right < 2 ^ 64 := Nat.xor_lt_two_pow
          (prevFits left mem_cons_self) (curFits right mem_cons_self)
        have len : (Bytes.varint (left ^^^ right)).length = varintLen (left ^^^ right) :=
          Bytes.length_varintFrom_eq (by omega)
        obtain ⟨cnt, octs⟩ := alts (bytes + varintLen (left ^^^ right))
        rw [if_pos (xor_eq_zero.not.mpr same), if_neg same, cnt, length_append, len, Nat.add_assoc]
        exact ⟨rfl, Bytes.octets_append (Bytes.octets_varint fits) octs⟩

theorem countChanges_eq {rows : List Tick} (bytes : Nat) (fits : ∀ word ∈ previous, word < 2 ^ 64)
    (got : ∀ row ∈ rows, row.Stored) :
    countChanges previous rows bytes = bytes + (encodeChanges previous rows).length ∧
      Bytes.Octets (encodeChanges previous rows) := by
  induction rows generalizing previous bytes with
  | nil => exact ⟨rfl, fun byte mem => by cases mem⟩
  | cons row rows ih =>
    have rowFits := Tick.words_lt (got row mem_cons_self)
    obtain ⟨here, octs⟩ := countChange_eq (bytes + 4) fits rowFits
    obtain ⟨alts, othersOctets⟩ := ih (bytes + 4 + (changeBytes previous row.words).length)
      rowFits fun alt mem => got alt (mem_cons_of_mem _ mem)
    constructor
    · rw [countChanges, here, alts, encodeChanges, encodeChange, length_append,
        length_append, Bytes.length_littleEndian]
      omega
    · exact Bytes.octets_append
        (Bytes.octets_append (Bytes.octets_littleEndian 4 _) octs) othersOctets

/-- The bytes that are counted are the ones that are written. -/
theorem countTickPayload_eq {hd : Tick} {rest : List Tick} (got : ∀ row ∈ hd :: rest, row.Stored) :
    countTickPayload hd rest = (tickPayload hd rest).length ∧
      Bytes.Octets (tickPayload hd rest) := by
  have here := got hd mem_cons_self
  obtain ⟨cnt, octs⟩ := countChanges_eq tickFirstBytes (Tick.words_lt here)
    fun row mem => got row (mem_cons_of_mem _ mem)
  constructor
  · rw [countTickPayload, cnt, tickPayload, length_append, length_append,
      length_append, Bytes.length_littleEndian, Bytes.length_ofWords, Tick.length_words here]
    rfl
  · have magic : Bytes.Octets tickMagic := by
      unfold Bytes.Octets
      decide
    exact Bytes.octets_append (Bytes.octets_append
      (Bytes.octets_append magic (Bytes.octets_littleEndian 4 _)) (Bytes.octets_ofWords _)) octs

/-! ## Rows of a cursor -/

namespace TickCursor

/-- The rows that `next` gives until the cursor ends. -/
def collect : Nat → TickCursor → Except DataError (List Tick)
  | 0, cursor =>
    if cursor.bytes ≠ [] then .error (containerError "Tick payload trailing bytes") else .ok []
  | remaining + 1, cursor => do
      let (row, cursor) ← cursor.nextRow remaining
      let rows ← collect remaining cursor
      return row :: rows

theorem nextRow_first {hd : Tick} {rest : List Tick} (got : hd.Stored) :
    nextRow ⟨encodeChanges hd.words rest, rest.length + 1, true, hd.words⟩ rest.length =
      .ok (hd, ⟨encodeChanges hd.words rest, rest.length, false, hd.words⟩) := by
  simp only [nextRow, nextWords, if_true, Result.ok_bind, Tick.ofWords_words got]
  refine if_neg fun trail => trail.2 ?_
  rw [length_eq_zero_iff.mp trail.1]
  rfl

theorem collect_encodeChanges {previous : List Nat} {rows : List Tick}
    (wid : previous.length = tickWords) (prevFits : ∀ word ∈ previous, word < 2 ^ 64)
    (got : ∀ row ∈ rows, row.Stored) (rem : Nat) :
    collect rows.length ⟨encodeChanges previous rows, rem, false, previous⟩ = .ok rows := by
  induction rows generalizing previous rem with
  | nil => rfl
  | cons row rows ih =>
    have here := got row mem_cons_self
    rw [length_cons, collect, encodeChanges,
      nextRow_encodeChange _ wid prevFits here fun last => by
        rw [length_eq_zero_iff.mp last]; rfl, Result.ok_bind]
    dsimp only
    rw [ih (Tick.length_words here) (Tick.words_lt here)
      fun alt mem => got alt (mem_cons_of_mem _ mem)]
    rfl

end TickCursor

/-- All rows of a payload, whatever their times. -/
def collectTickPayload (bytes : List Nat) (rows : Nat) : Except DataError (List Tick) := do
  let cursor ← TickCursor.start bytes rows
  cursor.collect cursor.remaining

/-- The rows of a payload are the ones that it was made of. -/
theorem collectTickPayload_tickPayload {hd : Tick} {rest : List Tick}
    (few : (hd :: rest).length ≤ tickMaxRows) (got : ∀ row ∈ hd :: rest, row.Stored) :
    collectTickPayload (tickPayload hd rest) (hd :: rest).length = .ok (hd :: rest) := by
  have here := got hd mem_cons_self
  rw [collectTickPayload, start_tickPayload few got, Result.ok_bind]
  dsimp only
  rw [length_cons, TickCursor.collect, TickCursor.nextRow_first here, Result.ok_bind]
  dsimp only
  rw [TickCursor.collect_encodeChanges (Tick.length_words here) (Tick.words_lt here)
    fun alt mem => got alt (mem_cons_of_mem _ mem)]
  rfl

namespace TickCursor

variable {bytes : List Nat}

/-- A cursor that yields a row stands in front of the change to its words. -/
theorem nextRow_eq_ok {previous : List Nat} {row : Tick} {next : TickCursor} {rem left : Nat}
    (wid : previous.length = tickWords) (fits : ∀ word ∈ previous, word < 2 ^ 64)
    (octs : Bytes.Octets bytes)
    (ok : nextRow ⟨bytes, rem, false, previous⟩ left = .ok (row, next)) :
    row.Stored ∧ next = ⟨next.bytes, left, false, row.words⟩ ∧
      bytes = encodeChange previous row.words ++ next.bytes := by
  obtain ⟨⟨words, lag⟩, isWords, ok⟩ := Result.of_bind ok
  obtain ⟨hit, isRow, ok⟩ := Result.of_bind ok
  split_ifs at ok with trail
  obtain ⟨rfl, rfl⟩ := Prod.mk.inj (Except.ok.inj ok)
  unfold nextWords at isWords
  rw [if_neg Bool.false_ne_true] at isWords
  dsimp only at isWords
  split_ifs at isWords with few miss
  have maskWidth : (bytes.take 4).length = 4 := by
    rw [length_take]
    omega
  have maskBytes := Bytes.littleEndian_ofLittleEndian (octs.take 4)
  rw [maskWidth] at maskBytes
  have maskFits : Bytes.ofLittleEndian (bytes.take 4) < 2 ^ previous.length := by
    rw [wid]
    exact (Nat.div_eq_zero_iff_lt (Nat.two_pow_pos _)).mp (not_not.mp miss)
  obtain ⟨sameWidth, wordsFit, isMask, isBytes⟩ :=
    readChanges_eq_ok maskFits (octs.drop 4) fits isWords
  obtain ⟨rowWords, got⟩ := Tick.words_ofWords (sameWidth.trans wid) wordsFit isRow
  refine ⟨got, by rw [rowWords], ?_⟩
  rw [rowWords, encodeChange, isMask, maskBytes, append_assoc, ← isBytes, take_append_drop]

theorem collect_eq_ok {previous bytes : List Nat} {rows : List Tick} {rem left : Nat}
    (wid : previous.length = tickWords) (fits : ∀ word ∈ previous, word < 2 ^ 64)
    (octs : Bytes.Octets bytes) (ok : collect rem ⟨bytes, left, false, previous⟩ = .ok rows) :
    bytes = encodeChanges previous rows ∧ rows.length = rem ∧ ∀ row ∈ rows, row.Stored := by
  induction rem generalizing previous bytes rows left with
  | zero =>
    rw [collect] at ok
    split_ifs at ok with trail
    obtain rfl := Except.ok.inj ok
    exact ⟨not_not.mp trail, rfl, by simp⟩
  | succ rem ih =>
    obtain ⟨⟨row, next⟩, isRow, ok⟩ := Result.of_bind ok
    obtain ⟨alts, isOthers, ok⟩ := Result.of_bind ok
    obtain rfl := Except.ok.inj ok
    obtain ⟨got, isNext, split⟩ := nextRow_eq_ok wid fits octs isRow
    rw [split] at octs
    rw [isNext] at isOthers
    obtain ⟨isBytes, n, othersStored⟩ :=
      ih (Tick.length_words got) (Tick.words_lt got) octs.append.2 isOthers
    refine ⟨by rw [encodeChanges, ← isBytes, split], by rw [length_cons, n], ?_⟩
    intro alt member
    rcases mem_cons.mp member with rfl | member
    · exact got
    · exact othersStored alt member

/-- A cursor starts behind the magic, the count and the words of the first row. -/
theorem start_eq_ok {rows : Nat} {cur : TickCursor} (octs : Bytes.Octets bytes)
    (ok : start bytes rows = .ok cur) :
    tickValidLength rows bytes.length = true ∧
      cur = ⟨cur.bytes, rows, true, cur.previous⟩ ∧
      cur.previous.length = tickWords ∧ (∀ word ∈ cur.previous, word < 2 ^ 64) ∧
      bytes = tickMagic ++ Bytes.littleEndian 4 rows ++ Bytes.ofWords cur.previous ++
        cur.bytes := by
  unfold start at ok
  split_ifs at ok with bad
  dsimp only at ok
  split_ifs at ok with mismatch
  obtain rfl := Except.ok.inj ok
  simp only [not_or, Bool.not_eq_false, not_not] at bad mismatch
  obtain ⟨fine, magic⟩ := bad
  have long : tickFirstBytes ≤ bytes.length :=
    (Nat.le_add_right _ _).trans (of_decide_eq_true fine).2.2.1
  unfold tickFirstBytes tickWords at long
  have countWidth : ((bytes.drop 4).take 4).length = 4 := by
    rw [length_take, length_drop]
    omega
  have countBytes := Bytes.littleEndian_ofLittleEndian ((octs.drop 4).take 4)
  rw [countWidth, mismatch] at countBytes
  have firstWidth : ((bytes.drop 8).take (tickWords * 8)).length = tickWords * 8 := by
    rw [length_take, length_drop]
    unfold tickWords
    omega
  have sameWords : ((List.range tickWords).map fun i => Bytes.wordAt (bytes.drop 8) i) =
      (List.range tickWords).map (Bytes.wordAt ((bytes.drop 8).take (tickWords * 8))) := by
    refine map_congr_left fun i inn => ?_
    have lt := mem_range.mp inn
    exact congrArg Bytes.ofLittleEndian
      (Bytes.slice_take (show i * 8 + 8 ≤ tickWords * 8 by omega)).symm
  have firstBytes := Bytes.ofWords_wordAt ((octs.drop 8).take (tickWords * 8)) tickWords
    firstWidth
  dsimp only
  refine ⟨fine, by rw [mismatch], by rw [length_map, length_range], ?_, ?_⟩
  · intro word mem
    obtain ⟨i, -, rfl⟩ := mem_map.mp mem
    exact Bytes.wordAt_lt (octs.drop 8) i
  · rw [sameWords, firstBytes, countBytes, ← magic]
    have third : bytes.drop tickFirstBytes = (bytes.drop 8).drop (tickWords * 8) := by
      rw [drop_drop]
      rfl
    have snd : bytes.drop 8 = (bytes.drop 4).drop 4 := by rw [drop_drop]
    rw [append_assoc, append_assoc, third, take_append_drop, snd,
      take_append_drop, take_append_drop]

end TickCursor

/-- A payload whose rows are read is the one that these rows are written in. -/
theorem encodeTickPayload_collectTickPayload {bytes : List Nat} {expected : Nat} {rows : List Tick}
    (octs : Bytes.Octets bytes) (ok : collectTickPayload bytes expected = .ok rows) :
    encodeTickPayload rows = .ok bytes ∧ rows.length = expected ∧ ∀ row ∈ rows, row.Stored := by
  obtain ⟨cur, isCursor, coll⟩ := Result.of_bind ok
  obtain ⟨fine, shape, wid, fits, split⟩ := TickCursor.start_eq_ok octs isCursor
  obtain ⟨pos, few, -⟩ := of_decide_eq_true fine
  obtain ⟨n, rfl⟩ := Nat.exists_eq_add_of_le' pos
  rw [shape] at coll
  obtain ⟨⟨hd, next⟩, fst, coll⟩ := Result.of_bind coll
  obtain ⟨rest, isRest, coll⟩ := Result.of_bind coll
  obtain rfl := Except.ok.inj coll
  obtain ⟨⟨words, lag⟩, isWords, fst⟩ := Result.of_bind fst
  obtain ⟨rfl, rfl⟩ := Prod.mk.inj (Except.ok.inj isWords)
  obtain ⟨hit, isRow, fst⟩ := Result.of_bind fst
  split_ifs at fst with trail
  obtain ⟨rfl, rfl⟩ := Prod.mk.inj (Except.ok.inj fst)
  obtain ⟨rowWords, got⟩ := Tick.words_ofWords wid fits isRow
  have behindOctets : Bytes.Octets cur.bytes := by
    rw [split] at octs
    exact octs.append.2
  obtain ⟨isBehind, restCount, restStored⟩ := TickCursor.collect_eq_ok wid fits behindOctets isRest
  have allStored : ∀ row ∈ hit :: rest, row.Stored := by
    intro row member
    rcases mem_cons.mp member with rfl | member
    · exact got
    · exact restStored row member
  have allCount : (hit :: rest).length = n + 1 := by rw [length_cons, restCount]
  refine ⟨?_, allCount, allStored⟩
  rw [encodeTickPayload_eq_ok (allCount.trans_le few) allStored, tickPayload, allCount, rowWords,
    ← isBehind, ← split]

end Tqsdk
