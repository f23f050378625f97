import Mathlib.Algebra.Order.Ring.Nat
import Mathlib.Data.Nat.Size
import Tqsdk.Lib.Int64
import Tqsdk.Lib.Result

/-!
# Bytes of numbers

Words of fixed width in little-endian order, and the canonical variable-length form of 64-bit
words.  Bytes and words are natural numbers.
-/

namespace Bytes

open List

/-! ## Words of fixed width -/

def littleEndian : Nat → Nat → List Nat
  | 0, _ => []
  | width + 1, word => word % 256 :: littleEndian width (word / 256)

def ofLittleEndian : List Nat → Nat
  | [] => 0
  | byte :: bytes => byte + 256 * ofLittleEndian bytes

@[simp]
theorem length_littleEndian (wid word : Nat) : (littleEndian wid word).length = wid := by
  induction wid generalizing word with
  | zero => rfl
  | succ wid ih => rw [littleEndian, length_cons, ih]

theorem ofLittleEndian_littleEndian (wid : Nat) {word : Nat} (fits : word < 256 ^ wid) :
    ofLittleEndian (littleEndian wid word) = word := by
  induction wid generalizing word with
  | zero =>
    rw [pow_zero, Nat.lt_one_iff] at fits
    exact fits.symm
  | succ wid ih =>
    rw [littleEndian, ofLittleEndian, ih]
    · omega
    · rw [pow_succ] at fits
      omega

/-- Every number is a byte. -/
def Octets (bytes : List Nat) : Prop := ∀ byte ∈ bytes, byte < 256

variable {bytes part : List Nat} {offset value length more : Nat}

theorem Octets.cons {byte : Nat} (octs : Octets (byte :: bytes)) : byte < 256 ∧ Octets bytes :=
  ⟨octs byte mem_cons_self, fun alt mem => octs alt (mem_cons_of_mem _ mem)⟩

theorem Octets.append {left right : List Nat} (octs : Octets (left ++ right)) :
    Octets left ∧ Octets right :=
  ⟨fun byte mem => octs byte (mem_append_left _ mem),
    fun byte mem => octs byte (mem_append_right _ mem)⟩

theorem Octets.drop (octs : Octets bytes) (n : Nat) :
    Octets (bytes.drop n) := fun byte mem => octs byte (mem_of_mem_drop mem)

theorem Octets.take (octs : Octets bytes) (n : Nat) :
    Octets (bytes.take n) := fun byte mem => octs byte (mem_of_mem_take mem)

theorem octets_append {left right : List Nat} (leftOctets : Octets left)
    (rightOctets : Octets right) : Octets (left ++ right) := by
  intro byte member
  rcases mem_append.mp member with member | member
  · exact leftOctets byte member
  · exact rightOctets byte member

theorem octets_littleEndian (wid word : Nat) : Octets (littleEndian wid word) := by
  induction wid generalizing word with
  | zero => exact fun byte member => by cases member
  | succ wid ih =>
    intro byte member
    rcases mem_cons.mp member with rfl | member
    · omega
    · exact ih _ byte member

theorem ofLittleEndian_lt (octs : Octets bytes) :
    ofLittleEndian bytes < 256 ^ bytes.length := by
  induction bytes with
  | nil => exact Nat.one_pos
  | cons byte bytes ih =>
    obtain ⟨here, rest⟩ := octs.cons
    have lt := ih rest
    rw [ofLittleEndian, length_cons, pow_succ]
    omega

theorem littleEndian_ofLittleEndian (octs : Octets bytes) :
    littleEndian bytes.length (ofLittleEndian bytes) = bytes := by
  induction bytes with
  | nil => rfl
  | cons byte bytes ih =>
    obtain ⟨here, rest⟩ := octs.cons
    have low : (byte + 256 * ofLittleEndian bytes) % 256 = byte := by omega
    have high : (byte + 256 * ofLittleEndian bytes) / 256 = ofLittleEndian bytes := by omega
    rw [length_cons, ofLittleEndian, littleEndian, low, high, ih rest]

/-- The bytes of words of 64 bits. -/
def ofWords (words : List Nat) : List Nat := words.flatMap (littleEndian 8)

def wordAt (bytes : List Nat) (index : Nat) : Nat :=
  ofLittleEndian ((bytes.drop (index * 8)).take 8)

theorem octets_ofWords (words : List Nat) : Octets (ofWords words) := by
  intro byte mem
  obtain ⟨word, -, mem⟩ := mem_flatMap.mp mem
  exact octets_littleEndian 8 word byte mem

@[simp]
theorem length_ofWords (words : List Nat) : (ofWords words).length = words.length * 8 := by
  induction words with
  | nil => rfl
  | cons word words ih =>
    rw [ofWords, flatMap_cons, length_append, length_littleEndian]
    rw [ofWords] at ih
    rw [ih, length_cons]
    omega

theorem wordAt_ofWords {words : List Nat} (rest : List Nat) (i : Nat) (inn : i < words.length)
    (fits : ∀ word ∈ words, word < 2 ^ 64) : wordAt (ofWords words ++ rest) i = words[i] := by
  induction words generalizing i with
  | nil => cases inn
  | cons word words ih =>
    have wid := length_littleEndian 8 word
    rw [ofWords, flatMap_cons, append_assoc, wordAt]
    cases i with
    | zero =>
      rw [Nat.zero_mul, drop_zero, take_append_of_le_length wid.ge, take_of_length_le wid.le]
      exact ofLittleEndian_littleEndian 8 (fits word mem_cons_self)
    | succ i =>
      rw [show (i + 1) * 8 = 8 + i * 8 by omega, ← drop_drop, drop_left' wid]
      exact ih i (Nat.lt_of_succ_lt_succ inn) fun alt mem => fits alt (mem_cons_of_mem _ mem)

theorem wordAt_lt (octs : Octets bytes) (idx : Nat) :
    wordAt bytes idx < 2 ^ 64 := by
  refine lt_of_lt_of_le (ofLittleEndian_lt ((octs.drop (idx * 8)).take 8)) ?_
  refine (Nat.pow_le_pow_right (by decide) (length_take_le _ _)).trans ?_
  decide

theorem ofWords_wordAt (octs : Octets bytes) (words : Nat) (length : bytes.length = words * 8) :
    ofWords ((List.range words).map (wordAt bytes)) = bytes := by
  induction words generalizing bytes with
  | zero =>
    rw [Nat.zero_mul, length_eq_zero_iff] at length
    rw [length]
    rfl
  | succ words ih =>
    have wid : (bytes.take 8).length = 8 := by
      rw [length_take]
      omega
    have hd : littleEndian 8 (wordAt bytes 0) = bytes.take 8 := by
      have same := littleEndian_ofLittleEndian (octs.take 8)
      rw [wid] at same
      exact same
    have alts : (List.range words).map (wordAt bytes ∘ Nat.succ) =
        (List.range words).map (wordAt (bytes.drop 8)) := by
      refine map_congr_left fun idx _ => ?_
      rw [Function.comp_apply, wordAt, wordAt, drop_drop]
      congr 3
      omega
    have rest := @ih (bytes.drop 8) (octs.drop 8) (by rw [length_drop]; omega)
    rw [range_succ_eq_map, map_cons, map_map, alts, ofWords, flatMap_cons, hd]
    rw [ofWords] at rest
    rw [rest, take_append_drop]

/-- A word of two's complement. -/
def ofInt (value : Int) : Nat := (value % 18446744073709551616).toNat

def toInt (word : Nat) : Int :=
  if word < 9223372036854775808 then word else word - 18446744073709551616

theorem ofInt_lt (value : Int) : ofInt value < 2 ^ 64 := by
  unfold ofInt
  omega

theorem toInt_ofInt {value : Int} (mem : I64.InRange value) : toInt (ofInt value) = value := by
  unfold I64.InRange I64.minimum I64.maximum at mem
  unfold toInt ofInt
  split <;> omega

theorem inRange_toInt {word : Nat} (fits : word < 2 ^ 64) : I64.InRange (toInt word) := by
  unfold I64.InRange I64.minimum I64.maximum toInt
  split <;> omega

theorem ofInt_toInt {word : Nat} (fits : word < 2 ^ 64) : ofInt (toInt word) = word := by
  unfold toInt ofInt
  split <;> omega

/-! ## Windows -/

/-- The bytes of a window; fewer where the bytes end. -/
def slice (bytes : List Nat) (offset length : Nat) : List Nat := (bytes.drop offset).take length

/-- Overwrites a window that the bytes have. -/
def patch (bytes : List Nat) (offset : Nat) (part : List Nat) : List Nat :=
  bytes.take offset ++ part ++ bytes.drop (offset + part.length)

theorem length_patch (mem : offset + part.length ≤ bytes.length) :
    (patch bytes offset part).length = bytes.length := by
  simp only [patch, length_append, length_take, length_drop]
  omega

/-- What lies in front of the end of the first part is not moved by the second. -/
theorem slice_append (more : List Nat) (mem : offset + length ≤ bytes.length) :
    slice (bytes ++ more) offset length = slice bytes offset length := by
  rw [slice, drop_append_of_le_length (by omega), take_append_of_le_length]
  · rfl
  · rw [length_drop]
    omega

theorem slice_append_right (more : List Nat) (length : Nat) (lo : offset = bytes.length) :
    slice (bytes ++ more) offset length = more.take length := by
  rw [slice, drop_left' lo.symm]

theorem slice_take {stop : Nat} (mem : offset + length ≤ stop) :
    slice (bytes.take stop) offset length = slice bytes offset length := by
  rw [slice, drop_take, take_take, min_eq_left (by omega)]
  rfl

theorem slice_patch_self (mem : offset ≤ bytes.length) :
    slice (patch bytes offset part) offset part.length = part := by
  rw [patch, append_assoc,
    slice_append_right _ _ (by rw [length_take, min_eq_left mem]),
    take_left' rfl]

theorem slice_patch_before {lo : Nat} (pre : offset + length ≤ lo) (mem : lo ≤ bytes.length) :
    slice (patch bytes lo part) offset length = slice bytes offset length := by
  rw [patch, append_assoc, slice_append _ (by rw [length_take]; omega),
    slice_take pre]

theorem slice_patch_after {lo : Nat} (post : lo + part.length ≤ offset)
    (mem : lo + part.length ≤ bytes.length) :
    slice (patch bytes lo part) offset length = slice bytes offset length := by
  have fst : (bytes.take lo ++ part).length = lo + part.length := by
    rw [length_append, length_take, min_eq_left (by omega)]
  rw [slice, patch, show offset = lo + part.length + (offset - (lo + part.length)) by omega,
    ← drop_drop, drop_left' fst, drop_drop]
  rfl

/-! ## Words of variable length -/

inductive VarintError
  | truncated
  | overflow
  | nonCanonical
  deriving DecidableEq

/-- Seven bits a byte, the lowest first; the last of `more + 1` bytes takes what is left. -/
def varintFrom : Nat → Nat → List Nat
  | 0, value => [value]
  | more + 1, value =>
    if value < 128 then [value] else (value % 128 + 128) :: varintFrom more (value / 128)

/-- A word of 64 bits has at most ten bytes. -/
def varint (value : Nat) : List Nat := varintFrom 9 value

def readVarintFrom : Nat → List Nat → Except VarintError (Nat × List Nat)
  | 0, _ => .error .overflow
  | _ + 1, [] => .error .truncated
  | more + 1, byte :: rest =>
    if more = 0 ∧ 1 < byte then .error .overflow
    else if byte < 128 then
      if more < 9 ∧ byte = 0 then .error .nonCanonical else .ok (byte, rest)
    else do
      let (value, rest) ← readVarintFrom more rest
      return (byte % 128 + 128 * value, rest)

def readVarint (bytes : List Nat) : Except VarintError (Nat × List Nat) := readVarintFrom 10 bytes

theorem readVarintFrom_varintFrom (rest : List Nat) (fits : value < 2 * 128 ^ more)
    (shortest : more < 9 → value ≠ 0) :
    readVarintFrom (more + 1) (varintFrom more value ++ rest) = .ok (value, rest) := by
  induction more generalizing value with
  | zero =>
    have pos := shortest (by decide)
    rw [pow_zero] at fits
    simp only [varintFrom, singleton_append, readVarintFrom]
    rw [if_neg (by omega), if_pos (by omega), if_neg (by omega)]
  | succ more ih =>
    rw [varintFrom]
    split
    · rw [singleton_append, readVarintFrom, if_neg (by omega), if_pos ‹_›]
      rw [if_neg fun zero => shortest zero.1 zero.2]
    · rw [cons_append, readVarintFrom, if_neg (by omega), if_neg (by omega),
        ih (by rw [pow_succ] at fits; omega) (fun _ => by omega)]
      show Except.ok _ = _
      congr 2
      omega

theorem readVarint_varint (rest : List Nat) (fits : value < 2 ^ 64) :
    readVarint (varint value ++ rest) = .ok (value, rest) :=
  readVarintFrom_varintFrom rest (by omega) fun absurd => by omega

/-- Bytes that are read as a word are the ones that the word is written in. -/
theorem varintFrom_readVarintFrom {rest : List Nat} (atMost : more ≤ 9) (octs : Octets bytes)
    (ok : readVarintFrom (more + 1) bytes = .ok (value, rest)) :
    bytes = varintFrom more value ++ rest ∧ value < 2 * 128 ^ more ∧ (more < 9 → value ≠ 0) := by
  induction more generalizing bytes value with
  | zero =>
    cases bytes with
    | nil => cases ok
    | cons byte bytes =>
      rw [readVarintFrom] at ok
      split_ifs at ok with tooLarge few zero
      · obtain ⟨rfl, rfl⟩ := Prod.mk.inj (Except.ok.inj ok)
        exact ⟨rfl, by rw [pow_zero]; omega, fun _ => by omega⟩
      · omega
  | succ more ih =>
    cases bytes with
    | nil => cases ok
    | cons byte bytes =>
      obtain ⟨here, alts⟩ := octs.cons
      rw [readVarintFrom, if_neg (by omega)] at ok
      split_ifs at ok with few zero
      · obtain ⟨rfl, rfl⟩ := Prod.mk.inj (Except.ok.inj ok)
        refine ⟨by rw [varintFrom, if_pos few, singleton_append], ?_, fun _ => by omega⟩
        have power : 1 ≤ 128 ^ more := Nat.one_le_pow _ _ (by decide)
        rw [pow_succ]
        omega
      · obtain ⟨⟨high, lag⟩, isHigh, ok⟩ := Result.of_bind ok
        obtain ⟨rfl, rfl⟩ := Prod.mk.inj (Except.ok.inj ok)
        obtain ⟨split, lt, nz⟩ := ih (by omega) alts isHigh
        have byteEq : (byte % 128 + 128 * high) % 128 + 128 = byte := by omega
        have highEq : (byte % 128 + 128 * high) / 128 = high := by omega
        have pos := nz (by omega)
        refine ⟨?_, by rw [pow_succ]; omega, fun _ => by omega⟩
        rw [varintFrom, if_neg (by omega), byteEq, highEq, split, cons_append]

theorem varint_readVarint {rest : List Nat} (octs : Octets bytes)
    (ok : readVarint bytes = .ok (value, rest)) :
    bytes = varint value ++ rest ∧ value < 2 ^ 64 := by
  obtain ⟨split, lt, -⟩ := varintFrom_readVarintFrom (le_refl 9) octs ok
  exact ⟨split, by omega⟩

theorem length_varintFrom (more value : Nat) :
    1 ≤ (varintFrom more value).length ∧ (varintFrom more value).length ≤ more + 1 := by
  induction more generalizing value with
  | zero => exact ⟨le_rfl, le_rfl⟩
  | succ more ih =>
    rw [varintFrom]
    split
    · exact ⟨le_rfl, by rw [length_singleton]; omega⟩
    · have := ih (value / 128)
      rw [length_cons]
      omega

theorem octets_varintFrom (fits : value < 2 * 128 ^ more) :
    Octets (varintFrom more value) := by
  induction more generalizing value with
  | zero =>
    intro byte member
    rw [mem_singleton.mp member]
    rw [pow_zero] at fits
    omega
  | succ more ih =>
    rw [varintFrom]
    split
    · intro byte member
      rw [mem_singleton.mp member]
      omega
    · intro byte member
      rcases mem_cons.mp member with rfl | member
      · omega
      · exact ih (by rw [pow_succ] at fits; omega) byte member

theorem octets_varint (fits : value < 2 ^ 64) : Octets (varint value) :=
  octets_varintFrom (by omega)

theorem length_varintFrom_eq (fits : value < 2 * 128 ^ more) :
    (varintFrom more value).length = max ((Nat.size value + 6) / 7) 1 := by
  induction more generalizing value with
  | zero =>
    have bits : Nat.size value ≤ 1 := Nat.size_le.mpr (by rwa [pow_zero] at fits)
    rw [varintFrom, length_singleton]
    omega
  | succ more ih =>
    rw [varintFrom]
    split
    · have bits : Nat.size value ≤ 7 := Nat.size_le.mpr ‹_›
      rw [length_singleton]
      omega
    · have many : 7 < Nat.size value := Nat.lt_size.mpr (Nat.not_lt.mp ‹_›)
      have shifted (bits : Nat) : Nat.size (value / 128) ≤ bits ↔ Nat.size value ≤ bits + 7 := by
        rw [Nat.size_le, Nat.size_le, pow_add, Nat.div_lt_iff_lt_mul (by decide)]
        exact Iff.rfl
      have atMost := (shifted (Nat.size (value / 128))).mp le_rfl
      have atLeast := (shifted (Nat.size value - 7)).mpr (by omega)
      rw [length_cons, ih (by rw [pow_succ] at fits; omega)]
      omega

theorem length_varint_le (value : Nat) : (varint value).length ≤ 10 :=
  (length_varintFrom 9 value).2

end Bytes
