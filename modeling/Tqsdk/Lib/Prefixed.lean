import Tqsdk.Lib.Bytes

/-!
# Length-prefixed values

Values of bytes one after another, each behind its length in eight bytes: the whole determines
the values.
-/

namespace Bytes

open List

def bigEndian (width word : Nat) : List Nat := (littleEndian width word).reverse

theorem length_bigEndian (wid word : Nat) : (bigEndian wid word).length = wid := by
  rw [bigEndian, length_reverse, length_littleEndian]

theorem bigEndian_injOn {wid word word' : Nat} (fits : word < 256 ^ wid)
    (fits' : word' < 256 ^ wid) (same : bigEndian wid word = bigEndian wid word') :
    word = word' := by
  rw [← ofLittleEndian_littleEndian wid fits, reverse_injective same,
    ofLittleEndian_littleEndian wid fits']

def prefixed (value : List Nat) : List Nat := bigEndian 8 value.length ++ value

theorem prefixed_append {value value' rest rest' : List Nat} (fits : value.length < 256 ^ 8)
    (fits' : value'.length < 256 ^ 8) (same : prefixed value ++ rest = prefixed value' ++ rest') :
    value = value' ∧ rest = rest' := by
  rw [prefixed, prefixed, append_assoc, append_assoc] at same
  obtain ⟨header, body⟩ := append_inj same
    ((length_bigEndian _ _).trans (length_bigEndian _ _).symm)
  exact append_inj body (bigEndian_injOn fits fits' header)

theorem flatMap_prefixed_injOn {values values' : List (List Nat)}
    (fits : ∀ value ∈ values, value.length < 256 ^ 8)
    (fits' : ∀ value ∈ values', value.length < 256 ^ 8)
    (same : values.flatMap prefixed = values'.flatMap prefixed) : values = values' := by
  have began (value : List Nat) (rest : List Nat) : prefixed value ++ rest ≠ [] := by
    intro emp
    have len := congrArg List.length emp
    rw [prefixed, length_append, length_append, length_bigEndian] at len
    cases (Nat.add_eq_zero_iff.mp (Nat.add_eq_zero_iff.mp len).1).1
  induction values generalizing values' with
  | nil =>
    cases values' with
    | nil => rfl
    | cons value' rest' => exact absurd same.symm (began value' _)
  | cons value rest ih =>
    cases values' with
    | nil => exact absurd same (began value _)
    | cons value' rest' =>
      rw [flatMap_cons, flatMap_cons] at same
      obtain ⟨rfl, lag⟩ := prefixed_append (fits value mem_cons_self)
        (fits' value' mem_cons_self) same
      rw [ih (fun post mem => fits post (mem_cons_of_mem _ mem))
        (fun post mem => fits' post (mem_cons_of_mem _ mem)) lag]

end Bytes
