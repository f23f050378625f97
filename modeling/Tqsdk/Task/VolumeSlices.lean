import Tqsdk.Task.Planner

/-!
# The slices of a volume

What is left of a volume is cut by `split_order_volume` until nothing is.  The function looks one
slice ahead: every slice has the greatest size until less than that and the least size are left,
and what is left then is shared by at most two slices.  Whether they can share it is decided by the
remainder of the volume and not by the volume.
-/

namespace Tqsdk

open List

namespace VolumeSplitPolicy

variable (policy : VolumeSplitPolicy)

/-- The slices that are submitted one behind the other. -/
def slices (volume : Int) : List Int :=
  if 0 < volume then
    let slice := splitOrderVolume volume (some policy)
    slice :: slices (volume - slice)
  else []
termination_by volume.toNat
decreasing_by
  rename_i positive
  have bounds := splitOrderVolume_bounds positive.le (some policy)
  omega

/-- The volume is a sum of volumes that the policy admits. -/
def Splittable (volume : Int) : Prop :=
  ∃ parts : List Int, parts.sum = volume ∧
    ∀ part ∈ parts, policy.minVolume ≤ part ∧ part ≤ policy.maxVolume

/-- The slices make up the volume, and respect the policy where that is possible at all. -/
structure SlicesWithin (volume : Int) : Prop where
  bounds : ∀ slice ∈ policy.slices volume, 0 < slice ∧ slice ≤ policy.maxVolume
  sum : (policy.slices volume).sum = volume
  within : policy.Splittable volume →
    ∀ slice ∈ policy.slices volume, policy.minVolume ≤ slice ∧ slice ≤ policy.maxVolume

/-- The least number of slices. -/
def fewest (volume : Int) : Int := (volume + policy.maxVolume - 1) / policy.maxVolume

/-- What the last slices share. -/
def remainder (volume : Int) : Int :=
  (volume - policy.minVolume) % policy.maxVolume + policy.minVolume

variable {policy} {volume : Int}

/-! ## Volumes that can be split -/

theorem splittable_of_count {count : Nat} (above : count * policy.minVolume ≤ volume)
    (below : volume ≤ count * policy.maxVolume) : policy.Splittable volume := by
  induction count generalizing volume with
  | zero =>
    rw [Nat.cast_zero, Int.zero_mul] at above below
    exact ⟨[], by rw [sum_nil]; omega, fun _ mem => (by cases mem)⟩
  | succ count ih =>
    rw [Nat.cast_succ, Int.add_mul, Int.one_mul] at above below
    have ord := policy.minLeMax
    -- The first part leaves at least the least parts for the others.
    have part : ∃ part, policy.minVolume ≤ part ∧ part ≤ policy.maxVolume ∧
        count * policy.minVolume ≤ volume - part ∧
        volume - part ≤ count * policy.maxVolume := by
      by_cases large : policy.maxVolume ≤ volume - count * policy.minVolume
      · exact ⟨policy.maxVolume, by omega, le_rfl, by omega, by omega⟩
      · have wider : count * policy.minVolume ≤ count * policy.maxVolume :=
          Int.mul_le_mul_of_nonneg_left ord (Int.natCast_nonneg _)
        exact ⟨volume - count * policy.minVolume, by omega, by omega, by omega, by omega⟩
    obtain ⟨part, least, greatest, above, below⟩ := part
    obtain ⟨parts, sum, win⟩ := ih above below
    refine ⟨part :: parts, ?_, forall_mem_cons.mpr ⟨⟨least, greatest⟩, win⟩⟩
    rw [sum_cons, sum]
    omega

theorem count_of_splittable (splittable : policy.Splittable volume) :
    ∃ count : Nat, count * policy.minVolume ≤ volume ∧ volume ≤ count * policy.maxVolume := by
  obtain ⟨parts, rfl, win⟩ := splittable
  refine ⟨parts.length, ?_⟩
  induction parts with
  | nil => simp
  | cons part parts ih =>
    obtain ⟨least, greatest⟩ := win part mem_cons_self
    obtain ⟨above, lt⟩ := ih fun alt mem => win alt (mem_cons_of_mem _ mem)
    rw [length_cons, sum_cons, Nat.cast_succ, Int.add_mul, Int.add_mul]
    omega

/-- A volume can be split where its fewest slices can be of the least size. -/
theorem splittable_iff (pos : 0 < volume) :
    policy.Splittable volume ↔ policy.fewest volume * policy.minVolume ≤ volume := by
  have minPositive := policy.minPositive
  have ord := policy.minLeMax
  have enough : volume ≤ policy.fewest volume * policy.maxVolume := by
    have whole := Int.mul_ediv_add_emod (volume + policy.maxVolume - 1) policy.maxVolume
    have bnd := Int.emod_lt_of_pos (volume + policy.maxVolume - 1)
      (show 0 < policy.maxVolume by omega)
    rw [fewest, Int.mul_comm]
    omega
  constructor
  · intro splittable
    obtain ⟨count, above, lt⟩ := count_of_splittable splittable
    have few : policy.fewest volume ≤ count := by
      refine Int.lt_add_one_iff.mp (Int.ediv_lt_of_lt_mul (by omega) ?_)
      rw [Int.add_mul, Int.one_mul]
      omega
    exact le_trans (Int.mul_le_mul_of_nonneg_right few minPositive.le) above
  · intro above
    have nn : 0 ≤ policy.fewest volume := Int.ediv_nonneg (by omega) (by omega)
    refine @splittable_of_count _ _ (policy.fewest volume).toNat ?_ ?_
    · rwa [Int.toNat_of_nonneg nn]
    · rwa [Int.toNat_of_nonneg nn]

/-! ## The slices -/

theorem splitOrderVolume_cases (volume : Int) :
    (volume ≤ policy.maxVolume ∧ splitOrderVolume volume (some policy) = volume) ∨
    (policy.maxVolume < volume ∧ volume < policy.maxVolume + policy.minVolume ∧
      splitOrderVolume volume (some policy) = volume - policy.minVolume) ∨
    (policy.maxVolume + policy.minVolume ≤ volume ∧
      splitOrderVolume volume (some policy) = policy.maxVolume) := by
  unfold splitOrderVolume
  dsimp only
  split_ifs <;> omega

theorem slices_of_nonpos (nonpos : volume ≤ 0) : policy.slices volume = [] := by
  rw [slices, if_neg (by omega)]

theorem slices_of_pos (pos : 0 < volume) :
    policy.slices volume = splitOrderVolume volume (some policy) ::
      policy.slices (volume - splitOrderVolume volume (some policy)) := by
  rw [slices, if_pos pos]

theorem slices_of_le (pos : 0 < volume) (small : volume ≤ policy.maxVolume) :
    policy.slices volume = [volume] := by
  have minPositive := policy.minPositive
  have isSlice : splitOrderVolume volume (some policy) = volume := by
    rcases @splitOrderVolume_cases policy volume with ⟨-, isSlice⟩ | ⟨large, -⟩ | ⟨large, -⟩
    · exact isSlice
    · omega
    · omega
  rw [slices_of_pos pos, isSlice, Int.sub_self, slices_of_nonpos le_rfl]

theorem slices_bounds (volume : Int) :
    ∀ cut ∈ policy.slices volume, 0 < cut ∧ cut ≤ policy.maxVolume := by
  have minPositive := policy.minPositive
  have ord := policy.minLeMax
  induction volume using slices.induct policy with
  | case1 volume pos cut ih =>
    rw [slices_of_pos pos, forall_mem_cons]
    refine ⟨?_, ih⟩
    rcases @splitOrderVolume_cases policy volume with
      ⟨small, isSlice⟩ | ⟨above, below, isSlice⟩ | ⟨large, isSlice⟩ <;> omega
  | case2 volume nonpos =>
    rw [slices_of_nonpos (not_lt.mp nonpos)]
    exact fun _ mem => (by cases mem)

theorem sum_slices (nn : 0 ≤ volume) : (policy.slices volume).sum = volume := by
  induction volume using slices.induct policy with
  | case1 volume pos cut ih =>
    have bnds := splitOrderVolume_bounds nn (some policy)
    rw [slices_of_pos pos, sum_cons, ih (by omega)]
    omega
  | case2 volume nonpos =>
    rw [slices_of_nonpos (not_lt.mp nonpos), sum_nil]
    omega

/-- The slices reach the least size where the last ones can share the remainder. -/
theorem minVolume_le_slices_iff (pos : 0 < volume) :
    (∀ slice ∈ policy.slices volume, policy.minVolume ≤ slice) ↔ policy.minVolume ≤ volume ∧
      (policy.remainder volume ≤ policy.maxVolume ∨
        2 * policy.minVolume ≤ policy.remainder volume) := by
  have minPositive := policy.minPositive
  have ord := policy.minLeMax
  have itself (above : policy.minVolume ≤ volume)
      (lt : volume < policy.minVolume + policy.maxVolume) :
      policy.remainder volume = volume := by
    rw [remainder, Int.emod_eq_of_lt (by omega) (by omega)]
    omega
  induction volume using slices.induct policy with
  | case1 volume _ slice ih =>
    rw [slices_of_pos pos, forall_mem_cons]
    rcases @splitOrderVolume_cases policy volume with
      ⟨small, isSlice⟩ | ⟨above, lt, isSlice⟩ | ⟨large, isSlice⟩
    · rw [isSlice, Int.sub_self, slices_of_nonpos le_rfl]
      by_cases reaches : policy.minVolume ≤ volume
      · have same := itself reaches (by omega)
        exact ⟨fun _ => ⟨reaches, .inl (by omega)⟩,
          fun _ => ⟨reaches, fun _ mem => (by cases mem)⟩⟩
      · exact iff_of_false (fun every => reaches every.1) fun both => reaches both.1
    · have same := itself (by omega) (by omega)
      rw [isSlice, Int.sub_sub_self, slices_of_le minPositive ord, same]
      simp only [mem_singleton, forall_eq]
      omega
    · have same : policy.remainder (volume - policy.maxVolume) = policy.remainder volume := by
        rw [remainder, remainder, sub_right_comm, Int.sub_emod_right]
      rw [show slice = policy.maxVolume from isSlice] at ih
      have rest := ih (by omega) fun above lt => by
        rw [remainder, Int.emod_eq_of_lt (by omega) (by omega)]
        omega
      rw [isSlice, and_congr_right fun _ => rest, same]
      omega
  | case2 volume nonpos => exact absurd pos nonpos

/-- The slices keep to the policy wherever it can be kept to, except where the last two cannot
share what is left for them. -/
theorem slicesWithin_iff (positive : 0 < volume) :
    policy.SlicesWithin volume ↔ volume < policy.fewest volume * policy.minVolume ∨
      policy.remainder volume ≤ policy.maxVolume ∨
      2 * policy.minVolume ≤ policy.remainder volume := by
  have splittable := @splittable_iff policy volume positive
  have least := @minVolume_le_slices_iff policy volume positive
  have minPositive := policy.minPositive
  constructor
  · intro win
    by_cases possible : policy.Splittable volume
    · exact .inr (least.mp fun slice mem => (win.within possible slice mem).1).2
    · exact .inl (not_le.mp fun above => possible (splittable.mpr above))
  · intro condition
    refine ⟨slices_bounds volume, sum_slices positive.le, fun possible slice mem =>
      ⟨least.mpr ⟨?_, ?_⟩ slice mem, (slices_bounds volume slice mem).2⟩⟩
    · -- At least one slice is needed.
      have above := splittable.mp possible
      have one : 1 ≤ policy.fewest volume := by
        have ord := policy.minLeMax
        refine (Int.le_ediv_iff_mul_le (by omega)).mpr ?_
        omega
      exact le_trans (by simpa using Int.mul_le_mul_of_nonneg_right one minPositive.le) above
    · exact condition.resolve_left (not_lt.mpr (splittable.mp possible))

/-- Eight is cut into five and three. -/
theorem slicesWithin_eight : SlicesWithin ⟨2, 5, by decide, by decide⟩ 8 :=
  (slicesWithin_iff (by decide)).mpr (.inr (.inl (by decide)))

/-- Twelve is three times four, and is cut into five, three and four. -/
theorem not_slicesWithin_twelve : ¬ SlicesWithin ⟨4, 5, by decide, by decide⟩ 12 := by
  intro win
  have possible : Splittable ⟨4, 5, by decide, by decide⟩ 12 := ⟨[4, 4, 4], by decide, by decide⟩
  have isSlices : slices ⟨4, 5, by decide, by decide⟩ 12 = [5, 3, 4] := by
    rw [slices_of_pos (by decide), slices_of_pos (by decide), slices_of_pos (by decide),
      slices_of_nonpos (by decide)]
    decide
  have small := (win.within possible 3 (by rw [isSlices]; decide)).1
  exact absurd small (by decide)

end VolumeSplitPolicy

end Tqsdk
