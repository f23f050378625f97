import Mathlib.Data.List.Dedup
import Tqsdk.Relay.MarketCache

/-!
# The rows of a tick ring

`push_tick` finds the place of a row by the last id of the ring: at the end, over the row with its
id, or before the first larger id.  In a ring of growing ids these branches are one insertion in id
order, so the rows of an id epoch are kept by id, each as it was pushed last, and a ring that is too
long loses those with the smallest ids.

`PlacesRow` says what a push does to a ring without naming the function that computes it: which rows
may be left, and which of them are, up to the capacity.
-/

namespace Tqsdk

open List

namespace MarketCache

/-- The row at the place of its id, instead of the one that was there. -/
def insertRow (row : RelayTickRow) : List RelayTickRow → List RelayTickRow
  | [] => [row]
  | first :: rest =>
    if first.id < row.id then first :: insertRow row rest
    else if first.id = row.id then row :: rest
    else row :: first :: rest

/-- The rows in the order of their ids, each as it was pushed last. -/
def contents (epoch : List RelayTickRow) : List RelayTickRow :=
  epoch.foldl (fun rows row => insertRow row rows) []

/-- The ids grow. -/
def Ascends (ring : List RelayTickRow) : Prop :=
  ring.Pairwise fun earlier later => earlier.id < later.id

/-- A newer row whose id does not grow starts the ids again. -/
def Restarts (ring : List RelayTickRow) (row : RelayTickRow) : Prop :=
  ∃ last, ring.getLast? = some last ∧ row.id ≤ last.id ∧ last.datetime < row.datetime

/-- The rows that a push leaves when there is room: the row itself and, unless it starts the ids
again, every row with another id. -/
def Leaves (ring : List RelayTickRow) (row held : RelayTickRow) : Prop :=
  held = row ∨ ¬ Restarts ring row ∧ held ∈ ring ∧ held.id ≠ row.id

/-- Only these rows are left and all of them are, except those whose ids lie below all ids of a full
ring. -/
structure PlacesRow (capacity : Nat) (ring : List RelayTickRow) (row : RelayTickRow)
    (after : List RelayTickRow) : Prop where
  ascends : Ascends after
  bounded : after.length ≤ capacity
  sound : ∀ held ∈ after, Leaves ring row held
  complete : ∀ held, Leaves ring row held →
    held ∈ after ∨ after.length = capacity ∧ ∀ other ∈ after, held.id < other.id

/-! ## Placing a row -/

variable {ring rest : List RelayTickRow} {row : RelayTickRow} {capacity : Nat}

theorem insertRow_append (less : ∀ old ∈ ring, old.id < row.id) :
    insertRow row (ring ++ rest) = ring ++ insertRow row rest := by
  induction ring with
  | nil => rfl
  | cons first ring ih =>
    rw [cons_append, insertRow, if_pos (less first mem_cons_self),
      ih fun old mem => less old (mem_cons_of_mem _ mem), cons_append]

theorem mem_insertRow {other : RelayTickRow} (mem : other ∈ insertRow row ring) :
    other = row ∨ other ∈ ring := by
  induction ring with
  | nil => exact .inl (mem_singleton.mp mem)
  | cons first ring ih =>
    unfold insertRow at mem
    split_ifs at mem
    · rcases mem_cons.mp mem with rfl | mem
      · exact .inr mem_cons_self
      · exact (ih mem).imp_right (mem_cons_of_mem _)
    · exact (mem_cons.mp mem).imp_right (mem_cons_of_mem _)
    · exact mem_cons.mp mem

section

variable (ascending : Ascends ring)

include ascending

theorem Ascends.insertRow (row : RelayTickRow) : Ascends (insertRow row ring) := by
  induction ring with
  | nil => exact pairwise_singleton _ _
  | cons first ring ih =>
    obtain ⟨head, tail⟩ := pairwise_cons.mp ascending
    unfold MarketCache.insertRow
    split_ifs with less same
    · refine pairwise_cons.mpr ⟨fun other mem => ?_, ih tail⟩
      rcases mem_insertRow mem with rfl | mem
      · exact less
      · exact head other mem
    · exact pairwise_cons.mpr ⟨fun other mem => same ▸ head other mem, tail⟩
    · have above : row.id < first.id := by omega
      refine pairwise_cons.mpr ⟨fun other mem => ?_, ascending⟩
      rcases mem_cons.mp mem with rfl | mem
      · exact above
      · exact above.trans (head other mem)

theorem Ascends.insertRow_known (seen : hasRow RelayTickRow.id ring row = true) :
    MarketCache.insertRow row ring = ring.map fun old => if old.id = row.id then row else old := by
  induction ring with
  | nil => cases seen
  | cons first ring ih =>
    obtain ⟨head, tail⟩ := pairwise_cons.mp ascending
    obtain ⟨old, mem, same⟩ := hasRow_eq_true.mp seen
    rw [MarketCache.insertRow, map_cons]
    split_ifs with less here here
    · omega
    · have inside : old ∈ ring := (mem_cons.mp mem).resolve_left fun isFirst => by
        rw [isFirst] at same
        omega
      rw [ih tail (hasRow_eq_true.mpr ⟨old, inside, same⟩)]
    · refine congrArg (row :: ·) ((map_id _).symm.trans (map_congr_left fun other mem => ?_))
      have above := head other mem
      rw [if_neg (by omega)]
      rfl
    · rcases mem_cons.mp mem with rfl | mem
      · exact absurd same here
      · have above := head old mem
        omega

theorem Ascends.insertRow_new (new : ∀ old ∈ ring, old.id ≠ row.id) :
    MarketCache.insertRow row ring =
      ring.takeWhile (fun old => decide (old.id ≤ row.id)) ++
        row :: ring.dropWhile fun old => decide (old.id ≤ row.id) := by
  induction ring with
  | nil => rfl
  | cons first ring ih =>
    have ne := new first mem_cons_self
    rw [MarketCache.insertRow, takeWhile_cons, dropWhile_cons]
    by_cases less : first.id < row.id
    · rw [if_pos less, if_pos (decide_eq_true less.le), if_pos (decide_eq_true less.le),
        ih (pairwise_cons.mp ascending).2 fun old mem => new old (mem_cons_of_mem _ mem),
        cons_append]
    · have above : ¬ decide (first.id ≤ row.id) = true := by
        simp only [decide_eq_true_eq]
        omega
      rw [if_neg less, if_neg ne, if_neg above, if_neg above]
      rfl

/-- The branches of the ring place a row where its id belongs. -/
theorem Ascends.placeTick (row : RelayTickRow) :
    MarketCache.placeTick ring row = MarketCache.insertRow row ring := by
  unfold MarketCache.placeTick
  cases isLast : ring.getLast? with
  | none => rw [getLast?_eq_none_iff.mp isLast]; rfl
  | some last =>
    obtain ⟨init, rfl⟩ := getLast?_eq_some_iff.mp isLast
    have less : ∀ old ∈ init, old.id < last.id := fun old mem =>
      (pairwise_append.mp ascending).2.2 old mem last mem_cons_self
    dsimp only
    split_ifs with same late seen
    · rw [dropLast_concat, insertRow_append (same ▸ less), MarketCache.insertRow,
        if_neg (by omega), if_pos same]
    · have nodup : ((init ++ [last]).reverse.map RelayTickRow.id).Nodup := by
        rw [map_reverse, nodup_reverse]
        exact (pairwise_map.mpr ascending).imp ne_of_lt
      rw [overwriteRow_eq_map nodup, map_reverse, reverse_reverse, ascending.insertRow_known seen]
    · exact (ascending.insertRow_new (hasRow_eq_false.mp (Bool.eq_false_iff.mpr seen))).symm
    · have grows : last.id < row.id := by omega
      rw [← append_nil (init ++ [last]), insertRow_append, append_nil]
      · rfl
      · intro old mem
        rcases mem_append.mp mem with mem | mem
        · exact (less old mem).trans grows
        · rw [mem_singleton.mp mem]
          exact grows

omit ascending in
theorem length_insertRow : ring.length ≤ (MarketCache.insertRow row ring).length := by
  induction ring with
  | nil => exact Nat.zero_le _
  | cons first ring ih =>
    unfold MarketCache.insertRow
    split_ifs
    · exact Nat.succ_le_succ ih
    · exact le_refl _
    · exact Nat.le_succ _

omit ascending in
theorem trimRing_cons (full : capacity ≤ ring.length) :
    trimRing capacity (row :: ring) = trimRing capacity ring := by
  rw [trimRing, trimRing, length_cons, Nat.succ_sub full]
  rfl

omit ascending in
theorem insertRow_of_above (above : ∀ old ∈ ring, row.id < old.id) :
    MarketCache.insertRow row ring = row :: ring := by
  cases ring with
  | nil => rfl
  | cons first ring =>
    have post := above first mem_cons_self
    rw [MarketCache.insertRow, if_neg (by omega), if_neg (by omega)]

end

/-- The rows that a full ring has dropped do not matter to it. -/
theorem Ascends.trim_insertRow (ascending : Ascends (rest ++ ring)) (full : capacity ≤ ring.length)
    (row : RelayTickRow) : trimRing capacity (MarketCache.insertRow row (rest ++ ring)) =
      trimRing capacity (MarketCache.insertRow row ring) := by
  induction rest with
  | nil => rfl
  | cons first rest ih =>
    obtain ⟨head, tail⟩ := pairwise_cons.mp ascending
    have long : capacity ≤ (rest ++ ring).length := full.trans (by simp)
    rw [← ih tail, cons_append, MarketCache.insertRow]
    split_ifs with less same
    · exact trimRing_cons (long.trans length_insertRow)
    · rw [trimRing_cons long, insertRow_of_above fun old mem => same ▸ head old mem,
        trimRing_cons long]
    · rw [trimRing_cons (long.trans (Nat.le_succ _)), trimRing_cons long,
        insertRow_of_above fun old mem => by have := head old mem; omega, trimRing_cons long]

theorem trimRing_eq_drop (capacity : Nat) (rows : List RelayTickRow) :
    ∃ drop, rows = drop ++ trimRing capacity rows ∧
      (drop = [] ∨ capacity ≤ (trimRing capacity rows).length) := by
  refine ⟨rows.take (rows.length - capacity), (take_append_drop _ _).symm, ?_⟩
  unfold trimRing
  rw [length_drop]
  by_cases few : rows.length ≤ capacity
  · exact .inl (by rw [Nat.sub_eq_zero_of_le few, take_zero])
  · exact .inr (by omega)

/-- A push keeps the rows of the epoch with the largest ids. -/
theorem pushRow_contents {epoch : List RelayTickRow} (ascending : Ascends (contents epoch))
    (isRing : ring = trimRing capacity (contents epoch)) (same : startsEpoch ring row = false) :
    pushRow capacity ring row = trimRing capacity (contents (epoch ++ [row])) := by
  have extended : contents (epoch ++ [row]) = insertRow row (contents epoch) := foldl_concat _ _ _ _
  obtain ⟨drop, isSplit, full⟩ := trimRing_eq_drop capacity (contents epoch)
  rw [← isRing] at isSplit full
  rw [isSplit] at ascending
  rw [pushRow, same, if_neg Bool.false_ne_true,
    Ascends.placeTick (pairwise_append.mp ascending).2.1, extended, isSplit]
  rcases full with rfl | full
  · rfl
  · exact (ascending.trim_insertRow full row).symm

theorem ascends_contents (epoch : List RelayTickRow) : Ascends (contents epoch) := by
  have run : ∀ rows, Ascends rows →
      Ascends (epoch.foldl (fun rows row => insertRow row rows) rows) := by
    induction epoch with
    | nil => exact fun _ ascending => ascending
    | cons row epoch ih => exact fun _ ascending => ih _ (ascending.insertRow row)
  exact run [] List.Pairwise.nil

theorem Ascends.mem_insertRow (ascending : Ascends ring) {other : RelayTickRow} :
    other ∈ MarketCache.insertRow row ring ↔ other = row ∨ other ∈ ring ∧ other.id ≠ row.id := by
  induction ring with
  | nil => simp [MarketCache.insertRow]
  | cons first ring ih =>
    obtain ⟨head, tail⟩ := pairwise_cons.mp ascending
    have above := head other
    unfold MarketCache.insertRow
    split_ifs with less same
    · rw [mem_cons, ih tail, mem_cons]
      grind
    · grind
    · grind

/-- Each id is held with the row pushed last for it. -/
theorem mem_contents (epoch : List RelayTickRow) : row ∈ contents epoch ↔
    (epoch.filter fun old => old.id = row.id).getLast? = some row := by
  induction epoch using List.reverseRecOn with
  | nil => simp [contents]
  | append_singleton epoch new ih =>
    have extended : contents (epoch ++ [new]) = insertRow new (contents epoch) :=
      foldl_concat _ _ _ _
    rw [extended, (ascends_contents epoch).mem_insertRow, filter_append, ih]
    by_cases same : new.id = row.id
    · rw [filter_singleton, decide_eq_true same, cond_true, getLast?_concat, Option.some_inj]
      grind
    · rw [filter_singleton, decide_eq_false same, cond_false, append_nil]
      grind

/-! ## What a push leaves -/

theorem startsEpoch_iff : startsEpoch ring row = true ↔ Restarts ring row := by
  rw [startsEpoch, Option.any_eq_true, Restarts]
  exact exists_congr fun last => and_congr_right fun _ => decide_eq_true_iff

/-- Trimming a ring in id order drops the rows with the smallest ids of a full ring. -/
theorem Ascends.mem_trimRing (ascending : Ascends ring) {held : RelayTickRow} (mem : held ∈ ring) :
    held ∈ trimRing capacity ring ∨
      (trimRing capacity ring).length = capacity ∧
        ∀ other ∈ trimRing capacity ring, held.id < other.id := by
  obtain ⟨dropped, isSplit, full⟩ := trimRing_eq_drop capacity ring
  have inside : held ∈ dropped ++ trimRing capacity ring := isSplit ▸ mem
  refine (mem_append.mp inside).symm.imp_right fun gone => ⟨?_, fun other kept => ?_⟩
  · refine le_antisymm ?_ (full.resolve_left (ne_nil_of_mem gone))
    rw [trimRing, length_drop]
    omega
  · have sorted : Ascends (dropped ++ trimRing capacity ring) := isSplit ▸ ascending
    exact (pairwise_append.mp sorted).2.2 held gone other kept

/-- A push places the row in a ring of growing ids, which stays one. -/
theorem Ascends.placesRow (ascending : Ascends ring) (row : RelayTickRow) :
    PlacesRow capacity ring row (pushRow capacity ring row) := by
  have placed : ∃ rows, pushRow capacity ring row = trimRing capacity rows ∧ Ascends rows ∧
      ∀ held, held ∈ rows ↔ Leaves ring row held := by
    unfold Leaves pushRow
    by_cases restart : startsEpoch ring row = true
    · rw [if_pos restart]
      refine ⟨[row], rfl, pairwise_singleton _ _, fun held => ?_⟩
      simp [startsEpoch_iff.mp restart]
    · rw [if_neg restart, ascending.placeTick row]
      refine ⟨_, rfl, ascending.insertRow row, fun held => ?_⟩
      rw [ascending.mem_insertRow]
      simp [mt startsEpoch_iff.mpr restart]
  obtain ⟨rows, isRing, sorted, leaves⟩ := placed
  rw [isRing]
  have part : (trimRing capacity rows).Sublist rows := drop_sublist _ _
  refine ⟨sorted.sublist part, ?_, fun held mem => (leaves held).mp (part.subset mem),
    fun held left => sorted.mem_trimRing ((leaves held).mpr left)⟩
  rw [trimRing, length_drop]
  omega

end MarketCache

end Tqsdk
