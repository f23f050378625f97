import Tqsdk.Data.TickCanonical

/-!
# Replayed ticks

Which rows a pass of `canonicalizeTickRows` drops: what the marks of pages add to the rows that
payloads and ids show, which rows it keeps of any rows, and when it keeps all of rows that are in
order.
-/

namespace Tqsdk

open List

open Neighbours

/-! ## Marks -/

section Marks

variable {marks : List Nat → WrittenTick → WrittenTick → WrittenTick → Bool}
  {mark : WrittenTick → WrittenTick → WrittenTick → Nat}
  {windows : List (WrittenTick × WrittenTick × WrittenTick)} {overlays : List Nat}

theorem suffix_markWindows (stale : List Nat) :
    stale <:+ markWindows marks mark windows stale := by
  unfold markWindows
  induction windows generalizing stale with
  | nil => exact suffix_rfl
  | cons wnd windows ih =>
    obtain ⟨hd, snd, third⟩ := wnd
    rw [foldl_cons]
    refine List.IsSuffix.trans ?_ (ih _)
    dsimp only
    split
    · exact suffix_cons _ _
    · exact suffix_rfl

theorem markWindows_nil (never : ∀ hd snd third, marks [] hd snd third = false) :
    markWindows marks mark windows [] = [] := by
  unfold markWindows
  induction windows with
  | nil => rfl
  | cons wnd windows ih =>
    rw [foldl_cons]
    simp only [never, Bool.false_eq_true, if_false]
    exact ih

theorem suffix_extendWhile (passes : Nat) (stale : List Nat) :
    stale <:+ extendWhile overlays windows passes stale := by
  induction passes generalizing stale with
  | zero => exact suffix_rfl
  | succ passes ih =>
    rw [extendWhile]
    split
    · exact suffix_rfl
    · exact (suffix_markWindows stale).trans (ih _)

theorem extendWhile_nil (passes : Nat) : extendWhile overlays windows passes [] = [] := by
  have nothing : extendOverlays overlays windows [] = [] :=
    markWindows_nil fun hd snd third => decide_eq_false fun overlay => by
      cases overlay.2.1
  cases passes with
  | zero => rfl
  | succ passes =>
    rw [extendWhile, nothing]
    rfl

/-! ### Passes enough -/

end Marks

theorem confirmed_subset_staleOrders (written : List WrittenTick) :
    confirmedStaleOrders written ⊆ staleOrders written := by
  unfold staleOrders
  dsimp only
  exact ((suffix_markWindows _).trans ((suffix_markWindows _).trans
    ((suffix_markWindows _).trans (suffix_extendWhile _ _)))).subset

variable {written : List WrittenTick}

/-- Pages show stale rows only next to confirmed ones. -/
theorem staleOrders_eq_nil (none : confirmedStaleOrders written = []) :
    staleOrders written = [] := by
  unfold staleOrders
  dsimp only
  rw [none, markWindows_nil fun hd snd third => decide_eq_false fun gap => (by cases gap.1),
    markWindows_nil fun hd snd third => decide_eq_false fun orphan => (by cases orphan.2.1),
    markWindows_nil fun hd snd third => decide_eq_false fun orphan => (by cases orphan.1),
    extendWhile_nil]

/-! ## Replays of ids -/

/-- Another row of the id at most ten minutes away. -/
def IdReplayed (written : List WrittenTick) (row : WrittenTick) : Prop :=
  ∃ other ∈ written, other ≠ row ∧ other.row.id = row.row.id ∧
    row.row.datetime - tqbnTickLegacyIdReplaySkewNs ≤ other.row.datetime ∧
    other.row.datetime ≤ row.row.datetime + tqbnTickLegacyIdReplaySkewNs

theorem idReplaySkew_inRange : I64.minimum ≤ tqbnTickLegacyIdReplaySkewNs ∧
    tqbnTickLegacyIdReplaySkewNs < I64.maximum := by decide

theorem mem_sameIdReplayOrders (ord : Ordered written) {row : WrittenTick} (mem : row ∈ written) :
    row.order ∈ sameIdReplayOrders written ↔ IdReplayed written row := by
  have srt : (written.insertionSort fun left right =>
      left.replayKey ≤ right.replayKey).Pairwise fun left right =>
        left.replayKey < right.replayKey := by
    refine pairwise_insertionSort (ord.imp fun ne same => ne ?_)
    exact WrittenTick.order_of_replayKey same
  have isPair {left right : WrittenTick} : (left, right) ∈ pairs _ ↔
      Adjacent WrittenTick.replayKey _ left right := mem_pairs srt
  have inSorted {row : WrittenTick} : row ∈ written.insertionSort (fun left right =>
      left.replayKey ≤ right.replayKey) ↔ row ∈ written := mem_insertionSort _
  unfold sameIdReplayOrders
  rw [mem_flatMap]
  constructor
  · rintro ⟨⟨left, right⟩, pair, isOrder⟩
    dsimp only at isOrder
    split at isOrder
    · rename_i near
      obtain ⟨sameId, skew⟩ := near
      rw [skewNs_le_iff idReplaySkew_inRange] at skew
      have adj := isPair.mp pair
      have lMem := inSorted.mp adj.left_mem
      have rMem := inSorted.mp adj.right_mem
      have ne : left ≠ right := by
        rintro rfl
        exact lt_irrefl _ adj.less
      have post : left.row.datetime ≤ right.row.datetime := by
        rcases WrittenTick.replayKey_lt.mp adj.less with less | ⟨-, less | ⟨same, -⟩⟩
        · omega
        · exact less.le
        · exact same.le
      have pos : 0 ≤ tqbnTickLegacyIdReplaySkewNs := by decide
      rw [mem_cons, mem_singleton] at isOrder
      rcases isOrder with isOrder | isOrder
      · obtain rfl := ord.unique mem lMem isOrder
        exact ⟨right, rMem, ne.symm, sameId.symm, by omega, by omega⟩
      · obtain rfl := ord.unique mem rMem isOrder
        exact ⟨left, lMem, ne, sameId, by omega, by omega⟩
    · cases isOrder
  · rintro ⟨alt, altM, ne, sameId, low, most⟩
    have marks {left right : WrittenTick} (isPair : (left, right) ∈ pairs
        (written.insertionSort fun left right => left.replayKey ≤ right.replayKey))
        (same : left.row.id = right.row.id)
        (near : right.row.datetime - left.row.datetime ≤ tqbnTickLegacyIdReplaySkewNs)
        (isRow : row = left ∨ row = right) : ∃ pair ∈ pairs (written.insertionSort
          fun left right => left.replayKey ≤ right.replayKey), row.order ∈
            if pair.1.row.id = pair.2.row.id ∧
                skewNs pair.1.row pair.2.row ≤ tqbnTickLegacyIdReplaySkewNs then
              [pair.1.order, pair.2.order]
            else [] := by
      refine ⟨(left, right), isPair, ?_⟩
      dsimp only
      rw [if_pos ⟨same, (skewNs_le_iff idReplaySkew_inRange).mpr near⟩]
      rcases isRow with rfl | rfl
      · exact mem_cons_self
      · exact mem_cons_of_mem _ mem_cons_self
    rcases lt_trichotomy row.replayKey alt.replayKey with less | same | less
    · obtain ⟨next, adj, atMost⟩ := exists_adjacent_right srt (inSorted.mpr mem)
        (inSorted.mpr altM) less
      obtain ⟨sameNext, -, pre⟩ := WrittenTick.replayKey_between sameId.symm adj.less.le atMost
      exact marks (isPair.mpr adj) sameNext.symm (by omega) (.inl rfl)
    · exact absurd (ord.unique altM mem (WrittenTick.order_of_replayKey same.symm)) ne
    · obtain ⟨prev, adj, atLeast⟩ := exists_adjacent_left srt (inSorted.mpr altM)
        (inSorted.mpr mem) less
      obtain ⟨samePrevious, lag, -⟩ := WrittenTick.replayKey_between sameId atLeast adj.less.le
      exact marks (isPair.mpr adj) (samePrevious.trans sameId) (by omega) (.inr rfl)

/-! ## Rows next to one another -/

theorem mem_confirmedStaleOrders {ord : Nat} :
    ord ∈ confirmedStaleOrders written ↔
      (ord ∈ sameIdReplayOrders written ∧
        ∃ left right, (left, right) ∈ pairs written ∧ payloadReplay left right = some ord) ∨
      (∃ left right, (left, right) ∈ pairs written ∧ outOfOrder left right = some ord) ∨
      ∃ left right, (left, right) ∈ pairs written ∧ corroborated written left right = some ord := by
  unfold confirmedStaleOrders
  simp only [mem_append, mem_filter, mem_filterMap, Prod.exists, decide_eq_true_eq, or_assoc]

theorem sameIdSkew_inRange : I64.minimum ≤ tqbnTickLegacySameIdTimestampSkewNs ∧
    tqbnTickLegacySameIdTimestampSkewNs < I64.maximum := by decide

theorem timestampSkew_inRange : I64.minimum ≤ tqbnTickLegacyTimestampSkewNs ∧
    tqbnTickLegacyTimestampSkewNs < I64.maximum := by decide

/-- The rows that a pass looks at, by payload. -/
def payloadRows (rows : List Tick) : List WrittenTick := byPayloadThenTime (lastWritten rows)

theorem mem_payloadRows {rows : List Tick} {written : WrittenTick} :
    written ∈ payloadRows rows ↔ written ∈ lastWritten rows := mem_byPayloadThenTime

theorem payloadRows_ordered (rows : List Tick) : Ordered (payloadRows rows) :=
  (ordered_of_sorted (lastWritten_sorted rows)).byPayloadThenTime.1

theorem payloadRows_sorted (rows : List Tick) :
    (payloadRows rows).Pairwise fun left right => left.payloadKey < right.payloadKey :=
  (ordered_of_sorted (lastWritten_sorted rows)).byPayloadThenTime.2

theorem mem_pairs_payloadRows {rows : List Tick} {left right : WrittenTick} :
    (left, right) ∈ pairs (payloadRows rows) ↔
      Adjacent WrittenTick.payloadKey (payloadRows rows) left right :=
  mem_pairs (payloadRows_sorted rows)

/-- A row that a pass keeps. -/
def Kept (rows : List Tick) (written : WrittenTick) : Prop :=
  written ∈ payloadRows rows ∧ written.order ∉ staleOrders (payloadRows rows)

theorem Kept.not_confirmed {rows : List Tick} {written : WrittenTick} (kept : Kept rows written) :
    written.order ∉ confirmedStaleOrders (payloadRows rows) :=
  fun confirmed => kept.2 (confirmed_subset_staleOrders _ confirmed)

section Adjacent

variable {rows : List Tick} {left right : WrittenTick}
  (adj : Adjacent WrittenTick.payloadKey (payloadRows rows) left right)
  (same : left.row.payload = right.row.payload)

include adj same

/-- Of neighbours with one payload and one time the one written first is stale. -/
theorem not_kept_of_same_time (sameTime : left.row.datetime = right.row.datetime) :
    ¬ Kept rows left := by
  intro kept
  have pre : left.order < right.order := by
    have less := (WrittenTick.payloadKey_lt same).mp adj.less
    omega
  refine kept.not_confirmed (mem_confirmedStaleOrders.mpr
    (.inr (.inl ⟨left, right, mem_pairs_payloadRows.mpr adj, ?_⟩)))
  unfold outOfOrder
  rw [if_neg (not_not.mpr same), if_pos (skewNs_eq_zero.mpr sameTime.symm), min_eq_left pre.le]

/-- Of neighbours with one payload and one id one is stale, where they are near. -/
theorem not_kept_of_same_id (sameId : left.row.id = right.row.id)
    (near : right.row.datetime - left.row.datetime ≤ tqbnTickLegacySameIdTimestampSkewNs) :
    ¬ (Kept rows left ∧ Kept rows right) := by
  rintro ⟨keptL, keptR⟩
  have marks : outOfOrder left right = some (min left.order right.order) := by
    unfold outOfOrder
    rw [if_neg (not_not.mpr same)]
    split
    · rfl
    · rw [if_pos ⟨(skewNs_le_iff sameIdSkew_inRange).mpr near, sameId⟩]
  have confirmed := mem_confirmedStaleOrders.mpr
    (.inr (.inl ⟨left, right, mem_pairs_payloadRows.mpr adj, marks⟩))
  rcases min_choice left.order right.order with isLeft | isRight
  · exact keptL.not_confirmed (isLeft ▸ confirmed)
  · exact keptR.not_confirmed (isRight ▸ confirmed)

/-- Of neighbours with one payload and different ids one is stale, where they are near and the id of
the first one was replayed. -/
theorem not_kept_of_replayed (otherId : left.row.id ≠ right.row.id)
    (post : left.row.datetime < right.row.datetime)
    (near : right.row.datetime - left.row.datetime ≤ tqbnTickLegacyTimestampSkewNs)
    (replayed : IdReplayed (payloadRows rows) left) : ¬ (Kept rows left ∧ Kept rows right) := by
  rintro ⟨keptL, keptR⟩
  have isPair := mem_pairs_payloadRows.mpr adj
  have isNear := (skewNs_le_iff timestampSkew_inRange).mpr near
  rcases lt_or_ge right.order left.order with pre | behind
  · refine keptR.not_confirmed
      (mem_confirmedStaleOrders.mpr (.inr (.inl ⟨left, right, isPair, ?_⟩)))
    unfold outOfOrder
    rw [if_neg (not_not.mpr same), if_neg fun zero => post.ne' (skewNs_eq_zero.mp zero),
      if_neg fun both => otherId both.2, if_pos ⟨isNear, pre⟩]
  · refine keptL.not_confirmed (mem_confirmedStaleOrders.mpr (.inl
      ⟨(mem_sameIdReplayOrders (payloadRows_ordered rows) keptL.1).mpr replayed,
        left, right, isPair, ?_⟩))
    unfold payloadReplay
    rw [if_neg (not_or.mpr ⟨not_not.mpr same, otherId⟩), if_pos isNear, min_eq_left behind]

end Adjacent

/-- Kept rows with one payload have different times. -/
theorem Kept.unique {rows : List Tick} {left right : WrittenTick} (keptL : Kept rows left)
    (keptR : Kept rows right) (same : left.row.payload = right.row.payload)
    (sameTime : left.row.datetime = right.row.datetime) : left = right := by
  have wrong {left right : WrittenTick} (keptL : Kept rows left) (keptR : Kept rows right)
      (same : left.row.payload = right.row.payload)
      (sameTime : left.row.datetime = right.row.datetime)
      (less : left.payloadKey < right.payloadKey) : False := by
    obtain ⟨next, adj, atMost⟩ :=
      exists_adjacent_right (payloadRows_sorted rows) keptL.1 keptR.1 less
    have samePayload := WrittenTick.payload_of_between same adj.less atMost
    refine not_kept_of_same_time adj samePayload.symm ?_ keptL
    have lower := (WrittenTick.payloadKey_lt samePayload.symm).mp adj.less
    have upper := atMost.lt_or_eq
    rcases upper with upper | upper
    · have upper := (WrittenTick.payloadKey_lt (samePayload.trans same)).mp upper
      omega
    · have isRight := (payloadRows_ordered rows).unique adj.right_mem keptR.1
        (WrittenTick.order_of_payloadKey upper)
      rw [isRight, sameTime]
  rcases lt_trichotomy left.payloadKey right.payloadKey with less | equal | less
  · exact (wrong keptL keptR same sameTime less).elim
  · exact (payloadRows_ordered rows).unique keptL.1 keptR.1 (WrittenTick.order_of_payloadKey equal)
  · exact (wrong keptR keptL same.symm sameTime.symm less).elim

end Tqsdk
