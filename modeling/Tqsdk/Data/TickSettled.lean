import Tqsdk.Data.TickReplays

/-!
# Settled ticks

When another pass of `canonicalizeTickRows` changes nothing.  A pass compares a row with the next
one of its payload only.  Where it drops the row between two others, these are next to one another in
the next pass.
-/

namespace Tqsdk

open List

open Neighbours

/-! ## What a pass returns -/

theorem mem_canonicalizeTickRows {rows : List Tick} {row : Tick} :
    row ∈ canonicalizeTickRows rows ↔ ∃ put, Kept rows put ∧ put.row = row := by
  unfold canonicalizeTickRows
  rw [mem_insertionSort, mem_map]
  simp only [mem_filter, decide_eq_true_eq]
  rfl

theorem Kept.numbered {rows : List Tick} {put : WrittenTick} (kept : Kept rows put) :
    rows[put.order]? = some put.row :=
  mem_numbered.mp (mem_lastWritten.mp (mem_payloadRows.mp kept.1)).1

variable {left right : WrittenTick}

theorem payloadRows_unique {rows : List Tick} (lMem : left ∈ payloadRows rows)
    (rMem : right ∈ payloadRows rows) (same : left.row.orderKey = right.row.orderKey) :
    left = right := by
  refine lastWritten_unique (mem_payloadRows.mp lMem) (mem_payloadRows.mp rMem) ?_
  obtain ⟨sameTime, sameId⟩ := Prod.mk.inj (toLex.injective same)
  unfold WrittenTick.key
  rw [sameTime, sameId]

/-- The rows are in the order of their times and ids, one for a time and an id. -/
theorem canonicalizeTickRows_sorted (rows : List Tick) :
    (canonicalizeTickRows rows).Pairwise fun left right => left.orderKey < right.orderKey := by
  unfold canonicalizeTickRows
  refine pairwise_insertionSort (pairwise_map.mpr ?_)
  refine ((payloadRows_ordered rows).filter _).imp_of_mem ?_
  intro left right lMem rMem ne same
  have isSame := payloadRows_unique (mem_filter.mp lMem).1 (mem_filter.mp rMem).1 same
  exact ne (congrArg WrittenTick.order isSame)

theorem subset_canonicalizeTickRows (rows : List Tick) : canonicalizeTickRows rows ⊆ rows := by
  intro row mem
  obtain ⟨put, kept, rfl⟩ := mem_canonicalizeTickRows.mp mem
  exact mem_of_getElem? kept.numbered

theorem subperm_canonicalizeTickRows (rows : List Tick) :
    (canonicalizeTickRows rows).Subperm rows :=
  subperm_of_subset (nodup_of_sorted (canonicalizeTickRows_sorted rows))
    (subset_canonicalizeTickRows rows)

/-- Of the rows of an id and a time only the one written last is returned. -/
theorem last_of_mem_canonicalizeTickRows {rows : List Tick} {row : Tick}
    (mem : row ∈ canonicalizeTickRows rows) :
    ∃ ord, rows[ord]? = some row ∧ ∀ (post : Nat) (alt : Tick), rows[post]? = some alt →
      alt.orderKey = row.orderKey → post ≤ ord := by
  obtain ⟨put, kept, rfl⟩ := mem_canonicalizeTickRows.mp mem
  refine ⟨put.order, kept.numbered, fun post alt hit same => ?_⟩
  obtain ⟨sameTime, sameId⟩ := Prod.mk.inj (toLex.injective same)
  refine (mem_lastWritten.mp (mem_payloadRows.mp kept.1)).2 ⟨post, alt⟩ (mem_numbered.mpr hit) ?_
  unfold WrittenTick.key
  rw [sameTime, sameId]

/-! ## Rows in order -/

/-- Rows of one payload with no row of that payload between them. -/
structure NextOfPayload (rows : List Tick) (left right : Tick) : Prop where
  left_mem : left ∈ rows
  right_mem : right ∈ rows
  payload : left.payload = right.payload
  less : left.orderKey < right.orderKey
  between : ∀ other ∈ rows, other.payload = left.payload → left.orderKey < other.orderKey →
    right.orderKey ≤ other.orderKey

/-- Rows of an id at most ten minutes from one another. -/
def NearId (row other : Tick) : Prop :=
  other ≠ row ∧ other.id = row.id ∧
    row.datetime - tqbnTickLegacyIdReplaySkewNs ≤ other.datetime ∧
    other.datetime ≤ row.datetime + tqbnTickLegacyIdReplaySkewNs

/-- A row shows that one with its payload is stale: by the time they share, by the id they share and
that they are near, or by that they are very near and the id of the other was used again. -/
def Replays (rows : List Tick) (left right : Tick) : Prop :=
  left.datetime = right.datetime ∨
    (left.id = right.id ∧
      right.datetime - left.datetime ≤ tqbnTickLegacySameIdTimestampSkewNs) ∨
    (left.id ≠ right.id ∧ right.datetime - left.datetime ≤ tqbnTickLegacyTimestampSkewNs ∧
      ∃ other ∈ rows, NearId left other)

/-- No row replays the one with its payload in front of it. -/
def Settled (rows : List Tick) : Prop :=
  ∀ left right, NextOfPayload rows left right → ¬ Replays rows left right

section Sorted

variable {rows : List Tick}
  (srt : rows.Pairwise fun left right => left.orderKey < right.orderKey)

include srt

variable {left right : WrittenTick}

theorem orderKey_lt_of_order_lt (leftRow : rows[left.order]? = some left.row)
    (rightRow : rows[right.order]? = some right.row) (less : left.order < right.order) :
    left.row.orderKey < right.row.orderKey := by
  obtain ⟨leftBound, leftEq⟩ := List.getElem?_eq_some_iff.mp leftRow
  obtain ⟨rBd, rightEq⟩ := List.getElem?_eq_some_iff.mp rightRow
  rw [← leftEq, ← rightEq]
  exact pairwise_iff_getElem.mp srt left.order right.order leftBound rBd less

theorem mem_payloadRows_of_sorted {put : WrittenTick} :
    put ∈ payloadRows rows ↔ rows[put.order]? = some put.row := by
  rw [mem_payloadRows, mem_lastWritten, mem_numbered]
  refine and_iff_left_of_imp fun hit alt altM same => ?_
  by_contra later
  have less := orderKey_lt_of_order_lt srt hit (mem_numbered.mp altM) (not_le.mp later)
  obtain ⟨sameId, sameTime⟩ := Prod.mk.inj (toLex.injective same)
  unfold Tick.orderKey at less
  rw [sameId, sameTime] at less
  exact lt_irrefl _ less

theorem order_lt_iff (lMem : left ∈ payloadRows rows) (rMem : right ∈ payloadRows rows) :
    left.order < right.order ↔ left.row.orderKey < right.row.orderKey := by
  have leftRow := (mem_payloadRows_of_sorted srt).mp lMem
  have rightRow := (mem_payloadRows_of_sorted srt).mp rMem
  refine ⟨orderKey_lt_of_order_lt srt leftRow rightRow, fun less => ?_⟩
  rcases lt_trichotomy left.order right.order with pre | same | behind
  · exact pre
  · rw [(payloadRows_ordered rows).unique lMem rMem same] at less
    exact absurd less (lt_irrefl _)
  · exact absurd less (orderKey_lt_of_order_lt srt rightRow leftRow behind).asymm

theorem payloadKey_lt_iff (lMem : left ∈ payloadRows rows) (rMem : right ∈ payloadRows rows)
    (same : left.row.payload = right.row.payload) :
    left.payloadKey < right.payloadKey ↔ left.row.orderKey < right.row.orderKey := by
  rw [WrittenTick.payloadKey_lt same, order_lt_iff srt lMem rMem]
  unfold Tick.orderKey
  rw [Prod.Lex.toLex_lt_toLex]
  constructor
  · rintro (less | ⟨sameTime, less | ⟨-, less⟩⟩)
    · exact .inl less
    · exact .inl less
    · exact .inr ⟨sameTime, less⟩
  · rintro (less | ⟨sameTime, less⟩)
    · exact .inl less
    · exact .inr ⟨sameTime, .inr ⟨sameTime, less⟩⟩

theorem nextOfPayload_of_adjacent
    (adj : Adjacent WrittenTick.payloadKey (payloadRows rows) left right)
    (same : left.row.payload = right.row.payload) : NextOfPayload rows left.row right.row := by
  have isRow {written : WrittenTick} (mem : written ∈ payloadRows rows) : written.row ∈ rows :=
    mem_of_getElem? ((mem_payloadRows_of_sorted srt).mp mem)
  refine ⟨isRow adj.left_mem, isRow adj.right_mem, same, (payloadKey_lt_iff srt adj.left_mem
    adj.right_mem same).mp adj.less, fun alt altM otherSame lag => ?_⟩
  obtain ⟨ord, hit⟩ := mem_iff_getElem?.mp altM
  have inRows : (⟨ord, alt⟩ : WrittenTick) ∈ payloadRows rows :=
    (mem_payloadRows_of_sorted srt).mpr hit
  have atMost := adj.between _ inRows
    ((payloadKey_lt_iff srt adj.left_mem inRows otherSame.symm).mpr lag)
  by_contra before
  exact absurd atMost (not_le.mpr ((payloadKey_lt_iff srt inRows adj.right_mem
    (otherSame.trans same)).mpr (not_le.mp before)))

theorem adjacent_of_nextOfPayload {left right : Tick} (fol : NextOfPayload rows left right) :
    ∃ leftOrder rightOrder, Adjacent WrittenTick.payloadKey (payloadRows rows)
      ⟨leftOrder, left⟩ ⟨rightOrder, right⟩ := by
  obtain ⟨leftOrder, leftFound⟩ := mem_iff_getElem?.mp fol.left_mem
  obtain ⟨rightOrder, rightFound⟩ := mem_iff_getElem?.mp fol.right_mem
  have lMem : (⟨leftOrder, left⟩ : WrittenTick) ∈ payloadRows rows :=
    (mem_payloadRows_of_sorted srt).mpr leftFound
  have rMem : (⟨rightOrder, right⟩ : WrittenTick) ∈ payloadRows rows :=
    (mem_payloadRows_of_sorted srt).mpr rightFound
  refine ⟨leftOrder, rightOrder, lMem, rMem, (payloadKey_lt_iff srt lMem rMem fol.payload).mpr
    fol.less, fun alt altM lag => ?_⟩
  by_contra before
  have otherSame := WrittenTick.payload_of_between fol.payload lag (not_le.mp before).le
  have otherFound := (mem_payloadRows_of_sorted srt).mp altM
  have atMost := fol.between alt.row (mem_of_getElem? otherFound) otherSame
    ((payloadKey_lt_iff srt lMem altM otherSame.symm).mp lag)
  exact absurd atMost (not_le.mpr ((payloadKey_lt_iff srt altM rMem
    (otherSame.trans fol.payload)).mp (not_le.mp before)))

theorem idReplayed_iff {put : WrittenTick} (mem : put ∈ payloadRows rows) :
    IdReplayed (payloadRows rows) put ↔ ∃ alt ∈ rows, NearId put.row alt := by
  unfold IdReplayed NearId
  constructor
  · rintro ⟨alt, altM, ne, near⟩
    have hit := (mem_payloadRows_of_sorted srt).mp altM
    refine ⟨alt.row, mem_of_getElem? hit, fun same => ne ?_, near⟩
    exact payloadRows_unique altM mem (congrArg Tick.orderKey same)
  · rintro ⟨alt, altM, ne, near⟩
    obtain ⟨ord, hit⟩ := mem_iff_getElem?.mp altM
    refine ⟨⟨ord, alt⟩, (mem_payloadRows_of_sorted srt).mpr hit, ?_, near⟩
    rintro rfl
    exact ne rfl

/-- In rows in order the payloads and ids show no row stale unless a row is replayed. -/
theorem confirmedStaleOrders_eq_nil (done : Settled rows) :
    confirmedStaleOrders (payloadRows rows) = [] := by
  refine eq_nil_iff_forall_not_mem.mpr fun ord confirmed => ?_
  have pre {left right : WrittenTick}
      (adj : Adjacent WrittenTick.payloadKey (payloadRows rows) left right)
      (same : left.row.payload = right.row.payload) : left.order < right.order :=
    (order_lt_iff srt adj.left_mem adj.right_mem).mpr (nextOfPayload_of_adjacent srt adj same).less
  rcases mem_confirmedStaleOrders.mp confirmed with
    ⟨replayed, left, right, isPair, marks⟩ | ⟨left, right, isPair, marks⟩ | ⟨left, right, isPair, marks⟩
  all_goals have adj := mem_pairs_payloadRows.mp isPair
  · unfold payloadReplay at marks
    split at marks
    · cases marks
    rename_i ne
    obtain ⟨same, otherId⟩ := not_or.mp ne
    have same := not_not.mp same
    have isBefore := pre adj same
    split at marks
    · rename_i near
      rw [min_eq_left isBefore.le] at marks
      rw [← Option.some.inj marks, mem_sameIdReplayOrders (payloadRows_ordered rows) adj.left_mem,
        idReplayed_iff srt adj.left_mem] at replayed
      exact done _ _ (nextOfPayload_of_adjacent srt adj same)
        (.inr (.inr ⟨otherId, (skewNs_le_iff timestampSkew_inRange).mp near, replayed⟩))
    · split at marks
      · rename_i lag
        exact absurd isBefore lag.2.asymm
      · cases marks
  · unfold outOfOrder at marks
    split at marks
    · cases marks
    rename_i same
    have same := not_not.mp same
    have next := nextOfPayload_of_adjacent srt adj same
    split at marks
    · rename_i zero
      exact done _ _ next (.inl (skewNs_eq_zero.mp zero).symm)
    split at marks
    · rename_i near
      exact done _ _ next (.inr (.inl ⟨near.2, (skewNs_le_iff sameIdSkew_inRange).mp near.1⟩))
    split at marks
    · rename_i lag
      exact absurd (pre adj same) lag.2.asymm
    · cases marks
  · unfold corroborated at marks
    split at marks
    · cases marks
    rename_i ne
    have same := not_not.mp (not_or.mp ne).1
    simp only [pre adj same, if_true] at marks
    split at marks
    · cases marks
    split at marks
    · rename_i witness
      obtain ⟨alt, altM, conditions⟩ := any_eq_true.mp witness
      obtain ⟨-, post, prior, -⟩ := of_decide_eq_true conditions
      have less := (order_lt_iff srt adj.left_mem altM).mp post
      rcases Prod.Lex.toLex_lt_toLex.mp less with less | ⟨sameTime, -⟩
      · exact absurd prior less.asymm
      · exact absurd prior (not_lt.mpr sameTime.le)
    · cases marks

/-- A pass over rows in order changes nothing if and only if no row replays another. -/
theorem canonicalizeTickRows_eq_self_iff : canonicalizeTickRows rows = rows ↔ Settled rows := by
  constructor
  · intro unchanged left right next replays
    obtain ⟨leftOrder, rightOrder, adj⟩ := adjacent_of_nextOfPayload srt next
    have kept {written : WrittenTick} (mem : written ∈ payloadRows rows) : Kept rows written := by
      have hit := (mem_payloadRows_of_sorted srt).mp mem
      have ret : written.row ∈ canonicalizeTickRows rows := by
        rw [unchanged]
        exact mem_of_getElem? hit
      obtain ⟨alt, otherKept, same⟩ := mem_canonicalizeTickRows.mp ret
      rwa [payloadRows_unique otherKept.1 mem (congrArg Tick.orderKey same)] at otherKept
    have keptL := kept adj.left_mem
    have keptR := kept adj.right_mem
    rcases replays with sameTime | ⟨sameId, near⟩ | ⟨otherId, near, replayed⟩
    · exact not_kept_of_same_time adj next.payload sameTime keptL
    · exact not_kept_of_same_id adj next.payload sameId near ⟨keptL, keptR⟩
    · by_cases sameTime : left.datetime = right.datetime
      · exact not_kept_of_same_time adj next.payload sameTime keptL
      have post : left.datetime < right.datetime := by
        rcases Prod.Lex.toLex_lt_toLex.mp next.less with less | ⟨same, -⟩
        · exact less
        · exact absurd same sameTime
      exact not_kept_of_replayed adj next.payload otherId post near
        ((idReplayed_iff srt adj.left_mem).mpr replayed) ⟨keptL, keptR⟩
  · intro done
    have none := staleOrders_eq_nil (confirmedStaleOrders_eq_nil srt done)
    refine eq_of_sorted (canonicalizeTickRows_sorted rows) srt fun row => ?_
    refine ⟨fun mem => subset_canonicalizeTickRows rows mem, fun mem => ?_⟩
    obtain ⟨ord, hit⟩ := mem_iff_getElem?.mp mem
    refine mem_canonicalizeTickRows.mpr
      ⟨⟨ord, row⟩, ⟨(mem_payloadRows_of_sorted srt).mpr hit, ?_⟩, rfl⟩
    rw [none]
    exact not_mem_nil

end Sorted

/-! ## Rows in any order -/

/-- A pass drops the rows between two that it keeps, all with one payload, and the two are so near
that the next pass takes one of them for a replay. -/
structure Hides (rows : List Tick) (left middle right : WrittenTick) : Prop where
  keptLeft : Kept rows left
  keptRight : Kept rows right
  payload : left.row.payload = right.row.payload
  later : left.row.datetime < right.row.datetime
  middle_mem : middle ∈ payloadRows rows
  behind : left.payloadKey < middle.payloadKey
  before : middle.payloadKey < right.payloadKey
  dropped : ∀ other ∈ payloadRows rows, left.payloadKey < other.payloadKey →
    other.payloadKey < right.payloadKey → ¬ Kept rows other
  near : (left.row.id = right.row.id ∧
      right.row.datetime - left.row.datetime ≤ tqbnTickLegacySameIdTimestampSkewNs) ∨
    (left.row.id ≠ right.row.id ∧
      right.row.datetime - left.row.datetime ≤ tqbnTickLegacyTimestampSkewNs ∧
      ∃ other, Kept rows other ∧ NearId left.row other.row)

theorem Kept.datetime_lt {rows : List Tick} (keptL : Kept rows left)
    (keptR : Kept rows right) (same : left.row.payload = right.row.payload)
    (less : left.row.orderKey < right.row.orderKey) : left.row.datetime < right.row.datetime := by
  rcases Prod.Lex.toLex_lt_toLex.mp less with less | ⟨sameTime, -⟩
  · exact less
  · rw [keptL.unique keptR same sameTime] at less
    exact absurd less (lt_irrefl _)

/-- Two rows that are returned and follow one another there have only dropped rows between them. -/
theorem dropped_between {rows : List Tick} (keptL : Kept rows left) (keptR : Kept rows right)
    (fol : NextOfPayload (canonicalizeTickRows rows) left.row right.row) {alt : WrittenTick}
    (post : left.payloadKey < alt.payloadKey) (pre : alt.payloadKey < right.payloadKey) :
    ¬ Kept rows alt := by
  intro kept
  have same := WrittenTick.payload_of_between fol.payload post pre.le
  have lower := (WrittenTick.payloadKey_lt same.symm).mp post
  have upper := (WrittenTick.payloadKey_lt (same.trans fol.payload)).mp pre
  have notLeft : left.row.datetime ≠ alt.row.datetime := by
    intro sameTime
    rw [keptL.unique kept same.symm sameTime] at post
    exact lt_irrefl _ post
  have notRight : alt.row.datetime ≠ right.row.datetime := by
    intro sameTime
    rw [kept.unique keptR (same.trans fol.payload) sameTime] at pre
    exact lt_irrefl _ pre
  have atMost := fol.between alt.row (mem_canonicalizeTickRows.mpr ⟨alt, kept, rfl⟩) same
    (Prod.Lex.toLex_lt_toLex.mpr (.inl (by omega)))
  exact absurd atMost (not_le.mpr (Prod.Lex.toLex_lt_toLex.mpr (.inl (by omega))))

/-- Another pass changes nothing if and only if the first one hides no replay. -/
theorem idempotent_iff (rows : List Tick) :
    canonicalizeTickRows (canonicalizeTickRows rows) = canonicalizeTickRows rows ↔
      ∀ left mid right, ¬ Hides rows left mid right := by
  rw [canonicalizeTickRows_eq_self_iff (canonicalizeTickRows_sorted rows)]
  constructor
  · rintro done left mid right hides
    refine done left.row right.row ⟨mem_canonicalizeTickRows.mpr ⟨left, hides.keptLeft, rfl⟩,
      mem_canonicalizeTickRows.mpr ⟨right, hides.keptRight, rfl⟩, hides.payload,
      Prod.Lex.toLex_lt_toLex.mpr (.inl hides.later), fun alt altM same lag => ?_⟩ ?_
    · obtain ⟨put, kept, rfl⟩ := mem_canonicalizeTickRows.mp altM
      by_contra pre
      have prior := hides.keptLeft.datetime_lt kept same.symm lag
      have post := kept.datetime_lt hides.keptRight (same.trans hides.payload) (not_le.mp pre)
      exact hides.dropped put kept.1 ((WrittenTick.payloadKey_lt same.symm).mpr (.inl prior))
        ((WrittenTick.payloadKey_lt (same.trans hides.payload)).mpr (.inl post)) kept
    · refine .inr (hides.near.imp id ?_)
      rintro ⟨otherId, near, alt, kept, nearId⟩
      exact ⟨otherId, near, alt.row, mem_canonicalizeTickRows.mpr ⟨alt, kept, rfl⟩, nearId⟩
  · rintro nothing _ _ nxt replays
    obtain ⟨left, keptL, rfl⟩ := mem_canonicalizeTickRows.mp nxt.left_mem
    obtain ⟨right, keptR, rfl⟩ := mem_canonicalizeTickRows.mp nxt.right_mem
    have post := keptL.datetime_lt keptR nxt.payload nxt.less
    have near : (left.row.id = right.row.id ∧
        right.row.datetime - left.row.datetime ≤ tqbnTickLegacySameIdTimestampSkewNs) ∨
      (left.row.id ≠ right.row.id ∧
        right.row.datetime - left.row.datetime ≤ tqbnTickLegacyTimestampSkewNs ∧
        ∃ alt, Kept rows alt ∧ NearId left.row alt.row) := by
      refine (replays.resolve_left post.ne).imp id ?_
      rintro ⟨otherId, near, alt, altM, nearId⟩
      obtain ⟨put, kept, rfl⟩ := mem_canonicalizeTickRows.mp altM
      exact ⟨otherId, near, put, kept, nearId⟩
    obtain ⟨next, adj, atMost⟩ := exists_adjacent_right (payloadRows_sorted rows) keptL.1
      keptR.1 ((WrittenTick.payloadKey_lt nxt.payload).mpr (.inl post))
    rcases atMost.lt_or_eq with pre | isRight
    · exact nothing left next right ⟨keptL, keptR, nxt.payload, post, adj.right_mem, adj.less, pre,
        fun _ _ lag pre => dropped_between keptL keptR nxt lag pre, near⟩
    -- The two were compared by the first pass too.
    · obtain rfl := (payloadRows_ordered rows).unique adj.right_mem keptR.1
        (WrittenTick.order_of_payloadKey isRight)
      rcases near with ⟨sameId, near⟩ | ⟨otherId, near, alt, kept, nearId⟩
      · exact not_kept_of_same_id adj nxt.payload sameId near ⟨keptL, keptR⟩
      · refine not_kept_of_replayed adj nxt.payload otherId post near
          ⟨alt, kept.1, ?_, nearId.2⟩ ⟨keptL, keptR⟩
        rintro rfl
        exact nearId.1 rfl

end Tqsdk
