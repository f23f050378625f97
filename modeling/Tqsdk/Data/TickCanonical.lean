import Mathlib
import Tqsdk.Data.Rows
import Tqsdk.Lib.Bytes
import Tqsdk.Lib.Neighbours
import Tqsdk.Lib.OrdMap

/-!
# Canonical ticks

`canonicalize_tick_rows` of `history_series_cache/tqbn/mod.rs`.  Of the rows of an id and a time
the last one written is kept, and then the rows are dropped that were replayed: rows whose payload,
or whose page, was written again under another id or another time.
-/

namespace Tqsdk

open List

def tqbnTickLegacyTimestampSkewNs : Int := 1000

def tqbnTickLegacySameIdTimestampSkewNs : Int := 20000000

def tqbnTickLegacyCorroboratedPayloadSkewNs : Int := 1000000000

def tqbnTickLegacyIdReplaySkewNs : Int := 10 * 60 * 1000000000

/-- The words of `bits` that are signed: the volumes of the five levels, `volume` and
`open_interest`. -/
def signedField (position : Nat) : Bool :=
  decide (5 ≤ position ∧ position ≤ 23 ∧ position % 2 = 1) || position == 24 || position == 26

/-- `TickPayloadKey::from_tick`, in the order of its fields. -/
def Tick.payload (row : Tick) : List Int ×ₗ WithBot Int :=
  toLex (row.bits.mapIdx fun position word =>
    if signedField position then Bytes.toInt word else (word : Int), row.epoch)

/-- `right.saturating_sub(left)`. -/
def skewNs (left right : Tick) : Int := I64.saturated (right.datetime - left.datetime)

/-- A row and the order in which it was written. -/
structure WrittenTick where
  order : Nat
  row : Tick
  deriving DecidableEq

namespace WrittenTick

variable (written : WrittenTick)

def key : Int ×ₗ Int := toLex (written.row.id, written.row.datetime)

def replayKey : Int ×ₗ Int ×ₗ Nat :=
  toLex (written.row.id, toLex (written.row.datetime, written.order))

def payloadKey : (List Int ×ₗ WithBot Int) ×ₗ Int ×ₗ Nat :=
  toLex (written.row.payload, toLex (written.row.datetime, written.order))

end WrittenTick

open Neighbours

/-- The rows in the order in which they are written. -/
def numbered (rows : List Tick) : List WrittenTick :=
  rows.zipIdx.map fun entry => ⟨entry.2, entry.1⟩

/-- The last rows written of every id and time, in the order in which they were. -/
def lastWritten (rows : List Tick) : List WrittenTick :=
  (((numbered rows).foldl (fun map written => OrdMap.insert written.key written map) []).map
    Prod.snd).insertionSort fun left right => left.order ≤ right.order

/-- `rows_by_payload_then_time`. -/
def byPayloadThenTime (written : List WrittenTick) : List WrittenTick :=
  written.insertionSort fun left right => left.payloadKey ≤ right.payloadKey

/-- `same_id_replay_orders`. -/
def sameIdReplayOrders (written : List WrittenTick) : List Nat :=
  (pairs (written.insertionSort fun left right => left.replayKey ≤ right.replayKey)).flatMap
    fun (left, right) =>
      if left.row.id = right.row.id ∧ skewNs left.row right.row ≤ tqbnTickLegacyIdReplaySkewNs then
        [left.order, right.order]
      else []

/-- The order that a pair of rows with one payload gives to `stale_out_of_order_payload_orders`. -/
def outOfOrder (left right : WrittenTick) : Option Nat :=
  if left.row.payload ≠ right.row.payload then none
  else if skewNs left.row right.row = 0 then some (min left.order right.order)
  else if skewNs left.row right.row ≤ tqbnTickLegacySameIdTimestampSkewNs ∧
      left.row.id = right.row.id then
    some (min left.order right.order)
  else if skewNs left.row right.row ≤ tqbnTickLegacyTimestampSkewNs ∧ right.order < left.order then
    some right.order
  else none

/-- The order that it gives to `payload_replay_with_later_write_orders`. -/
def payloadReplay (left right : WrittenTick) : Option Nat :=
  if left.row.payload ≠ right.row.payload ∨ left.row.id = right.row.id then none
  else if skewNs left.row right.row ≤ tqbnTickLegacyTimestampSkewNs then
    some (min left.order right.order)
  else if skewNs left.row right.row ≤ tqbnTickLegacyIdReplaySkewNs ∧ right.order < left.order then
    some right.order
  else none

/-- The older of two rows with one payload, where its id was written later with another payload at
an earlier time. -/
def corroborated (written : List WrittenTick) (left right : WrittenTick) : Option Nat :=
  if left.row.payload ≠ right.row.payload ∨
      tqbnTickLegacyCorroboratedPayloadSkewNs < skewNs left.row right.row then none
  else
    let candidate := if left.order < right.order then left else right
    let peer := if left.order < right.order then right else left
    if candidate.row.id = peer.row.id then none
    else if written.any fun other => decide (other.row.id = candidate.row.id ∧
        candidate.order < other.order ∧ other.row.datetime < candidate.row.datetime ∧
        skewNs other.row candidate.row ≤ tqbnTickLegacyIdReplaySkewNs ∧
        other.row.payload ≠ candidate.row.payload) then
      some candidate.order
    else none

/-- `same_timestamp_overlay_orders`: all but the last written of every time. -/
def sameTimestampOverlayOrders (written : List WrittenTick) : List Nat :=
  (written.filter fun row => written.any fun other =>
    decide (other.row.datetime = row.row.datetime ∧ row.order < other.order)).map WrittenTick.order

/-! ## Pages -/

/-- Rows that were written one behind the other under ids one behind the other. -/
def Contiguous (first second third : WrittenTick) : Prop :=
  second.order = first.order + 1 ∧ third.order = second.order + 1 ∧
    second.row.id = I64.saturated (first.row.id + 1) ∧
    third.row.id = I64.saturated (second.row.id + 1)

instance (first second third : WrittenTick) : Decidable (Contiguous first second third) :=
  inferInstanceAs (Decidable (_ ∧ _))

variable (confirmed overlays : List Nat)

/-- A row that is missing between two confirmed overlays. -/
def Gap (stale : List Nat) (first second third : WrittenTick) : Prop :=
  first.order ∈ confirmed ∧ second.order ∉ stale ∧ third.order ∈ confirmed ∧
    first.order ∈ overlays ∧ third.order ∈ overlays ∧ Contiguous first second third ∧
    first.row.datetime < second.row.datetime ∧ second.row.datetime < third.row.datetime ∧
    skewNs first.row second.row ≤ tqbnTickLegacyIdReplaySkewNs ∧
    skewNs second.row third.row ≤ tqbnTickLegacyIdReplaySkewNs

/-- A row in front of two confirmed ones. -/
def LeadingOrphan (first second third : WrittenTick) : Prop :=
  first.order ∉ confirmed ∧ second.order ∈ confirmed ∧ third.order ∈ confirmed ∧
    Contiguous first second third ∧
    first.row.datetime < second.row.datetime ∧ second.row.datetime ≤ third.row.datetime ∧
    skewNs first.row second.row ≤ tqbnTickLegacyIdReplaySkewNs

/-- A row right behind two confirmed overlays. -/
def TailOrphan (stale : List Nat) (first second third : WrittenTick) : Prop :=
  first.order ∈ confirmed ∧ second.order ∈ confirmed ∧ third.order ∉ stale ∧
    first.order ∈ overlays ∧ second.order ∈ overlays ∧ Contiguous first second third ∧
    first.row.datetime < second.row.datetime ∧ second.row.datetime < third.row.datetime ∧
    skewNs first.row second.row ≤ tqbnTickLegacyTimestampSkewNs ∧
    skewNs second.row third.row ≤ tqbnTickLegacyTimestampSkewNs

/-- An overlay in front of two stale rows. -/
def LeadingOverlay (stale : List Nat) (first second third : WrittenTick) : Prop :=
  first.order ∉ stale ∧ second.order ∈ stale ∧ third.order ∈ stale ∧ first.order ∈ overlays ∧
    Contiguous first second third ∧
    first.row.datetime < second.row.datetime ∧ second.row.datetime ≤ third.row.datetime ∧
    skewNs first.row second.row ≤ tqbnTickLegacyIdReplaySkewNs

instance (stale : List Nat) (first second third : WrittenTick) :
    Decidable (Gap confirmed overlays stale first second third) :=
  inferInstanceAs (Decidable (_ ∧ _))

instance (first second third : WrittenTick) :
    Decidable (LeadingOrphan confirmed first second third) := inferInstanceAs (Decidable (_ ∧ _))

instance (stale : List Nat) (first second third : WrittenTick) :
    Decidable (TailOrphan confirmed overlays stale first second third) :=
  inferInstanceAs (Decidable (_ ∧ _))

instance (stale : List Nat) (first second third : WrittenTick) :
    Decidable (LeadingOverlay overlays stale first second third) :=
  inferInstanceAs (Decidable (_ ∧ _))

/-- A loop over windows of three rows that adds a row of each window which meets a condition. -/
def markWindows (marks : List Nat → WrittenTick → WrittenTick → WrittenTick → Bool)
    (marked : WrittenTick → WrittenTick → WrittenTick → Nat)
    (windows : List (WrittenTick × WrittenTick × WrittenTick)) (stale : List Nat) : List Nat :=
  windows.foldl (fun stale (first, second, third) =>
    if marks stale first second third then marked first second third :: stale else stale) stale

/-- One pass of the loop `while extended`. -/
def extendOverlays (windows : List (WrittenTick × WrittenTick × WrittenTick)) (stale : List Nat) :
    List Nat :=
  markWindows (fun stale first second third =>
    decide (LeadingOverlay overlays stale first second third)) (fun first _ _ => first.order)
    windows.reverse stale

/-- The loop, with passes enough for one row each. -/
def extendWhile (windows : List (WrittenTick × WrittenTick × WrittenTick)) :
    Nat → List Nat → List Nat
  | 0, stale => stale
  | passes + 1, stale =>
    let extended := extendOverlays overlays windows stale
    if extended.length = stale.length then stale else extendWhile windows passes extended

/-- The stale rows that their payloads and ids show. -/
def confirmedStaleOrders (written : List WrittenTick) : List Nat :=
  (sameIdReplayOrders written).filter (fun order => decide (order ∈
      (pairs written).filterMap fun (left, right) => payloadReplay left right)) ++
    ((pairs written).filterMap fun (left, right) => outOfOrder left right) ++
    (pairs written).filterMap fun (left, right) => corroborated written left right

/-- The stale rows that pages of confirmed ones show, and these. -/
def staleOrders (written : List WrittenTick) : List Nat :=
  let confirmed := confirmedStaleOrders written
  let byOrder := written.insertionSort fun left right => left.order ≤ right.order
  let windows := triples byOrder
  let overlays := sameTimestampOverlayOrders byOrder
  let stale := markWindows (fun stale first second third =>
    decide (Gap confirmed overlays stale first second third)) (fun _ second _ => second.order)
    windows confirmed
  let stale := markWindows (fun _ first second third =>
    decide (LeadingOrphan confirmed first second third)) (fun first _ _ => first.order)
    windows stale
  let stale := markWindows (fun stale first second third =>
    decide (TailOrphan confirmed overlays stale first second third))
    (fun _ _ third => third.order) windows stale
  extendWhile overlays windows (windows.length + 1) stale

/-- `canonicalize_tick_rows`. -/
def canonicalizeTickRows (rows : List Tick) : List Tick :=
  let written := byPayloadThenTime (lastWritten rows)
  let stale := staleOrders written
  ((written.filter fun row => decide (row.order ∉ stale)).map WrittenTick.row).insertionSort
    fun left right => left.orderKey ≤ right.orderKey

/-! ## The last rows written -/

variable {written : List WrittenTick} {rows : List Tick} {left right : WrittenTick}

theorem mem_numbered {written : WrittenTick} :
    written ∈ numbered rows ↔ rows[written.order]? = some written.row := by
  unfold numbered
  rw [mem_map]
  constructor
  · rintro ⟨ent, mem, rfl⟩
    exact mem_zipIdx_iff_getElem?.mp mem
  · intro hit
    exact ⟨(written.row, written.order), mem_zipIdx_iff_getElem?.mpr hit, rfl⟩

theorem numbered_unique (lMem : left ∈ numbered rows) (rMem : right ∈ numbered rows)
    (same : left.order = right.order) : left = right := by
  have leftRow := mem_numbered.mp lMem
  have rightRow := mem_numbered.mp rMem
  obtain ⟨ord, row⟩ := left
  obtain ⟨alt, otherRow⟩ := right
  obtain rfl : ord = alt := same
  exact congrArg (WrittenTick.mk ord) (Option.some_inj.mp (leftRow.symm.trans rightRow))

theorem numbered_sorted (rows : List Tick) :
    (numbered rows).Pairwise fun left right => left.order < right.order := by
  have ords : (rows.zipIdx.map Prod.snd).Pairwise (· < ·) := by
    rw [zipIdx_map_snd]
    exact pairwise_lt_range'
  exact pairwise_map.mpr (pairwise_map.mp ords)

/-- The map keeps of every key the row written last. -/
theorem mem_foldl_insert_key (srt : written.Pairwise fun left right => left.order < right.order)
    {ent : (Int ×ₗ Int) × WrittenTick} :
    ent ∈ written.foldl (fun map row => OrdMap.insert row.key row map) [] ↔
      ent.1 = ent.2.key ∧ ent.2 ∈ written ∧
        ∀ alt ∈ written, alt.key = ent.2.key → alt.order ≤ ent.2.order := by
  induction written using List.reverseRecOn generalizing ent with
  | nil => simp
  | append_singleton written last ih =>
    obtain ⟨pre, -, lag⟩ := pairwise_append.mp srt
    have map := OrdMap.Sorted.foldl_insert WrittenTick.key written
      (OrdMap.sorted_nil : OrdMap.Sorted ([] : List ((Int ×ₗ Int) × WrittenTick)))
    rw [foldl_append, foldl_cons, foldl_nil, map.mem_insert_iff, ih pre]
    simp only [mem_append, mem_singleton]
    constructor
    · rintro (rfl | ⟨⟨isKey, mem, new⟩, alt⟩)
      · refine ⟨rfl, .inr rfl, fun alt mem same => ?_⟩
        rcases mem with mem | rfl
        · exact (lag alt mem last (mem_singleton_self _)).le
        · exact le_rfl
      · refine ⟨isKey, .inl mem, fun alt2 anotherMem same => ?_⟩
        rcases anotherMem with anotherMem | rfl
        · exact new alt2 anotherMem same
        · exact absurd (isKey.trans same.symm) alt
    · rintro ⟨isKey, mem, new⟩
      by_cases same : ent.1 = last.key
      · have low := new last (.inr rfl) (same.symm.trans isKey)
        have fin : ent.2 = last := by
          refine mem.resolve_left fun prior => ?_
          exact absurd (lag ent.2 prior last (mem_singleton_self _)) (not_lt.mpr low)
        exact .inl (Prod.ext same fin)
      · refine .inr ⟨⟨isKey, mem.resolve_right ?_, fun alt altM => new alt (.inl altM)⟩, same⟩
        rintro fin
        exact same (by rw [isKey, fin])

theorem mem_lastWritten {written : WrittenTick} :
    written ∈ lastWritten rows ↔ written ∈ numbered rows ∧
      ∀ alt ∈ numbered rows, alt.key = written.key → alt.order ≤ written.order := by
  unfold lastWritten
  rw [mem_insertionSort, mem_map]
  constructor
  · rintro ⟨ent, mem, rfl⟩
    exact ((mem_foldl_insert_key (numbered_sorted rows)).mp mem).2
  · intro last
    exact ⟨(written.key, written), (mem_foldl_insert_key (numbered_sorted rows)).mpr ⟨rfl, last⟩, rfl⟩

theorem lastWritten_unique (lMem : left ∈ lastWritten rows) (rMem : right ∈ lastWritten rows)
    (same : left.key = right.key) : left = right := by
  obtain ⟨leftNumbered, leftLast⟩ := mem_lastWritten.mp lMem
  obtain ⟨rightNumbered, rightLast⟩ := mem_lastWritten.mp rMem
  exact numbered_unique leftNumbered rightNumbered
    (le_antisymm (rightLast left leftNumbered same) (leftLast right rightNumbered same.symm))

theorem lastWritten_sorted (rows : List Tick) :
    (lastWritten rows).Pairwise fun left right => left.order < right.order := by
  have map := OrdMap.Sorted.foldl_insert WrittenTick.key (numbered rows)
    (OrdMap.sorted_nil : OrdMap.Sorted ([] : List ((Int ×ₗ Int) × WrittenTick)))
  refine pairwise_insertionSort (pairwise_map.mpr (map.imp_of_mem ?_))
  intro left right lMem rMem less same
  obtain ⟨leftKey, leftNumbered, -⟩ := (mem_foldl_insert_key (numbered_sorted rows)).mp lMem
  obtain ⟨rightKey, rightNumbered, -⟩ := (mem_foldl_insert_key (numbered_sorted rows)).mp rMem
  rw [leftKey, rightKey, numbered_unique leftNumbered rightNumbered same] at less
  exact lt_irrefl _ less

/-! ## Orders of keys -/

namespace WrittenTick

variable {left right : WrittenTick}

theorem replayKey_lt : left.replayKey < right.replayKey ↔
    left.row.id < right.row.id ∨ (left.row.id = right.row.id ∧
      (left.row.datetime < right.row.datetime ∨
        (left.row.datetime = right.row.datetime ∧ left.order < right.order))) := by
  unfold replayKey
  rw [Prod.Lex.toLex_lt_toLex, Prod.Lex.toLex_lt_toLex]

theorem order_of_replayKey (same : left.replayKey = right.replayKey) : left.order = right.order :=
  (Prod.mk.inj (toLex.injective (Prod.mk.inj (toLex.injective same)).2)).2

/-- Between rows of one id there are only rows of that id. -/
theorem replayKey_between {between : WrittenTick} (same : left.row.id = right.row.id)
    (post : left.replayKey ≤ between.replayKey) (pre : between.replayKey ≤ right.replayKey) :
    between.row.id = left.row.id ∧ left.row.datetime ≤ between.row.datetime ∧
      between.row.datetime ≤ right.row.datetime := by
  unfold replayKey at post pre
  rw [Prod.Lex.toLex_le_toLex, Prod.Lex.toLex_le_toLex] at post pre
  omega

theorem order_of_payloadKey (same : left.payloadKey = right.payloadKey) :
    left.order = right.order :=
  (Prod.mk.inj (toLex.injective (Prod.mk.inj (toLex.injective same)).2)).2

theorem payloadKey_lt (same : left.row.payload = right.row.payload) :
    left.payloadKey < right.payloadKey ↔ left.row.datetime < right.row.datetime ∨
      (left.row.datetime = right.row.datetime ∧ left.order < right.order) := by
  unfold payloadKey
  rw [Prod.Lex.toLex_lt_toLex, Prod.Lex.toLex_lt_toLex, same]
  exact ⟨fun less => (less.resolve_left (lt_irrefl _)).2, fun less => .inr ⟨rfl, less⟩⟩

/-- Between rows of one payload there are only rows of that payload. -/
theorem payload_of_between {left between right : WrittenTick}
    (same : left.row.payload = right.row.payload) (post : left.payloadKey < between.payloadKey)
    (pre : between.payloadKey ≤ right.payloadKey) : between.row.payload = left.row.payload := by
  have lower : left.row.payload ≤ between.row.payload := by
    unfold payloadKey at post
    rcases Prod.Lex.toLex_lt_toLex.mp post with less | same
    · exact less.le
    · exact same.1.le
  have upper : between.row.payload ≤ right.row.payload := by
    unfold payloadKey at pre
    rcases Prod.Lex.toLex_le_toLex.mp pre with less | same
    · exact less.le
    · exact same.1.le
  exact le_antisymm (upper.trans same.ge) lower

end WrittenTick

/-- Rows of which none was written at the order of another. -/
def Ordered (written : List WrittenTick) : Prop :=
  written.Pairwise fun left right => left.order ≠ right.order

theorem Ordered.unique (ord : Ordered written) (lMem : left ∈ written)
    (rMem : right ∈ written) (same : left.order = right.order) : left = right := by
  have symmetric : Std.Symm fun left right : WrittenTick => left.order ≠ right.order :=
    ⟨fun _ _ ne => Ne.symm ne⟩
  by_contra ne
  exact ord.forall lMem rMem ne same

theorem ordered_of_sorted (srt : written.Pairwise fun left right => left.order < right.order) :
    Ordered written :=
  srt.imp fun less => less.ne

theorem Ordered.byPayloadThenTime (ord : Ordered written) :
    Ordered (byPayloadThenTime written) ∧
      (Tqsdk.byPayloadThenTime written).Pairwise fun left right =>
        left.payloadKey < right.payloadKey := by
  exact ⟨(perm_insertionSort _ _).symm.pairwise ord fun ne => Ne.symm ne,
    pairwise_insertionSort (ord.imp fun ne same => ne (WrittenTick.order_of_payloadKey same))⟩

@[simp]
theorem mem_byPayloadThenTime {row : WrittenTick} :
    row ∈ byPayloadThenTime written ↔ row ∈ written := mem_insertionSort _

theorem skewNs_le_iff {left right : Tick} {bd : Int} (inR : I64.minimum ≤ bd ∧ bd < I64.maximum) :
    skewNs left right ≤ bd ↔ right.datetime - left.datetime ≤ bd :=
  I64.saturated_le_iff inR.1 inR.2

theorem skewNs_eq_zero {left right : Tick} :
    skewNs left right = 0 ↔ right.datetime = left.datetime := by
  unfold skewNs I64.saturated I64.minimum I64.maximum
  omega

end Tqsdk
