import Tqsdk.Relay.CacheAdmission

/-!
# The ring and the quote of a symbol

The ring holds the rows of the epoch with the largest ids, each as it was pushed last.  The cached
quote is the row pushed last, which is the last of the ring unless the row came late.
-/

namespace Tqsdk

open List

/-- `quoteDatetime` stands for `quote_datetime_from_tick_ns`. -/
def projectQuote (quoteDatetime : Int → String) (symbol : String) (row : RelayTickRow) :
    RelayQuote :=
  ⟨symbol, quoteDatetime row.datetime, row.lastPrice, row.volume, row.openInterest⟩

def CachedQuote.quote (quoteDatetime : Int → String) (symbol : String) : CachedQuote → RelayQuote
  | .direct quote => quote
  | .tick row => projectQuote quoteDatetime symbol row

namespace MarketCache

variable (quoteDatetime : Int → String)

def quoteRef (cache : MarketCache) (symbol : String) : Option RelayQuote :=
  (cache.quote? symbol).map (CachedQuote.quote quoteDatetime symbol)

def ringOf (cache : MarketCache) (symbol : String) : List RelayTickRow :=
  (cache.tickRing symbol).getD []

/-- The cache after a push, with the rows since the last id restart. -/
def pushEpoch (symbol : String) (state : MarketCache × List RelayTickRow) (row : RelayTickRow) :
    MarketCache × List RelayTickRow :=
  ((state.1.pushTick symbol row).1,
    if startsEpoch (state.1.ringOf symbol) row then [row] else state.2 ++ [row])

def pushAll (cache : MarketCache) (symbol : String) (rows : List RelayTickRow) :
    MarketCache × List RelayTickRow :=
  rows.foldl (pushEpoch symbol) (cache, [])

/-- A late row, which neither reaches the last id nor restarts the ids, projects to the quote of
the last row. -/
def Fresh (symbol : String) (ring : List RelayTickRow) (row : RelayTickRow) : Prop :=
  ∀ last, ring.getLast? = some last → row.id < last.id → row.datetime ≤ last.datetime →
    projectQuote quoteDatetime symbol row = projectQuote quoteDatetime symbol last

/-! ## The last row -/

variable {ring : List RelayTickRow} {row : RelayTickRow} {capacity : Nat}

theorem insertRow_before_last {last : RelayTickRow} (less : row.id < last.id) :
    ∃ init, insertRow row (ring ++ [last]) = init ++ [last] := by
  induction ring with
  | nil => exact ⟨[row], by rw [nil_append, insertRow, if_neg (by omega), if_neg (by omega)]; rfl⟩
  | cons first ring ih =>
    obtain ⟨init, isInit⟩ := ih
    rw [cons_append, insertRow]
    split_ifs
    · exact ⟨first :: init, by rw [isInit, cons_append]⟩
    · exact ⟨row :: ring, rfl⟩
    · exact ⟨row :: first :: ring, rfl⟩

/-- Only a late row is not the last of the ring afterwards. -/
theorem getLast?_pushRow (ascending : Ascends ring) (pos : 0 < capacity) :
    (pushRow capacity ring row).getLast? =
      match ring.getLast? with
      | none => some row
      | some last =>
        if row.id < last.id ∧ row.datetime ≤ last.datetime then some last else some row := by
  have kept : ∀ rows : List RelayTickRow, rows ≠ [] →
      (trimRing capacity rows).getLast? = rows.getLast? := by
    intro rows full
    have := length_pos_of_ne_nil full
    rw [trimRing, getLast?_drop, if_neg (by omega)]
  have full : ∀ rows : List RelayTickRow, insertRow row rows ≠ [] := by
    intro rows
    cases rows with
    | nil => simp [insertRow]
    | cons first rows =>
      unfold insertRow
      split_ifs <;> simp
  have new : (insertRow row []).getLast? = some row := rfl
  rw [pushRow]
  cases isLast : ring.getLast? with
  | none =>
    rw [getLast?_eq_none_iff.mp isLast]
    exact (kept _ (full [])).trans new
  | some last =>
    obtain ⟨init, rfl⟩ := getLast?_eq_some_iff.mp isLast
    have begs : startsEpoch (init ++ [last]) row =
        decide (row.id ≤ last.id ∧ last.datetime < row.datetime) := by
      rw [startsEpoch, isLast, Option.any_some]
    rw [begs]
    dsimp only
    by_cases restart : row.id ≤ last.id ∧ last.datetime < row.datetime
    · rw [if_pos (decide_eq_true restart), if_neg (by omega)]
      exact (kept _ (full [])).trans new
    · rw [if_neg (by simpa using restart), ascending.placeTick row, kept _ (full _)]
      have less : ∀ old ∈ init, old.id < last.id := fun old mem =>
        (pairwise_append.mp ascending).2.2 old mem last mem_cons_self
      split_ifs with late
      · obtain ⟨init', isInit⟩ := @insertRow_before_last init row last late.1
        rw [isInit, getLast?_concat]
      · rcases lt_or_eq_of_le (show last.id ≤ row.id by omega) with grows | again
        · rw [insertRow_append fun old mem => (less old mem).trans grows, MarketCache.insertRow,
            if_pos grows]
          simp [MarketCache.insertRow]
        · rw [insertRow_append fun old mem => again ▸ less old mem, MarketCache.insertRow,
            if_neg (by omega), if_pos again, getLast?_concat]

/-! ## Pushing rows of one symbol -/

/-- A cache that only holds the symbol, whose entry fits. -/
structure Holds (cache : MarketCache) (symbol : String) : Prop where
  accounted : cache.Accounted
  only : ∀ other ∈ cache.lru, other = symbol
  room : 0 < cache.limits.maxSymbols
  capacity : 0 < cache.tickCapacity
  fits : cache.entryReservationFor symbol true ≤ cache.limits.maxRetainedBytes

theorem Holds.pushTick {c : MarketCache} {symbol : String} (holds : c.Holds symbol)
    (row : RelayTickRow) : (c.pushTick symbol row).1.Holds symbol ∧
      (c.pushTick symbol row).1.tickCapacity = c.tickCapacity ∧
      (c.pushTick symbol row).1.ringOf symbol = pushRow c.tickCapacity (c.ringOf symbol) row ∧
      (c.pushTick symbol row).1.quote? symbol = some (.tick row) := by
  have alone : c.lru.filter (· ≠ symbol) = [] :=
    filter_eq_nil_iff.mpr fun other mem => by simpa using holds.only other mem
  have retained : c.retainedBytes = (c.admission symbol true).previous := by
    rw [holds.accounted.retained, reserved_filter holds.accounted.distinct symbol, alone, admission]
    simp only [List.contains_iff_mem]
    rfl
  have unsaturated : c.retainedBytes - (c.admission symbol true).previous +
      c.entryReservationFor symbol true ≤ usizeMax := by
    rw [retained, Nat.sub_self, Nat.zero_add]
    exact min_le_left _ _
  have fits : ¬ c.limits.maxRetainedBytes < c.needs (.tick symbol row) := not_lt.mpr holds.fits
  obtain ⟨victims, kept, post, written, isAfter, symbolsFit, bytesFit, -⟩ :=
    @Accounted.written c holds.accounted (.tick symbol row) holds.room fits unsaturated
  have nothing : victims = [] ∧ kept = [] := append_eq_nil_iff.mp (written.others.symm.trans alone)
  have ring := written.rings symbol
  have quote := written.quotes symbol
  rw [CacheWrite.symbol, if_pos rfl] at ring quote
  rw [show c.pushTick symbol row = _ from isAfter]
  refine ⟨⟨written.accounted_post holds.accounted symbolsFit bytesFit, fun other mem => ?_,
    written.limits ▸ holds.room, written.capacity ▸ holds.capacity, ?_⟩,
    written.capacity, congrArg (Option.getD · []) ring, quote⟩
  · rw [written.lru, nothing.2] at mem
    exact mem_singleton.mp mem
  · have fits := holds.fits
    rw [← written.limits] at fits
    unfold entryReservationFor at fits ⊢
    rwa [← written.sizes, ← written.capacity] at fits

/-- The ring is what is left of the epoch. -/
theorem Holds.pushAll {c : MarketCache} {symbol : String} (holds : c.Holds symbol)
    (rows : List RelayTickRow) {epoch : List RelayTickRow}
    (isRing : c.ringOf symbol = trimRing c.tickCapacity (contents epoch)) :
    (rows.foldl (pushEpoch symbol) (c, epoch)).1.Holds symbol ∧
      (rows.foldl (pushEpoch symbol) (c, epoch)).1.tickCapacity = c.tickCapacity ∧
      (rows.foldl (pushEpoch symbol) (c, epoch)).1.ringOf symbol =
        trimRing c.tickCapacity
          (contents (rows.foldl (pushEpoch symbol) (c, epoch)).2) := by
  induction rows generalizing c epoch with
  | nil => exact ⟨holds, rfl, isRing⟩
  | cons row rows ih =>
    obtain ⟨post, capacity, ring, -⟩ := holds.pushTick row
    have step : (pushEpoch symbol (c, epoch) row).1.ringOf symbol =
        trimRing (c.pushTick symbol row).1.tickCapacity
          (contents (pushEpoch symbol (c, epoch) row).2) := by
      dsimp only [pushEpoch]
      rw [ring, capacity]
      cases begs : startsEpoch (c.ringOf symbol) row with
      | true =>
        rw [pushRow, begs, if_pos rfl, if_pos rfl]
        rfl
      | false => exact pushRow_contents (ascends_contents epoch) isRing begs
    obtain ⟨holds', capacity', ring'⟩ := ih post step
    exact ⟨holds', capacity'.trans capacity, by rw [← capacity]; exact ring'⟩

variable {quoteDatetime} {symbol : String}

/-- After a push the quote is that of the last row of the ring when the row was fresh. -/
theorem Holds.quoteRef_iff {c : MarketCache} (holds : c.Holds symbol)
    (ascending : Ascends (c.ringOf symbol)) (row : RelayTickRow) :
    (c.pushTick symbol row).1.quoteRef quoteDatetime symbol =
        ((c.pushTick symbol row).1.ringOf symbol).getLast?.map (projectQuote quoteDatetime symbol) ↔
      Fresh quoteDatetime symbol (c.ringOf symbol) row := by
  obtain ⟨-, -, ring, q⟩ := holds.pushTick row
  rw [ring, getLast?_pushRow ascending holds.capacity, quoteRef, q, Fresh]
  cases (c.ringOf symbol).getLast? with
  | none => simp [CachedQuote.quote]
  | some last =>
    dsimp only
    split_ifs with late
    · simp [CachedQuote.quote, late]
    · refine iff_of_true rfl fun other same less early => ?_
      cases same
      exact absurd ⟨less, early⟩ late

theorem holds_withLimits {sizes : EntrySizes} {tickCapacity klineCapacity : Nat}
    {limits : MarketCacheLimits}
    (accepted : (withLimits sizes tickCapacity klineCapacity limits).Accepted)
    (fits : entryReservation sizes tickCapacity symbol true ≤ limits.maxRetainedBytes) :
    (withLimits sizes tickCapacity klineCapacity limits).Holds symbol :=
  ⟨accounted_withLimits _ _ _ _, fun _ => nofun, accepted.2.2.1, accepted.1, fits⟩

variable (quoteDatetime symbol) in
/-- The ring holds the rows of the epoch with the largest ids, and the quote is that of its last
row exactly after a fresh row. -/
theorem quote_is_last_iff (sizes : EntrySizes) (tickCapacity klineCapacity : Nat)
    (limits : MarketCacheLimits)
    (accepted : (withLimits sizes tickCapacity klineCapacity limits).Accepted)
    (fits : entryReservation sizes tickCapacity symbol true ≤ limits.maxRetainedBytes)
    (rows : List RelayTickRow) (row : RelayTickRow) :
    let before := (withLimits sizes tickCapacity klineCapacity limits).pushAll symbol rows
    let after := (withLimits sizes tickCapacity klineCapacity limits).pushAll symbol (rows ++ [row])
    (after.1.ringOf symbol).length ≤ tickCapacity ∧ Ascends (after.1.ringOf symbol) ∧
      after.1.ringOf symbol = trimRing tickCapacity (contents after.2) ∧
      (∀ held, held ∈ contents after.2 ↔
        (after.2.filter fun old => old.id = held.id).getLast? = some held) ∧
      (after.1.quoteRef quoteDatetime symbol =
          (after.1.ringOf symbol).getLast?.map (projectQuote quoteDatetime symbol) ↔
        Fresh quoteDatetime symbol (before.1.ringOf symbol) row) := by
  intro before after
  have holds := @holds_withLimits symbol sizes tickCapacity klineCapacity limits accepted fits
  have fresh : (withLimits sizes tickCapacity klineCapacity limits).ringOf symbol =
      trimRing tickCapacity (contents []) := drop_nil.symm
  obtain ⟨held, -, isRing⟩ := holds.pushAll rows fresh
  have isRing' : after.1.ringOf symbol = trimRing tickCapacity (contents after.2) :=
    (holds.pushAll (rows ++ [row]) fresh).2.2
  have ascends : ∀ epoch, Ascends (trimRing tickCapacity (contents epoch)) := fun epoch =>
    (ascends_contents epoch).sublist (drop_sublist _ _)
  have last : after.1 = (before.1.pushTick symbol row).1 :=
    congrArg Prod.fst (foldl_concat _ _ _ _)
  refine ⟨?_, ?_, isRing', fun _ => mem_contents _, ?_⟩
  · rw [isRing', trimRing, length_drop]
    omega
  · rw [isRing']
    exact ascends _
  · rw [last]
    exact held.quoteRef_iff (isRing ▸ ascends _) row

/-- Row 1 again, with row 2 in the ring, moves the quote back to the older price. -/
theorem late_tick_moves_quote :
    let cache := withLimits ⟨24, 320, 32, 48⟩ 64 64 ⟨512, usizeMax⟩
    let rows : List RelayTickRow :=
      [⟨1, 1, F64.finite 610, 10, 100⟩, ⟨2, 2, F64.finite 612, 20, 200⟩]
    let after := (cache.pushAll "SHFE.au2602" (rows ++ rows.take 1)).1
    cache.Accepted ∧ after.ringOf "SHFE.au2602" = rows ∧
      after.quoteRef toString "SHFE.au2602" =
        rows.head?.map (projectQuote toString "SHFE.au2602") ∧
      after.quoteRef toString "SHFE.au2602" ≠
        (after.ringOf "SHFE.au2602").getLast?.map (projectQuote toString "SHFE.au2602") := by
  refine ⟨⟨by decide, by decide, by decide, by decide, min_le_left _ _⟩, ?_, ?_, ?_⟩ <;>
    decide +kernel

/-- A late row in a full ring, of the datetime and the price of the last one, leaves the quote where
it was. -/
theorem quote_is_last_repeated :
    let cache := withLimits ⟨24, 320, 32, 48⟩ 2 64 ⟨512, usizeMax⟩
    let rows : List RelayTickRow :=
      [⟨1, 1, F64.finite 610, 10, 100⟩, ⟨2, 2, F64.finite 612, 20, 200⟩,
        ⟨3, 2, F64.finite 612, 20, 200⟩]
    let after := (cache.pushAll "SHFE.au2602" (rows ++ [⟨2, 2, F64.finite 612, 20, 200⟩])).1
    after.ringOf "SHFE.au2602" = rows.drop 1 ∧
      after.quoteRef toString "SHFE.au2602" =
        (after.ringOf "SHFE.au2602").getLast?.map (projectQuote toString "SHFE.au2602") := by
  intro cache rows after
  have ring : ((cache.pushAll "SHFE.au2602" rows).1.ringOf "SHFE.au2602").getLast? =
      some ⟨3, 2, F64.finite 612, 20, 200⟩ := by decide +kernel
  refine ⟨by decide +kernel, (quote_is_last_iff toString "SHFE.au2602" ⟨24, 320, 32, 48⟩ 2 64
    ⟨512, usizeMax⟩ ⟨by decide, by decide, by decide, by decide, min_le_left _ _⟩
    (min_le_left _ _) rows ⟨2, 2, F64.finite 612, 20, 200⟩).2.2.2.2.mpr ?_⟩
  intro last isLast _ _
  cases ring.symm.trans isLast
  rfl

end MarketCache

end Tqsdk
