import Mathlib.Data.List.Dedup
import Tqsdk.Relay.TickRows

/-!
# The admission of the market cache

A write first asks for room.  It takes its own symbol out of the list and evicts symbols from the
front, those written least recently, until both the number of symbols and the reserved bytes fit;
then the symbol is listed last.  The reserved bytes are kept by adding and taking away: an eviction
gives back what the symbol reserves at that moment, and a symbol that gains its first tick reserves
a ring as well.

* `Accounted` is the invariant: the list has no repetitions and names the symbols with a quote, the
  symbols with a ring are among them, the ids of every ring grow, and the reserved bytes are the sum
  of what the listed symbols reserve, within both limits.
* `Stores` is what a write leaves that is not refused: the victims, each of them needed, the quote
  and the row in its ring, and every other symbol as it was.
* `Written` says the same map by map, with the functions of the cache.

`run_admits` puts them together over every run of ticks and quotes.
-/

namespace Tqsdk

open List OrdMap

namespace MarketCache

inductive CacheWrite
  | tick (symbol : String) (row : RelayTickRow)
  | quote (symbol : String) (quote : RelayQuote)

namespace CacheWrite

def symbol : CacheWrite → String
  | .tick symbol _ => symbol
  | .quote symbol _ => symbol

/-- The symbol has a ring after the write. -/
def hasTick (cache : MarketCache) : CacheWrite → Bool
  | .tick _ _ => true
  | .quote symbol _ => cache.hasTicks symbol

def cached : CacheWrite → CachedQuote
  | .tick _ row => .tick row
  | .quote symbol sent => .direct (relayQuoteProjection symbol sent)

def ring (cache : MarketCache) : CacheWrite → Option (List RelayTickRow)
  | .tick symbol row => some (pushRow cache.tickCapacity ((cache.tickRing symbol).getD []) row)
  | .quote symbol _ => cache.tickRing symbol

/-- A tick is in the ring of its symbol afterwards, beside the rows that were there; a quote leaves
the ring as it was. -/
def Places (cache after : MarketCache) : CacheWrite → Prop
  | .tick symbol row => ∃ ring, after.tickRing symbol = some ring ∧
      PlacesRow cache.tickCapacity ((cache.tickRing symbol).getD []) row ring
  | .quote symbol _ => after.tickRing symbol = cache.tickRing symbol

end CacheWrite

section

variable (cache : MarketCache)

def write : CacheWrite → MarketCache × MarketCacheWriteReport
  | .tick symbol row => cache.pushTick symbol row
  | .quote symbol quote => cache.pushQuote symbol quote

def run (writes : List CacheWrite) : MarketCache :=
  writes.foldl (fun cache write => (cache.write write).1) cache

/-- The bytes that the entries of the symbols reserve. -/
def reserved (symbols : List String) : Nat :=
  (symbols.map fun symbol => cache.entryReservationFor symbol (cache.hasTicks symbol)).sum

def needs (write : CacheWrite) : Nat := cache.entryReservationFor write.symbol (write.hasTick cache)

/-- The limits are those that `with_limits` asserts: nothing is zero, and one entry fits. -/
def Accepted : Prop :=
  0 < cache.tickCapacity ∧ 0 < cache.klineCapacity ∧ 0 < cache.limits.maxSymbols ∧
    0 < cache.limits.maxRetainedBytes ∧
    cache.entryReservationFor "" true ≤ cache.limits.maxRetainedBytes

/-- The bytes to retain add up without saturating. -/
def Unsaturated : List CacheWrite → MarketCache → Prop
  | [], _ => True
  | write :: writes, cache =>
    cache.retainedBytes - (cache.admission write.symbol (write.hasTick cache)).previous +
        cache.needs write ≤ usizeMax ∧
      Unsaturated writes (cache.write write).1

/-- The list of symbols, the maps and the reserved bytes agree, and the limits hold. -/
structure Accounted : Prop where
  distinct : cache.lru.Nodup
  listed : ∀ symbol, symbol ∈ cache.lru ↔ (cache.quote? symbol).isSome
  ringed : ∀ symbol, cache.hasTicks symbol → symbol ∈ cache.lru
  ascends : ∀ symbol ring, cache.tickRing symbol = some ring → Ascends ring
  retained : cache.retainedBytes = cache.reserved cache.lru
  symbolsBound : cache.lru.length ≤ cache.limits.maxSymbols
  bytesBound : cache.retainedBytes ≤ cache.limits.maxRetainedBytes

/-- The write is stored and evicts `victims`, the symbols written least recently, each of them
needed. -/
structure Stores (write : CacheWrite) (after : MarketCache × MarketCacheWriteReport)
    (victims kept : List String) : Prop where
  others : cache.lru.filter (· ≠ write.symbol) = victims ++ kept
  lru : after.1.lru = kept ++ [write.symbol]
  report : after.2 = ⟨true, victims.length, after.1.retainedBytes⟩
  quote : after.1.quote? write.symbol = some write.cached
  places : write.Places cache after.1
  rest : ∀ symbol, symbol ≠ write.symbol → symbol ∉ victims →
    after.1.quote? symbol = cache.quote? symbol ∧ after.1.tickRing symbol = cache.tickRing symbol
  evicted : ∀ symbol ∈ victims,
    after.1.quote? symbol = none ∧ after.1.tickRing symbol = none
  needed : ∀ fewer < victims.length,
    cache.limits.maxSymbols < ((victims ++ kept).drop fewer).length + 1 ∨
      cache.limits.maxRetainedBytes <
        cache.reserved ((victims ++ kept).drop fewer) + cache.needs write

/-- A write that alone exceeds the limit changes nothing; any other is stored. -/
def Admits (write : CacheWrite) (after : MarketCache × MarketCacheWriteReport) : Prop :=
  if cache.limits.maxRetainedBytes < cache.needs write then
    after = (cache, ⟨false, 0, cache.retainedBytes⟩)
  else ∃ victims kept, cache.Stores write after victims kept

/-- The symbols whose writes are stored, the last one last. -/
def stored : List CacheWrite → MarketCache → List String
  | [], _ => []
  | write :: writes, cache =>
    (if cache.limits.maxRetainedBytes < cache.needs write then [] else [write.symbol]) ++
      stored writes (cache.write write).1

end

/-! ## Evictions -/

variable {cache : MarketCache}

section

variable (victim symbol : String)

theorem quote?_evictSymbol : (cache.evictSymbol victim).quote? symbol =
    if symbol = victim then none else cache.quote? symbol := by
  unfold evictSymbol
  split
  · rename_i absent
    rw [Bool.and_eq_true] at absent
    split
    · rename_i same
      rw [same]
      exact Option.isNone_iff_eq_none.mp absent.2
    · rfl
  · exact get?_erase _ _ _

theorem tickRing_evictSymbol : (cache.evictSymbol victim).tickRing symbol =
    if symbol = victim then none else cache.tickRing symbol := by
  unfold evictSymbol
  split
  · rename_i absent
    rw [Bool.and_eq_true, Bool.not_eq_true'] at absent
    split
    · rename_i same
      rw [same]
      exact Option.isNone_iff_eq_none.mp (Option.isSome_eq_false_iff.mp absent.1)
    · rfl
  · exact get?_erase _ _ _

end

theorem evictSymbol_frame (victim : String) : (cache.evictSymbol victim).sizes = cache.sizes ∧
    (cache.evictSymbol victim).tickCapacity = cache.tickCapacity ∧
    (cache.evictSymbol victim).limits = cache.limits := by
  unfold evictSymbol
  split <;> exact ⟨rfl, rfl, rfl⟩

theorem reservation_evictSymbol {victim symbol : String} (ne : symbol ≠ victim) :
    (cache.evictSymbol victim).entryReservationFor symbol
        ((cache.evictSymbol victim).hasTicks symbol) =
    cache.entryReservationFor symbol (cache.hasTicks symbol) := by
  obtain ⟨sizes, capacity, -⟩ := @evictSymbol_frame cache victim
  have ring := @tickRing_evictSymbol cache victim symbol
  rw [if_neg ne] at ring
  unfold entryReservationFor hasTicks
  rw [sizes, capacity]
  exact congrArg (entryReservation _ _ _) (congrArg Option.isSome ring)

theorem reserved_evictSymbol {victim : String} {symbols : List String} (absent : victim ∉ symbols) :
    (cache.evictSymbol victim).reserved symbols = cache.reserved symbols :=
  congrArg List.sum (map_congr_left fun _ mem =>
    reservation_evictSymbol fun same => absent (same ▸ mem))

theorem retained_evictSymbol {victim : String} (held : (cache.quote? victim).isSome) :
    (cache.evictSymbol victim).retainedBytes =
      cache.retainedBytes - cache.entryReservationFor victim (cache.hasTicks victim) := by
  unfold evictSymbol
  rw [if_neg]
  rw [Bool.and_eq_true, Option.isNone_iff_eq_none]
  exact fun both => Option.isSome_iff_ne_none.mp held both.2

/-- The loop stops with the first suffix of the others that leaves room. -/
theorem makeRoom_spec {w : Admission} {others : List String} (nodup : others.Nodup)
    (held : ∀ symbol ∈ others, (cache.quote? symbol).isSome)
    (retained : cache.retainedBytes = w.previous + cache.reserved others)
    (unsaturated : cache.reserved others + w.next ≤ usizeMax)
    (fits : w.next ≤ cache.limits.maxRetainedBytes) (room : 0 < cache.limits.maxSymbols)
    (gone : Nat) : ∃ victims kept, others = victims ++ kept ∧
      w.makeRoom others cache gone =
        ({ victims.foldl evictSymbol cache with
            retainedBytes := cache.reserved kept + w.next
            lru := kept ++ [w.symbol] },
          ⟨true, gone + victims.length, cache.reserved kept + w.next⟩) ∧
      kept.length + w.isNew.toNat ≤ cache.limits.maxSymbols ∧
      cache.reserved kept + w.next ≤ cache.limits.maxRetainedBytes ∧
      ∀ fewer < victims.length,
        cache.limits.maxSymbols < (others.drop fewer).length + w.isNew.toNat ∨
          cache.limits.maxRetainedBytes < cache.reserved (others.drop fewer) + w.next := by
  have total : w.retained cache = cache.reserved others + w.next := by
    unfold Admission.retained
    rw [retained, Nat.add_sub_cancel_left, min_eq_right unsaturated]
  have crowded : w.crowded cache others = true ↔
      cache.limits.maxSymbols < others.length + w.isNew.toNat ∨
        cache.limits.maxRetainedBytes < cache.reserved others + w.next := by
    rw [Admission.crowded, Bool.or_eq_true, decide_eq_true_eq, decide_eq_true_eq, total]
  induction others generalizing cache gone with
  | nil =>
    have empty : cache.reserved [] = 0 := rfl
    have free : ¬ w.crowded cache [] = true := by
      rw [crowded, empty]
      have := Bool.toNat_le w.isNew
      simp only [length_nil]
      omega
    refine ⟨[], [], rfl, ?_, ?_, ?_, nofun⟩
    · rw [Admission.makeRoom, if_neg free, Admission.admitWrite, total]
      rfl
    · rw [crowded] at free
      omega
    · rw [crowded] at free
      omega
  | cons victim others ih =>
    by_cases full : w.crowded cache (victim :: others) = true
    · rw [nodup_cons] at nodup
      have split : cache.reserved (victim :: others) =
          cache.entryReservationFor victim (cache.hasTicks victim) + cache.reserved others := rfl
      have same : ∀ symbols : List String, symbols ⊆ others →
          (cache.evictSymbol victim).reserved symbols = cache.reserved symbols :=
        fun symbols inside => reserved_evictSymbol fun mem => nodup.1 (inside mem)
      have all := same others (Subset.refl _)
      have retained' : (cache.evictSymbol victim).retainedBytes =
          w.previous + (cache.evictSymbol victim).reserved others := by
        rw [retained_evictSymbol (held victim mem_cons_self), all]
        omega
      have total' : w.retained (cache.evictSymbol victim) =
          (cache.evictSymbol victim).reserved others + w.next := by
        unfold Admission.retained
        rw [retained', Nat.add_sub_cancel_left, min_eq_right (by omega)]
      obtain ⟨-, -, limits⟩ := @evictSymbol_frame cache victim
      obtain ⟨victims, kept, isSplit, res, symbolsFit, bytesFit, needed⟩ := ih nodup.2
        (fun symbol mem => by
          have ne : symbol ≠ victim := fun same => nodup.1 (same ▸ mem)
          rw [quote?_evictSymbol, if_neg ne]
          exact held symbol (mem_cons_of_mem _ mem))
        retained' (by omega) (limits ▸ fits) (limits ▸ room) (gone + 1) total' (by
          rw [Admission.crowded, Bool.or_eq_true, decide_eq_true_eq, decide_eq_true_eq, total'])
      rw [limits] at symbolsFit bytesFit needed
      rw [same kept (isSplit ▸ subset_append_right _ _)] at res bytesFit
      refine ⟨victim :: victims, kept, by rw [isSplit]; rfl, ?_, symbolsFit, bytesFit, ?_⟩
      · rw [Admission.makeRoom, if_pos full, res, foldl_cons, length_cons, Nat.add_assoc,
          Nat.add_comm 1]
      · intro fewer few
        cases fewer with
        | zero => exact crowded.mp full
        | succ fewer =>
          have := needed fewer (by simpa using few)
          rwa [same _ (drop_subset _ _)] at this
    · refine ⟨[], victim :: others, rfl, ?_, ?_, ?_, nofun⟩
      · rw [Admission.makeRoom, if_neg full, Admission.admitWrite, total]
        rfl
      · rw [crowded] at full
        omega
      · rw [crowded] at full
        omega

/-- After the evictions the victims have neither quote nor ring, and nothing else changed. -/
theorem foldl_evictSymbol (victims : List String) (symbol : String) :
    (victims.foldl evictSymbol cache).quote? symbol =
        (if symbol ∈ victims then none else cache.quote? symbol) ∧
      (victims.foldl evictSymbol cache).tickRing symbol =
        (if symbol ∈ victims then none else cache.tickRing symbol) ∧
      (victims.foldl evictSymbol cache).sizes = cache.sizes ∧
      (victims.foldl evictSymbol cache).tickCapacity = cache.tickCapacity ∧
      (victims.foldl evictSymbol cache).limits = cache.limits := by
  induction victims generalizing cache with
  | nil => exact ⟨rfl, rfl, rfl, rfl, rfl⟩
  | cons victim victims ih =>
    obtain ⟨qs, rings, sizes, capacity, limits⟩ := @ih (cache.evictSymbol victim)
    obtain ⟨sizes', capacity', limits'⟩ := @evictSymbol_frame cache victim
    rw [foldl_cons, qs, rings, quote?_evictSymbol, tickRing_evictSymbol]
    refine ⟨?_, ?_, sizes.trans sizes', capacity.trans capacity', limits.trans limits'⟩ <;>
    · simp only [mem_cons]
      split_ifs <;> simp_all

/-- A symbol's own share of the reserved bytes. -/
theorem reserved_filter {symbols : List String} (nodup : symbols.Nodup) (symbol : String) :
    cache.reserved symbols = (if symbol ∈ symbols then
      cache.entryReservationFor symbol (cache.hasTicks symbol) else 0) +
        cache.reserved (symbols.filter (· ≠ symbol)) := by
  induction symbols with
  | nil => rfl
  | cons first symbols ih =>
    rw [nodup_cons] at nodup
    have tail := ih nodup.2
    unfold reserved at tail ⊢
    rw [map_cons, sum_cons, tail, filter_cons]
    by_cases same : first = symbol
    · subst same
      simp [nodup.1]
    · simp [same, Ne.symm same, Nat.add_left_comm]

/-! ## One write -/

section

variable (accounted : cache.Accounted)

include accounted

/-- What `admit` does to an accounted cache when the entry alone fits. -/
theorem Accounted.admitWrite_spec {symbol : String} {hasTick : Bool}
    (fits : ¬ cache.limits.maxRetainedBytes < cache.entryReservationFor symbol hasTick)
    (room : 0 < cache.limits.maxSymbols)
    (unsaturated : cache.retainedBytes - (cache.admission symbol hasTick).previous +
      cache.entryReservationFor symbol hasTick ≤ usizeMax) :
    ∃ victims kept, cache.lru.filter (· ≠ symbol) = victims ++ kept ∧
      cache.admitWrite symbol hasTick =
        ({ victims.foldl evictSymbol cache with
            retainedBytes := cache.reserved kept + cache.entryReservationFor symbol hasTick
            lru := kept ++ [symbol] },
          ⟨true, victims.length,
            cache.reserved kept + cache.entryReservationFor symbol hasTick⟩) ∧
      kept.length + 1 ≤ cache.limits.maxSymbols ∧
      cache.reserved kept + cache.entryReservationFor symbol hasTick ≤
        cache.limits.maxRetainedBytes ∧
      ∀ fewer < victims.length,
        cache.limits.maxSymbols < ((victims ++ kept).drop fewer).length + 1 ∨
          cache.limits.maxRetainedBytes < cache.reserved ((victims ++ kept).drop fewer) +
            cache.entryReservationFor symbol hasTick := by
  have retained : cache.retainedBytes = (cache.admission symbol hasTick).previous +
      cache.reserved (cache.lru.filter (· ≠ symbol)) := by
    rw [accounted.retained, reserved_filter accounted.distinct symbol, admission]
    simp only [List.contains_iff_mem]
  rw [retained, Nat.add_sub_cancel_left] at unsaturated
  obtain ⟨victims, kept, isSplit, res, symbolsFit, bytesFit, needed⟩ :=
    @makeRoom_spec cache (cache.admission symbol hasTick) _ (accounted.distinct.filter _)
      (fun other mem => (accounted.listed other).mp (mem_filter.mp mem).1) retained unsaturated
      (not_lt.mp fits) room 0
  rw [isSplit] at needed
  refine ⟨victims, kept, isSplit, ?_, ?_, bytesFit, fun fewer few => ?_⟩
  · rw [MarketCache.admitWrite, if_neg fits, res, Nat.zero_add]
    rfl
  · by_cases mem : symbol ∈ cache.lru
    · -- the symbol leaves its own place
      have shorter : (cache.lru.filter (· ≠ symbol)).length < cache.lru.length :=
        length_filter_lt_length_iff_exists.mpr ⟨symbol, mem, by simp⟩
      have bound := accounted.symbolsBound
      rw [isSplit, length_append] at shorter
      omega
    · simpa [admission, mem] using symbolsFit
  · refine (needed fewer few).imp_left fun grown => grown.trans_le (Nat.add_le_add_left ?_ _)
    exact Bool.toNat_le _

/-- What a stored write leaves: the symbol comes last, and the victims are gone. -/
structure Written (cache : MarketCache) (write : CacheWrite) (victims kept : List String)
    (post : MarketCache) : Prop where
  others : cache.lru.filter (· ≠ write.symbol) = victims ++ kept
  lru : post.lru = kept ++ [write.symbol]
  limits : post.limits = cache.limits
  sizes : post.sizes = cache.sizes
  capacity : post.tickCapacity = cache.tickCapacity
  retained : post.retainedBytes = cache.reserved kept + cache.needs write
  quotes : ∀ symbol, post.quote? symbol = if symbol = write.symbol then some write.cached
    else if symbol ∈ victims then none else cache.quote? symbol
  rings : ∀ symbol, post.tickRing symbol = if symbol = write.symbol then write.ring cache
    else if symbol ∈ victims then none else cache.tickRing symbol

omit accounted in
theorem not_mem_others {symbol : String} {victims kept : List String}
    (isSplit : cache.lru.filter (· ≠ symbol) = victims ++ kept) :
    symbol ∉ victims ∧ symbol ∉ kept := by
  have own : symbol ∉ cache.lru.filter (· ≠ symbol) := fun mem => by simp at mem
  rw [isSplit, mem_append, not_or] at own
  exact own

/-- A write that fits alone is stored, and its evictions leave room. -/
theorem Accounted.written {write : CacheWrite} (room : 0 < cache.limits.maxSymbols)
    (fits : ¬ cache.limits.maxRetainedBytes < cache.needs write)
    (unsaturated : cache.retainedBytes -
      (cache.admission write.symbol (write.hasTick cache)).previous + cache.needs write ≤
        usizeMax) :
    ∃ victims kept post, cache.Written write victims kept post ∧
      cache.write write = (post, ⟨true, victims.length, post.retainedBytes⟩) ∧
      kept.length + 1 ≤ cache.limits.maxSymbols ∧
      cache.reserved kept + cache.needs write ≤ cache.limits.maxRetainedBytes ∧
      ∀ fewer < victims.length,
        cache.limits.maxSymbols < ((victims ++ kept).drop fewer).length + 1 ∨
          cache.limits.maxRetainedBytes <
            cache.reserved ((victims ++ kept).drop fewer) + cache.needs write := by
  obtain ⟨victims, kept, isSplit, res, symbolsFit, bytesFit, needed⟩ :=
    accounted.admitWrite_spec fits room unsaturated
  have own := (not_mem_others isSplit).1
  have evictions := @foldl_evictSymbol cache victims
  obtain ⟨sizes, capacity, limits⟩ := (evictions "").2.2
  suffices ∃ post, cache.write write = (post, ⟨true, victims.length, post.retainedBytes⟩) ∧
      cache.Written write victims kept post by
    obtain ⟨post, isAfter, written⟩ := this
    exact ⟨victims, kept, post, written, isAfter, symbolsFit, bytesFit, needed⟩
  cases write with
  | tick symbol row =>
    rw [MarketCache.write, pushTick]
    dsimp only [CacheWrite.symbol] at own res ⊢
    rw [show cache.admitWrite symbol true = _ from res]
    refine ⟨_, rfl, isSplit, rfl, limits, sizes, capacity, rfl, fun other => ?_, fun other => ?_⟩
    · exact (get?_insert ..).trans (if_congr Iff.rfl rfl (evictions other).1)
    · refine (get?_insert ..).trans (if_congr Iff.rfl ?_ (evictions other).2.1)
      have ring := (evictions symbol).2.1
      rw [if_neg own] at ring
      rw [CacheWrite.ring, ← ring, ← capacity]
      rfl
  | quote symbol quote =>
    rw [MarketCache.write, pushQuote]
    dsimp only [CacheWrite.symbol] at own res ⊢
    rw [show cache.admitWrite symbol (cache.hasTicks symbol) = _ from res]
    refine ⟨_, rfl, isSplit, rfl, limits, sizes, capacity, rfl, fun other => ?_, fun other => ?_⟩
    · exact (get?_insert ..).trans (if_congr Iff.rfl rfl (evictions other).1)
    · refine (evictions other).2.1.trans ?_
      split_ifs with gone same same
      · exact absurd ((show other = symbol from same) ▸ gone) own
      · rfl
      · rw [show other = symbol from same]
        rfl
      · rfl

section

variable {write : CacheWrite} {victims kept : List String} {post : MarketCache}
  (written : cache.Written write victims kept post)

include written

omit accounted in
/-- The reservations of the others stay, and the written symbol reserves what it needs. -/
theorem Written.reservation (symbol : String) :
    post.entryReservationFor symbol (post.hasTicks symbol) =
      if symbol = write.symbol then cache.needs write
      else cache.entryReservationFor symbol
        (if symbol ∈ victims then false else cache.hasTicks symbol) := by
  have ticks : post.hasTicks symbol = (post.tickRing symbol).isSome := rfl
  unfold needs entryReservationFor
  rw [ticks, written.rings, written.sizes, written.capacity]
  split_ifs with same gone
  · subst same
    cases write <;> rfl
  · rfl
  · rfl

theorem Written.kept_listed {symbol : String} (mem : symbol ∈ kept) :
    symbol ∈ cache.lru ∧ symbol ∉ victims := by
  have separate := (nodup_append'.mp (written.others ▸ accounted.distinct.filter _)).2.2
  exact ⟨(mem_filter.mp (written.others ▸ mem_append_right _ mem)).1,
    fun inside => separate inside mem⟩

/-- A ring whose ids grow takes the row in its place. -/
theorem Written.places : write.Places cache post := by
  have ring := written.rings write.symbol
  rw [if_pos rfl] at ring
  cases write with
  | tick symbol row =>
    refine ⟨_, ring, Ascends.placesRow ?_ row⟩
    cases isRing : cache.tickRing symbol with
    | none => exact Pairwise.nil
    | some ring => exact accounted.ascends symbol ring isRing
  | quote symbol quote => exact ring

/-- The invariant after a stored write, one field at a time. -/
theorem Written.accounted_post (symbolsFit : kept.length + 1 ≤ cache.limits.maxSymbols)
    (bytesFit : cache.reserved kept + cache.needs write ≤ cache.limits.maxRetainedBytes) :
    post.Accounted := by
  have ownKept := (not_mem_others written.others).2
  refine ⟨?_, fun symbol => ?_, fun symbol ticks => ?_, fun symbol ring isRing => ?_, ?_, ?_, ?_⟩
  · rw [written.lru]
    have nodup := (nodup_append'.mp (written.others ▸ accounted.distinct.filter _)).2.1
    exact nodup_append'.mpr ⟨nodup, nodup_singleton _, by simpa using ownKept⟩
  · rw [written.lru, mem_append, mem_singleton, written.quotes]
    by_cases same : symbol = write.symbol
    · simp [same]
    · rw [if_neg same]
      have others : symbol ∈ victims ++ kept ↔ symbol ∈ cache.lru := by
        rw [← written.others, mem_filter]
        simp [same]
      rw [mem_append] at others
      split_ifs with gone
      · simp only [same, or_false, Option.isSome_none, Bool.false_eq_true, iff_false]
        exact fun mem => (written.kept_listed accounted mem).2 gone
      · rw [← accounted.listed, ← others]
        simp [same, gone]
  · rw [written.lru, mem_append, mem_singleton]
    have here : (post.tickRing symbol).isSome := ticks
    rw [written.rings] at here
    split_ifs at here with same gone
    · exact .inr same
    · cases here
    · have mem : symbol ∈ cache.lru.filter (· ≠ write.symbol) :=
        mem_filter.mpr ⟨accounted.ringed symbol here, decide_eq_true same⟩
      rw [written.others, mem_append] at mem
      exact .inl (mem.resolve_left gone)
  · by_cases same : symbol = write.symbol
    · subst same
      have places := written.places accounted
      cases write with
      | tick symbol row =>
        obtain ⟨after, isAfter, placed⟩ := places
        cases isAfter.symm.trans isRing
        exact placed.ascends
      | quote symbol quote => exact accounted.ascends symbol ring (places.symm.trans isRing)
    · rw [written.rings, if_neg same] at isRing
      split_ifs at isRing
      exact accounted.ascends symbol ring isRing
  · rw [written.retained, written.lru, reserved, reserved, map_append, sum_append, map_singleton,
      sum_singleton, written.reservation, if_pos rfl]
    refine congrArg (· + _) (congrArg List.sum (map_congr_left fun symbol mem => ?_))
    have ne : symbol ≠ write.symbol := fun same => ownKept (same ▸ mem)
    rw [written.reservation, if_neg ne, if_neg (written.kept_listed accounted mem).2]
  · rw [written.lru, written.limits, length_append, length_singleton]
    exact symbolsFit
  · rw [written.retained, written.limits]
    exact bytesFit

theorem Written.stores (needed : ∀ fewer < victims.length,
      cache.limits.maxSymbols < ((victims ++ kept).drop fewer).length + 1 ∨
        cache.limits.maxRetainedBytes <
          cache.reserved ((victims ++ kept).drop fewer) + cache.needs write) :
    cache.Stores write (post, ⟨true, victims.length, post.retainedBytes⟩) victims kept := by
  have own := (not_mem_others written.others).1
  refine ⟨written.others, written.lru, rfl, ?_, written.places accounted, fun symbol ne left => ?_,
    fun symbol gone => ?_, needed⟩
  · rw [written.quotes, if_pos rfl]
  · rw [written.quotes, written.rings, if_neg ne, if_neg ne, if_neg left, if_neg left]
    exact ⟨rfl, rfl⟩
  · have ne : symbol ≠ write.symbol := fun same => own (same ▸ gone)
    rw [written.quotes, written.rings, if_neg ne, if_neg ne, if_pos gone, if_pos gone]
    exact ⟨rfl, rfl⟩

end

omit accounted in
/-- An entry that exceeds the limit by itself is refused before anything is evicted. -/
theorem write_refused {write : CacheWrite}
    (exceeds : cache.limits.maxRetainedBytes < cache.needs write) :
    cache.write write = (cache, ⟨false, 0, cache.retainedBytes⟩) := by
  cases write with
  | tick symbol row =>
    have deny : cache.admitWrite symbol true = (cache, ⟨false, 0, cache.retainedBytes⟩) :=
      if_pos exceeds
    rw [MarketCache.write, pushTick, deny]
    rfl
  | quote symbol quote =>
    have deny : cache.admitWrite symbol (cache.hasTicks symbol) =
        (cache, ⟨false, 0, cache.retainedBytes⟩) := if_pos exceeds
    rw [MarketCache.write, pushQuote, deny]
    rfl

/-- The step lemma: every write is admitted as it should be and keeps the invariant. -/
theorem Accounted.write {write : CacheWrite} (room : 0 < cache.limits.maxSymbols)
    (unsaturated : cache.retainedBytes -
      (cache.admission write.symbol (write.hasTick cache)).previous + cache.needs write ≤
        usizeMax) :
    cache.Admits write (cache.write write) ∧ (cache.write write).1.Accounted ∧
      (cache.write write).1.limits = cache.limits ∧
      (cache.write write).1.sizes = cache.sizes ∧
      (cache.write write).1.tickCapacity = cache.tickCapacity := by
  unfold Admits
  split
  · rename_i exceeds
    rw [write_refused exceeds]
    exact ⟨rfl, accounted, rfl, rfl, rfl⟩
  · rename_i fits
    obtain ⟨victims, kept, post, written, isAfter, symbolsFit, bytesFit, needed⟩ :=
      accounted.written room fits unsaturated
    rw [isAfter]
    exact ⟨⟨victims, kept, written.stores accounted needed⟩,
      written.accounted_post accounted symbolsFit bytesFit, written.limits, written.sizes,
      written.capacity⟩

end

/-! ## Runs -/

/-- A list without repetition keeps the last occurrences. -/
theorem dedup_concat (history : List String) (symbol : String) :
    (history ++ [symbol]).dedup = history.dedup.filter (· ≠ symbol) ++ [symbol] := by
  induction history with
  | nil => simp
  | cons first history ih =>
    rw [cons_append]
    by_cases again : first ∈ history
    · rw [dedup_cons_of_mem again, dedup_cons_of_mem (mem_append_left _ again), ih]
    · rw [dedup_cons_of_notMem again, filter_cons]
      by_cases same : first = symbol
      · subst same
        rw [dedup_cons_of_mem (mem_append_right _ (mem_singleton_self _)), ih]
        simp
      · rw [dedup_cons_of_notMem (by simp [again, same]), ih, if_pos (by simpa using same)]
        rfl

theorem Accounted.run (accounted : cache.Accounted) (room : 0 < cache.limits.maxSymbols)
    {writes : List CacheWrite} (unsaturated : Unsaturated writes cache) {history : List String}
    (recent : cache.lru.Sublist history.dedup) :
    (cache.run writes).Accounted ∧ (cache.run writes).limits = cache.limits ∧
      (cache.run writes).lru.Sublist (history ++ stored writes cache).dedup := by
  induction writes generalizing cache history with
  | nil => exact ⟨accounted, rfl, by rwa [stored, append_nil]⟩
  | cons w writes ih =>
    obtain ⟨admits, post, limits, -⟩ := accounted.write room unsaturated.1
    have recent' : (cache.write w).1.lru.Sublist (history ++
        if cache.limits.maxRetainedBytes < cache.needs w then [] else [w.symbol]).dedup := by
      unfold Admits at admits
      split_ifs at admits ⊢
      · rwa [admits, append_nil]
      · obtain ⟨victims, kept, stores⟩ := admits
        rw [stores.lru, dedup_concat]
        refine Sublist.append ?_ (Sublist.refl _)
        exact (stores.others ▸ sublist_append_right victims kept).trans (recent.filter _)
    obtain ⟨accounted', limits', recent''⟩ := ih post (limits ▸ room) unsaturated.2 recent'
    exact ⟨accounted', limits'.trans limits, by rwa [stored, ← append_assoc]⟩

theorem accounted_withLimits (sizes : EntrySizes) (capacity klineCapacity : Nat)
    (limits : MarketCacheLimits) :
    (withLimits sizes capacity klineCapacity limits).Accounted :=
  ⟨nodup_nil, fun _ => by simp [withLimits, quote?], fun _ => by simp [withLimits, hasTicks],
    fun _ _ => nofun, rfl,
    Nat.zero_le _, Nat.zero_le _⟩

/-- Over every run the cache is accounted for, its symbols are listed in the order of their last
stored writes, and the next write is admitted as it should be. -/
theorem run_admits (sizes : EntrySizes) (tickCapacity klineCapacity : Nat)
    (limits : MarketCacheLimits)
    (accepted : (withLimits sizes tickCapacity klineCapacity limits).Accepted)
    (writes : List CacheWrite) (write : CacheWrite)
    (unsaturated :
      Unsaturated (writes ++ [write]) (withLimits sizes tickCapacity klineCapacity limits)) :
    ((withLimits sizes tickCapacity klineCapacity limits).run writes).Accounted ∧
      ((withLimits sizes tickCapacity klineCapacity limits).run writes).lru.Sublist
        (stored writes (withLimits sizes tickCapacity klineCapacity limits)).dedup ∧
      ((withLimits sizes tickCapacity klineCapacity limits).run writes).Admits write
        (((withLimits sizes tickCapacity klineCapacity limits).run writes).write write) := by
  have split : ∀ (writes : List CacheWrite) (cache : MarketCache),
      Unsaturated (writes ++ [write]) cache →
        Unsaturated writes cache ∧ Unsaturated [write] (cache.run writes) := by
    intro writes
    induction writes with
    | nil => exact fun _ whole => ⟨trivial, whole⟩
    | cons first writes ih =>
      intro cache whole
      obtain ⟨before, last⟩ := ih _ whole.2
      exact ⟨⟨whole.1, before⟩, last⟩
  obtain ⟨before, last⟩ := split writes _ unsaturated
  have room := accepted.2.2.1
  obtain ⟨accounted, limits', recent⟩ :=
    (accounted_withLimits sizes tickCapacity klineCapacity limits).run room before
      (nil_sublist ([] : List String).dedup)
  exact ⟨accounted, recent, (accounted.write (limits' ▸ room) last.1).1⟩

/-- Room for two symbols: the third one evicts the tick ring of the first, and the quote of the
second stays. -/
theorem run_admits_third :
    let cache := (withLimits ⟨24, 320, 32, 48⟩ 2 64 ⟨2, usizeMax⟩).run
      [.tick "a" ⟨1, 1, F64.finite 5, 0, 0⟩, .quote "b" ⟨"b", "", F64.finite 7, 0, 0⟩]
    cache.Admits (.tick "c" ⟨4, 4, F64.finite 9, 0, 0⟩)
        (cache.pushTick "c" ⟨4, 4, F64.finite 9, 0, 0⟩) ∧
      (cache.tickRing "a").isSome ∧
      (cache.pushTick "c" ⟨4, 4, F64.finite 9, 0, 0⟩).2.evictedSymbols = 1 ∧
      (cache.pushTick "c" ⟨4, 4, F64.finite 9, 0, 0⟩).1.lru = ["b", "c"] :=
  ⟨(run_admits ⟨24, 320, 32, 48⟩ 2 64 ⟨2, usizeMax⟩
    ⟨by decide, by decide, by decide, by decide, min_le_left _ _⟩
    [.tick "a" ⟨1, 1, F64.finite 5, 0, 0⟩, .quote "b" ⟨"b", "", F64.finite 7, 0, 0⟩]
    (.tick "c" ⟨4, 4, F64.finite 9, 0, 0⟩) ⟨by decide, by decide, by decide, trivial⟩).2.2,
    by decide, by decide, by decide⟩

end MarketCache

end Tqsdk
